import Mathlib.Algebra.Order.Floor.Ring
import Mathlib.Data.Rat.Floor
import Mathlib.Tactic.Linarith
import TickerWatch.Foundations.Dict
import TickerWatch.Foundations.System

/-!
# The timer of the poll client

The effect of `usePollPrices.js`: a first poll at once, a timer after a random part of the interval,
and from then on a timer in every callback.  Each callback adds the interval to `next` and sets the
timer to what is left until then, so the polls keep to slots that are an interval apart, however long
the requests take and however late a callback comes.

Times are milliseconds of `Date.now()`, which are whole, and do not run backwards here.
`setTimeout` drops the fraction of its delay, and a callback comes when its time has passed or later.
The effect runs again when the token changes: the cleanup of the effect before it comes first.
-/

namespace TickerWatch

/-- The variables of one run of the effect, and of its callbacks.  `next` is when the next slot
comes: it goes up by the interval, and not from the time a callback ran at, which is why lateness
does not add up. -/
structure PollEffect where
  token : String
  cancelled : Bool
  next : ℚ
  timer : ℕ
  /-- History: when it started, and after what delay. -/
  started : ℤ
  startDelay : ℚ
  /-- History: how many callbacks have run. -/
  ticks : ℕ
  deriving DecidableEq

/-- A timer that is set: when it is due, and the effect whose `tick` it calls. -/
structure PendingTimer where
  due : ℤ
  owner : ℕ
  deriving DecidableEq

/-- A call of `refresh` by the effect: at once, or by its `k`-th callback. -/
structure TimedPoll where
  owner : ℕ
  index : Option ℕ
  time : ℤ
  deriving DecidableEq

/-- The page, as far as the timer goes.  An effect that was cleaned up stays in `effects` and keeps
its number, so that each poll can be told from those of the effects before and after. -/
structure PollTimer where
  now : ℤ
  /-- The effects that have run, and the one whose cleanup has not. -/
  effects : Dict ℕ PollEffect
  current : Option ℕ
  timers : Dict ℕ PendingTimer
  nextId : ℕ
  /-- History. -/
  polls : List TimedPoll
  deriving DecidableEq

/-- What can happen: time passes, a timer calls back, or the effect runs again, with a token or with
none, and with the delay it draws.  With none it is as if the hook was unmounted. -/
inductive PollTimerEvent
  | pass (milliseconds : ℕ)
  | fire (id : ℕ)
  | render (token : Option String) (startDelay : ℚ)

namespace PollTimer

/-- The page before the hook has run. -/
def initial (now : ℤ) : PollTimer := ⟨now, .empty, none, .empty, 0, []⟩

/-- `setTimeout(tick, delay)` of an effect: the timer's id is `nextId`. -/
def setTimeout (s : PollTimer) (owner : ℕ) (delay : ℚ) : PollTimer :=
  { s with
    timers := s.timers.set s.nextId ⟨s.now + ⌊delay⌋, owner⟩
    nextId := s.nextId + 1 }

/-- `refresh()`. -/
def poll (s : PollTimer) (owner : ℕ) (index : Option ℕ) : PollTimer :=
  { s with polls := s.polls ++ [⟨owner, index, s.now⟩] }

/-- The cleanup of an effect. -/
def cleanup (s : PollTimer) : PollTimer :=
  match s.current.bind fun id => (s.effects.get? id).map fun e => (id, e) with
  | none => { s with current := none }
  | some (id, e) =>
    { s with
      current := none
      effects := s.effects.set id { e with cancelled := true }
      timers := s.timers.erase e.timer }

/-- The effect with a token: it is numbered, and its timer too, from `nextId`. -/
def startEffect (s : PollTimer) (token : String) (startDelay : ℚ) : PollTimer :=
  let id := s.nextId
  let s := { s with nextId := s.nextId + 1 }.poll id none
  { s.setTimeout id startDelay with
    current := some id
    effects := s.effects.set id
      ⟨token, false, s.now + startDelay, s.nextId, s.now, startDelay, 0⟩ }

/-- `tick`. -/
def tick (interval : ℚ) (s : PollTimer) (id : ℕ) (e : PollEffect) : PollTimer :=
  if e.cancelled then s
  else
    let next := e.next + interval
    { (s.setTimeout id (max 0 (next - s.now))).poll id (some e.ticks) with
      effects := s.effects.set id { e with next := next, timer := s.nextId, ticks := e.ticks + 1 } }

/-- One event.  A timer calls back when it is due or later. -/
def step (interval : ℚ) (s : PollTimer) : PollTimerEvent → Option PollTimer
  | .pass milliseconds => some { s with now := s.now + milliseconds }
  | .fire id =>
    (s.timers.get? id).bind fun timer =>
      if timer.due ≤ s.now then
        (s.effects.get? timer.owner).map fun e =>
          tick interval { s with timers := s.timers.erase id } timer.owner e
      else none
  | .render token startDelay =>
    match token with
    | none => some s.cleanup
    | some token => some (s.cleanup.startEffect token startDelay)

/-- The runs of the page. -/
def system (interval : ℚ) : System PollTimer PollTimerEvent where
  init s := ∃ now, s = initial now
  step := step interval

/-! ## Slots -/

/-- When the `k`-th callback of an effect should come. -/
def slot (interval : ℚ) (e : PollEffect) (k : ℕ) : ℚ := e.started + e.startDelay + k * interval

/-- The polls of an effect. -/
def pollsOf (s : PollTimer) (owner : ℕ) : List TimedPoll :=
  s.polls.filter fun p => decide (p.owner = owner)

/-- The effect has polled once at its start and once in each slot so far, not before it. -/
structure Slotted (interval : ℚ) (s : PollTimer) (owner : ℕ) (e : PollEffect) : Prop where
  next : e.next = slot interval e e.ticks
  polls : (s.pollsOf owner).map TimedPoll.index = none :: (List.range e.ticks).map some
  past : ∀ p ∈ s.pollsOf owner, p.time ≤ s.now
  not_early : ∀ p ∈ s.pollsOf owner, ∀ k, p.index = some k → ⌊slot interval e k⌋ ≤ p.time

/-- The timers that are set belong to the effect whose cleanup has not run, which has one, due in
its next slot or later.  It is what a remount and a new token have to keep: no timer outlives its
effect. -/
structure Tidy (interval : ℚ) (s : PollTimer) : Prop where
  timers : ∀ id timer, s.timers.get? id = some timer → s.current = some timer.owner ∧
    ∃ e, s.effects.get? timer.owner = some e ∧ e.timer = id
  current : ∀ owner, s.current = some owner → ∃ e timer, s.effects.get? owner = some e ∧
    e.cancelled = false ∧ s.timers.get? e.timer = some timer ∧ timer.owner = owner ∧
    ⌊slot interval e e.ticks⌋ ≤ timer.due
  effect_lt : ∀ id e, s.effects.get? id = some e → id < s.nextId
  timer_lt : ∀ id timer, s.timers.get? id = some timer → id < s.nextId
  poll_lt : ∀ p ∈ s.polls, p.owner < s.nextId
  slotted : ∀ owner e, s.effects.get? owner = some e → Slotted interval s owner e

variable {interval : ℚ} {s s' : PollTimer} {e : PollEffect}

lemma slot_succ (e : PollEffect) (k : ℕ) :
    slot interval e (k + 1) = slot interval e k + interval := by
  rw [slot, slot, Nat.cast_add, Nat.cast_one]
  ring

lemma tidy_initial (interval : ℚ) (now : ℤ) : Tidy interval (initial now) :=
  ⟨by simp [initial], by simp [initial], by simp [initial], by simp [initial], by simp [initial],
    by simp [initial]⟩

/-- Only the polls of an effect and the time matter to its slots. -/
lemma Slotted.mono {owner : ℕ} (h : Slotted interval s owner e)
    (hpolls : s'.pollsOf owner = s.pollsOf owner) (hnow : s.now ≤ s'.now) :
    Slotted interval s' owner e :=
  ⟨h.next, by rw [hpolls, h.polls], fun p hp => (h.past p (hpolls ▸ hp)).trans hnow,
    fun p hp => h.not_early p (hpolls ▸ hp)⟩

lemma Tidy.pass (h : Tidy interval s) (milliseconds : ℕ) :
    Tidy interval { s with now := s.now + milliseconds } :=
  ⟨h.timers, h.current, h.effect_lt, h.timer_lt, h.poll_lt, fun owner e he =>
    (h.slotted owner e he).mono rfl (le_add_of_nonneg_right (Int.natCast_nonneg _))⟩

lemma Tidy.get?_timers_of_none (h : Tidy interval s) (hcurrent : s.current = none) (id : ℕ) :
    s.timers.get? id = none := by
  cases htimer : s.timers.get? id with
  | none => rfl
  | some timer =>
    have howner := (h.timers id timer htimer).1
    rw [hcurrent] at howner
    exact absurd howner (by simp)

lemma Tidy.timer_unique (h : Tidy interval s) {id id' : ℕ} {timer timer' : PendingTimer}
    (htimer : s.timers.get? id = some timer) (htimer' : s.timers.get? id' = some timer') :
    id' = id := by
  obtain ⟨hcurrent, e, he, rfl⟩ := h.timers id timer htimer
  obtain ⟨hcurrent', e', he', rfl⟩ := h.timers id' timer' htimer'
  rw [← Option.some.inj (hcurrent.symm.trans hcurrent'), he] at he'
  exact congrArg PollEffect.timer (Option.some.inj he').symm

lemma Tidy.get?_timers_erase (h : Tidy interval s) {id : ℕ} {timer : PendingTimer}
    (htimer : s.timers.get? id = some timer) (id' : ℕ) : (s.timers.erase id).get? id' = none := by
  rw [Dict.get?_erase]
  split
  · rfl
  · next hne =>
    exact Option.eq_none_iff_forall_ne_some.2 fun other hother =>
      hne (h.timer_unique htimer hother)

lemma cleanup_of_none (h : s.current = none) : s.cleanup = s := by
  rw [cleanup, h]
  cases s
  simp_all

lemma cleanup_of_current {id : ℕ} (h : s.current = some id) (he : s.effects.get? id = some e) :
    s.cleanup =
      { s with
        current := none
        effects := s.effects.set id { e with cancelled := true }
        timers := s.timers.erase e.timer } := by
  rw [cleanup, h, Option.bind_some, he]
  rfl

lemma Tidy.cleanup (h : Tidy interval s) :
    Tidy interval s.cleanup ∧ s.cleanup.current = none := by
  cases hcurrent : s.current with
  | none =>
    -- no effect is running
    rw [cleanup_of_none hcurrent]
    exact ⟨h, hcurrent⟩
  | some id =>
    obtain ⟨e, timer, he, -, -, -, -⟩ := h.current id hcurrent
    -- the timer of the effect is cleared, and the effect marked
    rw [cleanup_of_current hcurrent he]
    refine ⟨⟨fun id' timer' htimer' => ?_, by simp, fun id' e' he' => ?_, fun id' timer' htimer' => ?_,
      h.poll_lt, fun owner e' he' => ?_⟩, rfl⟩
    · -- another timer would be of the same effect
      rw [Dict.get?_erase] at htimer'
      split at htimer'
      · exact absurd htimer' (by simp)
      · next hne =>
        obtain ⟨howner, e', he', htimer⟩ := h.timers id' timer' htimer'
        obtain rfl : id = timer'.owner := Option.some.inj (hcurrent.symm.trans howner)
        obtain rfl : e = e' := Option.some.inj (he.symm.trans he')
        exact absurd htimer.symm hne
    · rw [Dict.get?_set] at he'
      split at he'
      · next heq => exact heq ▸ h.effect_lt id e he
      · exact h.effect_lt id' e' he'
    · rw [Dict.get?_erase] at htimer'
      split at htimer'
      · exact absurd htimer' (by simp)
      · exact h.timer_lt id' timer' htimer'
    · rw [Dict.get?_set] at he'
      split at he'
      · next heq =>
        obtain rfl := heq
        obtain rfl := Option.some.inj he'
        obtain ⟨hnext, hpolls, hpast, hearly⟩ := h.slotted _ e he
        exact ⟨hnext, hpolls, hpast, hearly⟩
      · exact (h.slotted owner e' he').mono rfl le_rfl

/-- The cleanup leaves the slots and the polls of every effect. -/
lemma cleanup_effects {owner : ℕ} (he : s.cleanup.effects.get? owner = some e) :
    ∃ e', s.effects.get? owner = some e' ∧ slot interval e = slot interval e' := by
  revert he
  unfold PollTimer.cleanup
  split
  · exact fun he => ⟨e, he, rfl⟩
  · next id e' hcurrent =>
    intro he
    obtain ⟨id', -, hmap⟩ := Option.bind_eq_some_iff.1 hcurrent
    obtain ⟨e₁, he₁, heq⟩ := Option.map_eq_some_iff.1 hmap
    obtain ⟨rfl, rfl⟩ := Prod.mk.inj heq
    change (s.effects.set id' _).get? owner = _ at he
    rw [Dict.get?_set] at he
    split at he
    · next hid =>
      obtain rfl := Option.some.inj he
      exact ⟨e₁, hid ▸ he₁, rfl⟩
    · exact ⟨e, he, rfl⟩

lemma cleanup_rest : s.cleanup.now = s.now ∧ s.cleanup.nextId = s.nextId ∧
    s.cleanup.polls = s.polls := by
  unfold PollTimer.cleanup
  split <;> exact ⟨rfl, rfl, rfl⟩

/-- What a callback of an effect that is not cancelled does. -/
lemma tick_eq {owner : ℕ} (he : e.cancelled = false) :
    tick interval s owner e =
      { s with
        effects := s.effects.set owner
          { e with next := e.next + interval, timer := s.nextId, ticks := e.ticks + 1 }
        timers := s.timers.set s.nextId ⟨s.now + ⌊max 0 (e.next + interval - s.now)⌋, owner⟩
        nextId := s.nextId + 1
        polls := s.polls ++ [⟨owner, some e.ticks, s.now⟩] } := by
  rw [tick, he, if_neg Bool.false_ne_true]
  rfl

lemma lt_of_get?_set {ν : Type*} {d : Dict ℕ ν} {v w : ν} {n m k id : ℕ}
    (hd : ∀ id v, d.get? id = some v → id < n) (hnm : n ≤ m) (hk : k < m)
    (h : (d.set k v).get? id = some w) : id < m := by
  rw [Dict.get?_set] at h
  split at h
  · next heq => exact heq ▸ hk
  · exact (hd id w h).trans_le hnm

lemma pollsOf_startEffect (token : String) (startDelay : ℚ) (owner : ℕ) :
    (s.startEffect token startDelay).pollsOf owner = s.pollsOf owner ++
      [⟨s.nextId, none, s.now⟩].filter fun p => decide (p.owner = owner) :=
  List.filter_append _ _

/-- A new effect polls at once and sets its timer. -/
lemma Tidy.startEffect (h : Tidy interval s) (hcurrent : s.current = none) (token : String)
    (startDelay : ℚ) : Tidy interval (s.startEffect token startDelay) := by
  have hnoTimer := h.get?_timers_of_none hcurrent
  -- the new effect has a new number, so it has no polls yet
  have hnoPolls : s.pollsOf s.nextId = [] := List.filter_eq_nil_iff.2 fun p hp => by
    simpa using (h.poll_lt p hp).ne
  refine ⟨fun id timer htimer => ?_, fun owner howner => ?_, fun id e he => ?_,
    fun id timer htimer => ?_, fun p hp => ?_, fun owner e he => ?_⟩
  · change (s.timers.set (s.nextId + 1) _).get? id = _ at htimer
    rw [Dict.get?_set] at htimer
    split at htimer
    · next heq =>
      obtain rfl := Option.some.inj htimer
      exact ⟨rfl, _, Dict.get?_set_self _ _ _, heq.symm⟩
    · rw [hnoTimer id] at htimer
      exact absurd htimer (by simp)
  · obtain rfl := Option.some.inj howner
    refine ⟨_, _, Dict.get?_set_self _ _ _, rfl, Dict.get?_set_self _ _ _, rfl, ?_⟩
    show ⌊slot interval _ 0⌋ ≤ s.now + ⌊startDelay⌋
    rw [slot, Nat.cast_zero, zero_mul, add_zero, Int.floor_intCast_add]
    exact le_rfl
  · have hlt : s.nextId < s.nextId + 2 := Nat.lt_succ_of_lt (Nat.lt_succ_self _)
    exact lt_of_get?_set h.effect_lt (Nat.le_add_right _ 2) hlt he
  · exact lt_of_get?_set h.timer_lt (Nat.le_add_right _ 2) (Nat.lt_succ_self _) htimer
  · show p.owner < s.nextId + 1 + 1
    rcases List.mem_append.1 hp with hp | hp
    · exact (h.poll_lt p hp).trans (by omega)
    · obtain rfl := List.mem_singleton.1 hp
      show s.nextId < _
      omega
  · change (s.effects.set s.nextId _).get? owner = _ at he
    rw [Dict.get?_set] at he
    have hpolls := pollsOf_startEffect (s := s) token startDelay owner
    split at he
    · next heq =>
      obtain rfl := heq
      obtain rfl := Option.some.inj he
      -- it polls once at its start, outside the slots
      have honly : (s.startEffect token startDelay).pollsOf s.nextId = [⟨s.nextId, none, s.now⟩] := by
        rw [hpolls, hnoPolls]
        simp
      refine ⟨by simp [slot], by rw [honly]; rfl, fun p hp => ?_, fun p hp k hk => ?_⟩
      · rw [honly, List.mem_singleton] at hp
        exact hp ▸ le_rfl
      · rw [honly, List.mem_singleton] at hp
        exact absurd (hp ▸ hk) (by simp)
    · next hne =>
      refine (h.slotted owner e he).mono ?_ le_rfl
      rw [hpolls]
      simp [Ne.symm hne]

/-- A callback of the current effect: the timer that called it is gone, and it has set another. -/
lemma Tidy.tick (h : Tidy interval s) {id : ℕ} {timer : PendingTimer}
    (htimer : s.timers.get? id = some timer) (hdue : timer.due ≤ s.now)
    (he : s.effects.get? timer.owner = some e) :
    Tidy interval (tick interval { s with timers := s.timers.erase id } timer.owner e) := by
  -- the timer that called back is the one of the current effect
  obtain ⟨hcurrent, e', he', rfl⟩ := h.timers id timer htimer
  obtain rfl : e = e' := Option.some.inj (he.symm.trans he')
  obtain ⟨e', timer', he'', hcancelled, htimer', -, hslot⟩ := h.current _ hcurrent
  obtain rfl : e = e' := Option.some.inj (he.symm.trans he'')
  obtain rfl : timer = timer' := Option.some.inj (htimer.symm.trans htimer')
  have hslotted := h.slotted _ e he
  have hnext : e.next + interval = slot interval e (e.ticks + 1) := by
    rw [hslotted.next, slot_succ]
  have hnoTimer := h.get?_timers_erase htimer
  -- the only new poll is that of this slot
  have hpollsOf (owner : ℕ) :
      (PollTimer.tick interval { s with timers := s.timers.erase e.timer } timer.owner e).pollsOf owner =
        s.pollsOf owner ++
          [⟨timer.owner, some e.ticks, s.now⟩].filter fun p => decide (p.owner = owner) := by
    rw [tick_eq hcancelled]
    exact List.filter_append _ _
  rw [tick_eq hcancelled] at hpollsOf ⊢
  refine ⟨fun id timer₁ htimer₁ => ?_, fun owner howner => ?_, fun id e₁ he₁ => ?_,
    fun id timer₁ htimer₁ => ?_, fun p hp => ?_, fun owner e₁ he₁ => ?_⟩
  · change ((s.timers.erase e.timer).set s.nextId _).get? id = _ at htimer₁
    rw [Dict.get?_set] at htimer₁
    split at htimer₁
    · next heq =>
      obtain rfl := Option.some.inj htimer₁
      exact ⟨hcurrent, _, Dict.get?_set_self _ _ _, heq.symm⟩
    · rw [hnoTimer id] at htimer₁
      exact absurd htimer₁ (by simp)
  · obtain rfl := Option.some.inj (hcurrent.symm.trans howner)
    refine ⟨_, _, Dict.get?_set_self _ _ _, hcancelled, Dict.get?_set_self _ _ _, rfl, ?_⟩
    show ⌊slot interval e (e.ticks + 1)⌋ ≤ s.now + ⌊max 0 (e.next + interval - s.now)⌋
    -- the delay is rounded down, and so is the time the new timer is due
    have hfloor := Int.floor_le_floor (le_max_right 0 (e.next + interval - s.now))
    rw [hnext, Int.floor_sub_intCast] at hfloor
    rw [hnext]
    omega
  · exact lt_of_get?_set h.effect_lt (Nat.le_succ _)
      ((h.effect_lt _ e he).trans (Nat.lt_succ_self _)) he₁
  · refine lt_of_get?_set (fun id timer htimer => ?_) (Nat.le_succ _) (Nat.lt_succ_self _) htimer₁
    rw [hnoTimer id] at htimer
    exact absurd htimer (by simp)
  · show p.owner < s.nextId + 1
    rcases List.mem_append.1 hp with hp | hp
    · exact (h.poll_lt p hp).trans (Nat.lt_succ_self _)
    · obtain rfl := List.mem_singleton.1 hp
      exact (h.effect_lt _ e he).trans (Nat.lt_succ_self _)
  · change (s.effects.set timer.owner _).get? owner = _ at he₁
    rw [Dict.get?_set] at he₁
    split at he₁
    · next heq =>
      obtain rfl := heq
      obtain rfl := Option.some.inj he₁
      have hpolls := hpollsOf timer.owner
      rw [List.filter_cons_of_pos (by simp), List.filter_nil] at hpolls
      -- the effect has polled one slot more
      refine ⟨hnext, ?_, fun p hp => ?_, fun p hp k hk => ?_⟩
      · rw [hpolls, List.map_append, hslotted.polls, List.range_succ, List.map_append,
          List.cons_append]
        rfl
      · rw [hpolls] at hp
        rcases List.mem_append.1 hp with hp | hp
        · exact hslotted.past p hp
        · obtain rfl := List.mem_singleton.1 hp
          exact le_rfl
      · rw [hpolls] at hp
        rcases List.mem_append.1 hp with hp | hp
        · exact hslotted.not_early p hp k hk
        · obtain rfl := List.mem_singleton.1 hp
          obtain rfl := Option.some.inj hk
          exact hslot.trans hdue
    · next hne =>
      -- the other effects have the polls they had
      refine (h.slotted owner e₁ he₁).mono ?_ le_rfl
      rw [hpollsOf owner]
      simp [Ne.symm hne]

lemma step_fire {id : ℕ} (hstep : step interval s (.fire id) = some s') :
    ∃ timer e, s.timers.get? id = some timer ∧ timer.due ≤ s.now ∧
      s.effects.get? timer.owner = some e ∧
      s' = tick interval { s with timers := s.timers.erase id } timer.owner e := by
  obtain ⟨timer, htimer, hfire⟩ := Option.bind_eq_some_iff.1 hstep
  split at hfire
  · next hdue =>
    obtain ⟨e, he, rfl⟩ := Option.map_eq_some_iff.1 hfire
    exact ⟨timer, e, htimer, hdue, he, rfl⟩
  · exact absurd hfire (by simp)

lemma Tidy.step {event : PollTimerEvent} (h : Tidy interval s)
    (hstep : step interval s event = some s') : Tidy interval s' := by
  cases event with
  | pass milliseconds =>
    obtain rfl := Option.some.inj hstep
    exact h.pass milliseconds
  | fire id =>
    obtain ⟨timer, e, htimer, hdue, he, rfl⟩ := step_fire hstep
    exact h.tick htimer hdue he
  | render token startDelay =>
    cases token with
    | none =>
      obtain rfl := Option.some.inj hstep
      exact h.cleanup.1
    | some token =>
      obtain rfl := Option.some.inj hstep
      exact h.cleanup.1.startEffect h.cleanup.2 token startDelay

lemma tidy_of_reachable (h : (system interval).Reachable s) : Tidy interval s :=
  h.invariant (fun _ ⟨now, hs⟩ => hs ▸ tidy_initial interval now)
    fun _ _ _ htidy hstep => htidy.step hstep

/-- An effect whose cleanup has run polls no more. -/
lemma Tidy.step_left {event : PollTimerEvent} {owner : ℕ} (h : Tidy interval s)
    (hleft : s.current ≠ some owner) (hlt : owner < s.nextId)
    (hstep : PollTimer.step interval s event = some s') :
    s'.current ≠ some owner ∧ owner < s'.nextId ∧ s'.pollsOf owner = s.pollsOf owner := by
  obtain ⟨-, hnextId, hpolls⟩ := @cleanup_rest s
  have hpollsOf : s.cleanup.pollsOf owner = s.pollsOf owner := by rw [pollsOf, hpolls, pollsOf]
  cases event with
  | pass milliseconds =>
    obtain rfl := Option.some.inj hstep
    exact ⟨hleft, hlt, rfl⟩
  | fire id =>
    obtain ⟨timer, e, htimer, -, he, rfl⟩ := step_fire hstep
    -- only the current effect has a timer, and it is another one
    have hcurrent := (h.timers id timer htimer).1
    have hne : timer.owner ≠ owner := fun heq => hleft (heq ▸ hcurrent)
    obtain ⟨e', -, he', hcancelled, -⟩ := h.current _ hcurrent
    rw [Option.some.inj (he'.symm.trans he)] at hcancelled
    rw [tick_eq hcancelled]
    refine ⟨hleft, Nat.lt_succ_of_lt hlt, (List.filter_append _ _).trans ?_⟩
    rw [List.filter_cons_of_neg (by simpa using hne), List.filter_nil, List.append_nil]
    rfl
  | render token startDelay =>
    cases token with
    | none =>
      obtain rfl := Option.some.inj hstep
      exact ⟨by rw [h.cleanup.2]; simp, hnextId.symm ▸ hlt, hpollsOf⟩
    | some token =>
      obtain rfl := Option.some.inj hstep
      -- the effect that is started gets a new number
      have hne : s.cleanup.nextId ≠ owner := by rw [hnextId]; exact hlt.ne'
      refine ⟨fun heq => hne (Option.some.inj heq), ?_, ?_⟩
      · show owner < s.cleanup.nextId + 1 + 1
        rw [hnextId]
        omega
      · refine (List.filter_append _ _).trans ?_
        rw [List.filter_cons_of_neg (by simpa using hne), List.filter_nil, List.append_nil]
        exact hpollsOf

/-- **One timer, and no slot skipped.**  However late the callbacks come: at most one timer is set, of
the effect whose cleanup has not run; an effect has polled once at its start and then once in each
slot so far, in order and never before the slot; and after its cleanup it polls no more. -/
theorem polls_keep_slots (hreach : (system interval).Reachable s) (hrun : (system interval).Run s s') :
    (∀ id timer, s.timers.get? id = some timer → s.current = some timer.owner ∧
      ∀ id' timer', s.timers.get? id' = some timer' → id' = id) ∧
    (∀ owner e, s.effects.get? owner = some e →
      (s.pollsOf owner).map TimedPoll.index = none :: (List.range e.ticks).map some ∧
      (∀ p ∈ s.pollsOf owner, ∀ k, p.index = some k → ⌊slot interval e k⌋ ≤ p.time) ∧
      (s.current ≠ some owner → s'.pollsOf owner = s.pollsOf owner)) := by
  have htidy := tidy_of_reachable hreach
  refine ⟨fun id timer htimer => ?_, fun owner e he => ?_⟩
  · exact ⟨(htidy.timers id timer htimer).1, fun id' timer' htimer' =>
      htidy.timer_unique htimer htimer'⟩
  · have hslotted := htidy.slotted owner e he
    refine ⟨hslotted.polls, hslotted.not_early, fun hleft => ?_⟩
    have hkept : Tidy interval s' ∧ s'.current ≠ some owner ∧ owner < s'.nextId ∧
        s'.pollsOf owner = s.pollsOf owner := by
      refine System.RunWhere.invariant (I := fun t => Tidy interval t ∧ t.current ≠ some owner ∧
        owner < t.nextId ∧ t.pollsOf owner = s.pollsOf owner) hrun
        ⟨htidy, hleft, htidy.effect_lt owner e he, rfl⟩ ?_
      rintro t event t' - ⟨ht, hleft, hlt, hpolls⟩ hstep
      obtain ⟨hleft', hlt', hpolls'⟩ := ht.step_left hleft hlt hstep
      exact ⟨ht.step hstep, hleft', hlt', hpolls'.trans hpolls⟩
    exact hkept.2.2.2

/-! ## Callbacks that are not late -/

/-- No callback comes more than `ε` after it is due, and the delays that are drawn are not negative. -/
def PromptStep (ε : ℕ) (s : PollTimer) : PollTimerEvent → Prop
  | .pass milliseconds => ∀ id ∈ s.timers.keys, ∀ timer ∈ s.timers.get? id,
      s.now + milliseconds ≤ timer.due + ε
  | .fire _ => True
  | .render _ startDelay => 0 ≤ startDelay

instance (ε : ℕ) (s : PollTimer) (event : PollTimerEvent) : Decidable (PromptStep ε s event) := by
  cases event <;> unfold PromptStep <;> infer_instance

/-- The timer of the current effect is due in its next slot, no poll came more than `ε` after its
slot, and no slot is further behind. -/
structure OnTime (interval : ℚ) (ε : ℕ) (s : PollTimer) : Prop where
  due : ∀ id timer e, s.timers.get? id = some timer → s.effects.get? timer.owner = some e →
    timer.due = ⌊slot interval e e.ticks⌋ ∧ s.now ≤ timer.due + ε
  polls : ∀ owner e, s.effects.get? owner = some e → ∀ p ∈ s.pollsOf owner, ∀ k,
    p.index = some k → p.time ≤ ⌊slot interval e k⌋ + ε

lemma onTime_initial (interval : ℚ) (ε : ℕ) (now : ℤ) : OnTime interval ε (initial now) :=
  ⟨by simp [initial], by simp [initial]⟩

variable {ε : ℕ}

/-- The slots of an effect are as far apart as the lateness that is allowed. -/
lemma floor_slot_add_le (hε : (ε : ℤ) ≤ ⌊interval⌋) (e : PollEffect) (k : ℕ) :
    ⌊slot interval e k⌋ + ε ≤ ⌊slot interval e (k + 1)⌋ := by
  rw [slot_succ]
  exact (add_le_add_right hε _).trans (Int.le_floor_add _ _)

lemma OnTime.cleanup (h : OnTime interval ε s) (htidy : Tidy interval s) :
    OnTime interval ε s.cleanup := by
  refine ⟨fun id timer e htimer => ?_, fun owner e he p hp k hk => ?_⟩
  · rw [htidy.cleanup.1.get?_timers_of_none htidy.cleanup.2 id] at htimer
    exact absurd htimer (by simp)
  · obtain ⟨e', he', hslot⟩ := @cleanup_effects interval s _ owner he
    rw [pollsOf, cleanup_rest.2.2] at hp
    rw [hslot]
    exact h.polls owner e' he' p hp k hk

lemma OnTime.startEffect (h : OnTime interval ε s) (htidy : Tidy interval s)
    (hcurrent : s.current = none) (token : String) {startDelay : ℚ} (hdelay : 0 ≤ startDelay) :
    OnTime interval ε (s.startEffect token startDelay) := by
  refine ⟨fun id timer e htimer he => ?_, fun owner e he p hp k hk => ?_⟩
  · change (s.timers.set (s.nextId + 1) _).get? id = _ at htimer
    change (s.effects.set s.nextId _).get? timer.owner = _ at he
    rw [Dict.get?_set] at htimer
    split at htimer
    · obtain rfl := Option.some.inj htimer
      obtain rfl := Option.some.inj ((Dict.get?_set_self _ _ _).symm.trans he)
      have hfloor := Int.floor_nonneg.2 hdelay
      show s.now + ⌊startDelay⌋ = ⌊slot interval _ 0⌋ ∧ s.now ≤ s.now + ⌊startDelay⌋ + ε
      rw [slot, Nat.cast_zero, zero_mul, add_zero, Int.floor_intCast_add]
      exact ⟨rfl, by omega⟩
    · rw [htidy.get?_timers_of_none hcurrent id] at htimer
      exact absurd htimer (by simp)
  · change (s.effects.set s.nextId _).get? owner = _ at he
    rw [pollsOf_startEffect] at hp
    rcases List.mem_append.1 hp with hp | hp
    · obtain ⟨hp', howner⟩ := List.mem_filter.1 hp
      obtain rfl := of_decide_eq_true howner
      rw [Dict.get?_set] at he
      split at he
      · next heq => exact absurd heq (htidy.poll_lt p hp').ne
      · exact h.polls _ e he p hp k hk
    · obtain rfl := List.mem_singleton.1 (List.mem_of_mem_filter hp)
      exact absurd hk (by simp)

/-- A callback that is not late sets the timer to the next slot. -/
lemma OnTime.tick (h : OnTime interval ε s) (htidy : Tidy interval s) (hε : (ε : ℤ) ≤ ⌊interval⌋)
    {id : ℕ} {timer : PendingTimer} (htimer : s.timers.get? id = some timer)
    (hdue : timer.due ≤ s.now) (he : s.effects.get? timer.owner = some e) :
    OnTime interval ε (tick interval { s with timers := s.timers.erase id } timer.owner e) := by
  obtain ⟨hslot, hnow⟩ := h.due id timer e htimer he
  obtain ⟨e', -, he', hcancelled, -⟩ := htidy.current _ (htidy.timers id timer htimer).1
  obtain rfl : e = e' := Option.some.inj (he.symm.trans he')
  have hnext : e.next + interval = slot interval e (e.ticks + 1) := by
    rw [(htidy.slotted _ e he).next, slot_succ]
  have hfloor := floor_slot_add_le hε e e.ticks
  have hdelay : s.now + ⌊max 0 (e.next + interval - s.now)⌋ = ⌊slot interval e (e.ticks + 1)⌋ := by
    have hle : (s.now : ℚ) ≤ slot interval e (e.ticks + 1) := Int.le_floor.1 (by omega)
    rw [hnext, max_eq_right (sub_nonneg.2 hle), Int.floor_sub_intCast]
    omega
  rw [tick_eq hcancelled]
  refine ⟨fun id' timer' e' htimer' he' => ?_, fun owner e' he' p hp k hk => ?_⟩
  · change ((s.timers.erase id).set s.nextId _).get? id' = _ at htimer'
    change (s.effects.set timer.owner _).get? timer'.owner = _ at he'
    rw [Dict.get?_set] at htimer'
    split at htimer'
    · obtain rfl := Option.some.inj htimer'
      obtain rfl := Option.some.inj ((Dict.get?_set_self _ _ _).symm.trans he')
      refine ⟨hdelay, ?_⟩
      show s.now ≤ s.now + ⌊max 0 (e.next + interval - s.now)⌋ + ε
      omega
    · rw [htidy.get?_timers_erase htimer id'] at htimer'
      exact absurd htimer' (by simp)
  · change (s.effects.set timer.owner _).get? owner = _ at he'
    have howner : p.owner = owner := of_decide_eq_true (List.mem_filter.1 hp).2
    -- the slots of an effect do not change
    have hkept : ∃ e₁, s.effects.get? owner = some e₁ ∧ slot interval e' = slot interval e₁ := by
      rw [Dict.get?_set] at he'
      split at he'
      · next heq => exact ⟨e, heq ▸ he, by rw [← Option.some.inj he']; rfl⟩
      · exact ⟨e', he', rfl⟩
    obtain ⟨e₁, he₁, hsame⟩ := hkept
    rw [hsame]
    rcases List.mem_append.1 (List.mem_filter.1 hp).1 with hp | hp
    · exact h.polls owner e₁ he₁ p (List.mem_filter.2 ⟨hp, decide_eq_true howner⟩) k hk
    · obtain rfl := List.mem_singleton.1 hp
      obtain rfl := Option.some.inj hk
      obtain rfl := howner
      obtain rfl : e = e₁ := Option.some.inj (he.symm.trans he₁)
      show s.now ≤ _
      omega

lemma OnTime.step {event : PollTimerEvent} (h : OnTime interval ε s) (htidy : Tidy interval s)
    (hε : (ε : ℤ) ≤ ⌊interval⌋) (hprompt : PromptStep ε s event)
    (hstep : PollTimer.step interval s event = some s') : OnTime interval ε s' := by
  cases event with
  | pass milliseconds =>
    obtain rfl := Option.some.inj hstep
    exact ⟨fun id timer e htimer he => ⟨(h.due id timer e htimer he).1,
      hprompt id (Dict.mem_keys_iff.2 ⟨timer, htimer⟩) timer htimer⟩, h.polls⟩
  | fire id =>
    obtain ⟨timer, e, htimer, hdue, he, rfl⟩ := step_fire hstep
    exact h.tick htidy hε htimer hdue he
  | render token startDelay =>
    cases token with
    | none =>
      obtain rfl := Option.some.inj hstep
      exact h.cleanup htidy
    | some token =>
      obtain rfl := Option.some.inj hstep
      exact (h.cleanup htidy).startEffect htidy.cleanup.1 htidy.cleanup.2 token hprompt

/-- **No drift.**  When every callback comes at most `ε` late, and `ε` is no more than the interval, the
polls stay within `ε` of their slots for ever, and a slot that is further back than that has had its
poll. -/
theorem no_drift (hε : (ε : ℤ) ≤ ⌊interval⌋)
    (hreach : (system interval).ReachableWhere (PromptStep ε) s) {owner : ℕ}
    (he : s.effects.get? owner = some e) :
    (∀ p ∈ s.pollsOf owner, ∀ k, p.index = some k →
      ⌊slot interval e k⌋ ≤ p.time ∧ p.time ≤ ⌊slot interval e k⌋ + ε) ∧
    (s.current = some owner → ∀ k, ⌊slot interval e k⌋ + ε < s.now →
      ∃ p ∈ s.pollsOf owner, p.index = some k) := by
  obtain ⟨htidy, honTime⟩ : Tidy interval s ∧ OnTime interval ε s :=
    hreach.invariant (I := fun s => Tidy interval s ∧ OnTime interval ε s)
      (fun _ ⟨now, hs⟩ => hs ▸ ⟨tidy_initial interval now, onTime_initial interval ε now⟩)
      fun _ _ _ hprompt h hstep => ⟨h.1.step hstep, h.2.step h.1 hε hprompt hstep⟩
  have hslotted := htidy.slotted owner e he
  refine ⟨fun p hp k hk => ⟨hslotted.not_early p hp k hk, honTime.polls owner e he p hp k hk⟩,
    fun hcurrent k hk => ?_⟩
  obtain ⟨e', timer, he', -, htimer, rfl, -⟩ := htidy.current owner hcurrent
  obtain rfl : e = e' := Option.some.inj (he.symm.trans he')
  obtain ⟨hdue, hnow⟩ := honTime.due _ timer e htimer he
  have hmono : Monotone fun k => ⌊slot interval e k⌋ := monotone_nat_of_le_succ fun k => by
    have := floor_slot_add_le hε e k
    omega
  have hlt : k < e.ticks := by
    by_contra hle
    have := hmono (not_lt.1 hle)
    simp only at this
    omega
  have hmem : some k ∈ (s.pollsOf timer.owner).map TimedPoll.index := by
    rw [hslotted.polls]
    exact List.mem_cons_of_mem _ (List.mem_map_of_mem (List.mem_range.2 hlt))
  exact List.mem_map.1 hmem

/-! ## A laptop that sleeps -/

/-- The page that a list of events leads to, with a poll every five seconds. -/
def after (events : List PollTimerEvent) : PollTimer :=
  ((system 5000).exec (initial 0) events).getD (initial 0)

/-- The laptop sleeps through the first two slots: when it wakes up, three callbacks come at once. -/
def slept : List PollTimerEvent :=
  [.render (some "token") 700, .pass 11000, .fire 1, .fire 2, .fire 3]

/-- The user logs out. -/
def loggedOut : List PollTimerEvent := [.render none 0, .pass 9000]

/-- Every slot that was slept through has its poll, and none comes after the logout. -/
theorem slept_polls :
    ((after slept).pollsOf 0).map TimedPoll.index = [none, some 0, some 1, some 2] ∧
      (after (slept ++ loggedOut ++ loggedOut)).pollsOf 0 = (after (slept ++ loggedOut)).pollsOf 0 := by
  have hbefore : (system 5000).exec (initial 0) slept = some (after slept) := by decide +kernel
  have hafter : (system 5000).exec (initial 0) (slept ++ loggedOut) =
      some (after (slept ++ loggedOut)) := by decide +kernel
  have hlater : (system 5000).exec (after (slept ++ loggedOut)) loggedOut =
      some (after (slept ++ loggedOut ++ loggedOut)) := by decide +kernel
  obtain ⟨-, hpolls⟩ := polls_keep_slots ⟨_, ⟨0, rfl⟩, System.run_of_exec hbefore⟩
    (System.RunWhere.refl (after slept))
  obtain ⟨-, hleft⟩ := polls_keep_slots ⟨_, ⟨0, rfl⟩, System.run_of_exec hafter⟩
    (System.run_of_exec hlater)
  exact ⟨(hpolls 0 ⟨"token", false, 15700, 4, 0, 700, 3⟩ (by decide +kernel)).1,
    (hleft 0 ⟨"token", true, 15700, 4, 0, 700, 3⟩ (by decide +kernel)).2.2 (by decide +kernel)⟩

/-- Callbacks that are up to two milliseconds late, of which the timer rounds one off. -/
def lateByTwo : List PollTimerEvent :=
  [.render (some "token") (1401 / 2), .pass 702, .fire 1, .pass 5000, .fire 2, .pass 5000, .fire 3]

/-- The third callback is still within two milliseconds of its slot. -/
theorem lateByTwo_polls :
    (system 5000).execWhere (PromptStep 2) (initial 0) lateByTwo = some (after lateByTwo) ∧
      ∀ p ∈ (after lateByTwo).pollsOf 0, p.index = some 2 → p.time ≤ 10702 := by
  have hexec : (system 5000).execWhere (PromptStep 2) (initial 0) lateByTwo =
      some (after lateByTwo) := by decide +kernel
  have hlast : (after lateByTwo).effects.get? 0 =
      some ⟨"token", false, 31401 / 2, 4, 0, 1401 / 2, 3⟩ := by decide +kernel
  refine ⟨hexec, fun p hp hk => ?_⟩
  have hpoll := (no_drift (by decide +kernel)
    ⟨_, ⟨0, rfl⟩, System.runWhere_of_execWhere hexec⟩ hlast).1 p hp 2 hk
  exact hpoll.2.trans (by decide +kernel)

end PollTimer

end TickerWatch
