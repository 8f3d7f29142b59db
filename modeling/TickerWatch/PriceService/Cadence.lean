import Mathlib.Algebra.Order.Floor.Ring
import Mathlib.Data.List.Chain
import Mathlib.Data.Rat.Floor
import Mathlib.Tactic.Linarith
import TickerWatch.PriceService.Lifetime

/-!
# The loop of the price service

`run_forever`: a tick, whatever becomes of it, and a sleep for what is left of the interval.  The
sleep is taken from the start of the tick, so ticks do not drift apart by the time they take, and it
is never negative, so a tick that takes longer than the interval is followed at once by the next.

A turn of the loop carries its times, in seconds of the monotonic clock.  A sleep does not end
early; how late it ends is up to the machine.
-/

namespace TickerWatch

universe u v

/-! ## Times that are spaced -/

section Spaced

variable {α : Type v} [AddCommMonoid α] [PartialOrder α] [IsOrderedAddMonoid α] {d : α}

/-- Each time is at least `d` after the one before. -/
def Spaced (d : α) (times : List α) : Prop := times.IsChain fun a b => a + d ≤ b

lemma Spaced.nsmul_le {a b : α} {times : List α} (h : Spaced d (a :: times))
    (hlast : (a :: times).getLast? = some b) : a + times.length • d ≤ b := by
  induction times generalizing a with
  | nil =>
    obtain rfl := Option.some.inj hlast
    simp
  | cons c times ih =>
    obtain ⟨hac, hrest⟩ := List.isChain_cons_cons.1 h
    rw [List.getLast?_cons_cons] at hlast
    calc a + (c :: times).length • d = a + d + times.length • d := by
          rw [List.length_cons, succ_nsmul', add_assoc]
      _ ≤ c + times.length • d := by gcongr
      _ ≤ b := ih hrest hlast

lemma Spaced.sublist {times times' : List α} (hd : 0 ≤ d) (h : Spaced d times)
    (hsub : times'.Sublist times) : Spaced d times' := by
  have htrans : IsTrans α fun a b => a + d ≤ b :=
    ⟨fun a b c hab hbc => hab.trans ((le_add_of_nonneg_right hd).trans hbc)⟩
  exact (h.pairwise.sublist hsub).isChain

end Spaced

/-! ## Turns of the loop -/

/-- One turn of `run_forever`: when it starts, what its tick is given, when the cache pipeline gets
to Redis, and when the tick ends and the heartbeat is touched. -/
structure Turn (P : Type u) where
  started : ℚ
  input : TickInput P
  reached : ℚ
  ended : ℚ

namespace Turn

variable {P : Type u}

/-- The times of a turn are in order. -/
structure Valid (x : Turn P) : Prop where
  read : x.started ≤ x.input.monotonic
  reached : x.input.monotonic ≤ x.reached
  ended : x.reached ≤ x.ended

/-- `elapsed`. -/
def elapsed (x : Turn P) : ℚ := x.ended - x.started

/-- `max(0.0, interval - elapsed)`. -/
def pause (interval : ℚ) (x : Turn P) : ℚ := max 0 (interval - x.elapsed)

/-- A turn that starts when the sleep of the other is over. -/
def Follows (interval : ℚ) (x y : Turn P) : Prop := x.ended + x.pause interval ≤ y.started

instance (interval : ℚ) (x y : Turn P) : Decidable (x.Follows interval y) :=
  inferInstanceAs (Decidable (x.ended + x.pause interval ≤ y.started))

/-- A turn that starts at most `slack` after that. -/
def FollowsWithin (interval slack : ℚ) (x y : Turn P) : Prop :=
  x.Follows interval y ∧ y.started ≤ x.ended + x.pause interval + slack

variable {interval slack limit : ℚ} {x y : Turn P}

/-- The sleep fills the interval from the start of the tick on. -/
lemma started_add_le (h : x.Follows interval y) : x.started + interval ≤ y.started := by
  have hpause : interval - x.elapsed ≤ x.pause interval := le_max_right _ _
  unfold Follows at h
  unfold elapsed at hpause
  linarith

/-- The next tick does not begin before the last has ended. -/
lemma ended_le (h : x.Follows interval y) : x.ended ≤ y.started := by
  have hpause : 0 ≤ x.pause interval := le_max_left _ _
  unfold Follows at h
  linarith

/-- A tick that stays below `limit` is followed before the longer of it and the interval is over,
but for the slack. -/
lemma started_le (h : x.FollowsWithin interval slack y) (hlimit : x.elapsed ≤ limit) :
    y.started ≤ x.started + max limit interval + slack := by
  have hpause : x.elapsed + x.pause interval ≤ max limit interval := by
    unfold pause
    rcases max_choice 0 (interval - x.elapsed) with hmax | hmax
    · rw [hmax, add_zero]
      exact hlimit.trans (le_max_left _ _)
    · rw [hmax, add_sub_cancel]
      exact le_max_right _ _
  have hlate := h.2
  unfold elapsed at hpause
  linarith

end Turn

section Loop

variable {P : Type u} {interval slack limit : ℚ} {turns : List (Turn P)}

/-- The turns of a loop. -/
structure Loop (interval : ℚ) (turns : List (Turn P)) : Prop where
  valid : ∀ x ∈ turns, x.Valid
  follows : turns.IsChain (Turn.Follows interval)

/-- The turns of a loop whose ticks stay below `limit`, on a machine that wakes up within
`slack`. -/
structure PromptLoop (interval slack limit : ℚ) (turns : List (Turn P)) : Prop where
  valid : ∀ x ∈ turns, x.Valid
  elapsed : ∀ x ∈ turns, x.elapsed ≤ limit
  follows : turns.IsChain (Turn.FollowsWithin interval slack)

lemma PromptLoop.loop (h : PromptLoop interval slack limit turns) : Loop interval turns :=
  ⟨h.valid, h.follows.imp fun _ _ hxy => hxy.1⟩

lemma Loop.spaced (h : Loop interval turns) : Spaced interval (turns.map Turn.started) :=
  (List.isChain_map _).2 (h.follows.imp fun _ _ => Turn.started_add_le)

/-- The healthcheck of the container: the heartbeat is younger than 30 seconds, with both times
read in whole seconds. -/
def Healthy (touched now : ℚ) : Prop := ⌊now⌋ - ⌊touched⌋ < 30

lemma healthy_of_le {touched now : ℚ} (h : now ≤ touched + 29) : Healthy touched now := by
  have hnow : (⌊now⌋ : ℚ) ≤ now := Int.floor_le now
  have htouched : touched < ⌊touched⌋ + 1 := Int.lt_floor_add_one touched
  have hlt : (⌊now⌋ : ℚ) < (⌊touched⌋ : ℚ) + 30 := by linarith
  have hint : ⌊now⌋ < ⌊touched⌋ + 30 := by exact_mod_cast hlt
  unfold Healthy
  omega

/-- Some time after a tick, and before the next is over, the heartbeat is young enough. -/
lemma healthy_between {x y : Turn P} (h : x.FollowsWithin interval slack y) (hx : x.Valid)
    (hlimit : y.elapsed ≤ limit) (hinterval : 0 ≤ interval) (hsum : interval + slack + limit ≤ 29)
    {now : ℚ} (hnow : now ≤ y.ended) (offset : ℚ) : Healthy (x.ended + offset) (now + offset) := by
  have helapsed : 0 ≤ x.elapsed := by
    have := hx.read.trans (hx.reached.trans hx.ended)
    unfold Turn.elapsed
    linarith
  have hpause : x.pause interval ≤ interval := max_le hinterval (by linarith)
  have hlate := h.2
  unfold Turn.elapsed at hlimit
  exact healthy_of_le (by linarith)

lemma Loop.pairwise (h : Loop interval turns) :
    turns.Pairwise fun x y => x.ended ≤ y.started := by
  have htrans : IsTrans (Turn P) fun x y => y.Valid ∧ x.ended ≤ y.started :=
    ⟨fun x y z hxy hyz => ⟨hyz.1, hxy.2.trans
      ((hxy.1.read.trans (hxy.1.reached.trans hxy.1.ended)).trans hyz.2)⟩⟩
  have hchain : turns.IsChain fun x y => y.Valid ∧ x.ended ≤ y.started :=
    h.follows.imp_of_mem_imp fun x y _ hy hxy => ⟨h.valid y hy, Turn.ended_le hxy⟩
  exact hchain.pairwise.imp fun hxy => hxy.2

/-- In a stretch of time there are no more ticks than intervals, and one. -/
lemma Loop.length_nsmul_le (h : Loop interval turns) (hinterval : 0 ≤ interval) {a b : ℚ}
    {part : List (Turn P)} (hsub : part.Sublist turns)
    (hin : ∀ x ∈ part, a ≤ x.started ∧ x.started ≤ b) (hab : a ≤ b) :
    part.length • interval ≤ b - a + interval := by
  cases part with
  | nil =>
    rw [List.length_nil, zero_nsmul]
    linarith
  | cons x rest =>
    have hspaced := h.spaced.sublist hinterval (hsub.map Turn.started)
    obtain ⟨y, hy⟩ : ∃ y, (x :: rest).getLast? = some y := ⟨_, List.getLast?_cons⟩
    have hlast : ((x :: rest).map Turn.started).getLast? = some y.started := by
      rw [List.getLast?_map, hy]
      rfl
    have hspan := Spaced.nsmul_le hspaced hlast
    have hstart := (hin x List.mem_cons_self).1
    have hend := (hin y (List.mem_of_getLast? hy)).2
    rw [List.length_map] at hspan
    rw [List.length_cons, succ_nsmul]
    linarith

/-- **The cadence of the loop.**  Ticks never overlap, and in a stretch of time there are no more of
them than intervals, and one, however long they take.  While they stay below a limit the next one
begins within the longer of it and the interval, and if everything fits into 29 seconds the
healthcheck passes at any time between two beats. -/
theorem PromptLoop.cadence (h : PromptLoop interval slack limit turns) (hinterval : 0 ≤ interval) :
    turns.Pairwise (fun x y => x.ended ≤ y.started) ∧
    (∀ (a b : ℚ) (part : List (Turn P)), part.Sublist turns → a ≤ b →
      (∀ x ∈ part, a ≤ x.started ∧ x.started ≤ b) → part.length • interval ≤ b - a + interval) ∧
    ∀ x y, [x, y] <:+: turns → y.started ≤ x.started + max limit interval + slack ∧
      (interval + slack + limit ≤ 29 → ∀ now offset, now ≤ y.ended →
        Healthy (x.ended + offset) (now + offset)) := by
  refine ⟨h.loop.pairwise, fun a b part hsub hab hin =>
    h.loop.length_nsmul_le hinterval hsub hin hab, fun x y hxy => ?_⟩
  have hx : x ∈ turns := hxy.subset List.mem_cons_self
  have hy : y ∈ turns := hxy.subset (List.mem_cons_of_mem _ List.mem_cons_self)
  have hadjacent := List.IsChain.infix h.follows hxy
  have hfollows : x.FollowsWithin interval slack y := List.isChain_pair.1 hadjacent
  exact ⟨Turn.started_le hfollows (h.elapsed x hx), fun hsum now offset hnow =>
    healthy_between hfollows (h.valid x hx) (h.elapsed y hy) hinterval hsum hnow offset⟩

/-- A turn in which a service of one ticker reads its first price. -/
def soloTurn : Turn ℕ where
  started := 20
  input := PriceService.soloTick PriceService.firstReading 1 .ok .ok (.replied fun _ => false)
  reached := 22
  ended := 23

/-- A turn after it, in which it reads another. -/
def nextSoloTurn : Turn ℕ where
  started := 30
  input := PriceService.soloTick PriceService.secondReading 2 .ok .ok (.replied fun _ => false)
  reached := 34
  ended := 36

lemma promptLoop_solo : PromptLoop 10 0 6 [soloTurn, nextSoloTurn] := by
  refine ⟨?_, ?_, List.isChain_pair.2 ?_⟩
  · rintro x (_ | ⟨_, _ | ⟨_, ⟨⟩⟩⟩)
    · exact ⟨by decide +kernel, by decide +kernel, by decide +kernel⟩
    · exact ⟨by decide +kernel, by decide +kernel, by decide +kernel⟩
  · rintro x (_ | ⟨_, _ | ⟨_, ⟨⟩⟩⟩) <;> decide +kernel
  · exact ⟨by decide +kernel, by decide +kernel⟩

/-- The heartbeat after the first turn is young enough when the second is about to end. -/
theorem solo_healthy : Healthy 23 35 := by
  obtain ⟨-, -, hnext⟩ := promptLoop_solo.cadence (by decide +kernel)
  have hbeat := (hnext soloTurn nextSoloTurn (List.infix_refl _)).2 (by norm_num) 35 0
    (by decide +kernel)
  rwa [add_zero, add_zero] at hbeat

end Loop

end TickerWatch
