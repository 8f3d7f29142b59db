import Mathlib.Tactic.IntervalCases
import TickerWatch.Client.ConnectGap

/-!
# A tick is three writes

`tick` of the price service awaits its cache write, its upsert and its publish together, so the
three reach their stores in any order, and a snapshot can be read in between.  `SplitWorld` is the
world of the push client with a server whose tick is three separate steps: an event can be on the
screen before the cache the next snapshot is read from has heard of it.

A resync replaces the applied state with the snapshot and applies only the buffer to it.  It takes a
displayed price back in time exactly if neither knows the stamp that is displayed
(`never_back`).
-/

namespace TickerWatch

universe u

/-- A write of a tick that is under way. -/
inductive ServerWrite (P : Type u)
  | cache (quotes : Dict Ticker (Quote P))
  | postgres (quotes : Dict Ticker (Quote P))
  | publish (now : Instant) (changed : Dict Ticker (Change P))

/-- The world of the push client over a cache and a table, whose writes and the publications of a
tick come in any order.  `push.prices` is what a snapshot reads of the two, so it can be behind what
was published. -/
structure SplitWorld (P : Type u) where
  push : PushWorld P
  /-- What the price service remembers. -/
  memory : Dict Ticker (Quote P)
  cache : Dict Ticker (Quote P)
  latestPrices : Dict Ticker (Quote P)
  /-- The writes of the last tick that are not done. -/
  due : List (ServerWrite P)

/-- What can happen: anything the push world does but its tick, a tick, one of its writes, or the
expiry of a cache key. -/
inductive SplitEvent (P : Type u)
  | push (e : PushEvent P)
  | tick (now : Instant) (unchanged : List Ticker) (changed : Dict Ticker (Change P))
  | write (n : ℕ)
  | expire (t : Ticker)

section

variable {P : Type u}

/-- The guard of the cache: only a strictly older quote is rejected. -/
def Quote.overCached (new : Quote P) : Option (Quote P) → Quote P
  | none => new
  | some stored => if new.effectiveAt < stored.effectiveAt then stored else new

/-- The guard of the table: only a strictly newer quote is taken. -/
def Quote.overRow (new : Quote P) : Option (Quote P) → Quote P
  | none => new
  | some stored => if stored.effectiveAt < new.effectiveAt then new else stored

namespace SplitWorld

/-- A snapshot reads the cache, and the table where the cache has nothing. -/
def reread (s : SplitWorld P) : SplitWorld P :=
  { s with push := { s.push with prices := s.latestPrices.update s.cache } }

/-- A write is done. -/
def land (s : SplitWorld P) : ServerWrite P → SplitWorld P
  | .cache quotes =>
    { s with
      cache := s.cache.update
        (quotes.mapValues fun t (q : Quote P) => q.overCached (s.cache.get? t)) }.reread
  | .postgres quotes =>
    { s with
      latestPrices := s.latestPrices.update
        (quotes.mapValues fun t (q : Quote P) => q.overRow (s.latestPrices.get? t)) }.reread
  | .publish now changed => { s with push := s.push.send now changed }

/-- The quotes of what a tick found changed. -/
def changedQuotes (now : Instant) (changed : Dict Ticker (Change P)) : Dict Ticker (Quote P) :=
  changed.mapValues fun _ c => c.quote now

/-- A tick up to its writes.  The cache write refreshes every price that was read. -/
def tick (s : SplitWorld P) (now : Instant) (unchanged : List Ticker)
    (changed : Dict Ticker (Change P)) : SplitWorld P :=
  let memory := s.memory.update (changedQuotes now changed)
  { s with
    push := { s.push with clock := now }
    memory := memory
    due := [.cache (memory.filter fun t _ => changed.contains t || unchanged.contains t),
      .postgres (changedQuotes now changed), .publish now changed] }

/-- One event.  The loop of the price service starts a tick once the one before has done its
writes. -/
def step (s : SplitWorld P) : SplitEvent P → Option (SplitWorld P)
  | .push (.tick ..) => none
  | .push e => (s.push.step e).map fun w => { s with push := w }
  | .tick now unchanged changed =>
    if s.due.isEmpty && decide (s.push.clock < now) then some (s.tick now unchanged changed)
    else none
  | .write n =>
    match s.due[n]? with
    | none => none
    | some write => some ({ s with due := s.due.eraseIdx n }.land write)
  | .expire t => some { s with cache := s.cache.erase t }.reread

/-- The system, from any prices, any membership and a page that is not connected. -/
def system : System (SplitWorld P) (SplitEvent P) where
  init s := PushWorld.system.init s.push ∧ s.push.prices = s.latestPrices.update s.cache ∧
    (∀ t q, s.memory.get? t = some q → q.effectiveAt ≤ s.push.clock) ∧ s.due = []
  step := step

lemma push_step {s s' : SplitWorld P} {e : PushEvent P} (h : s.step (.push e) = some s') :
    ∃ w, s.push.step e = some w ∧ { s with push := w } = s' := by
  cases e with
  | tick now changed => exact absurd h (by simp [step])
  | _ => exact Option.map_eq_some_iff.1 h

/-! ## Back in time -/

/-- No ticker that stays on the watchlist shows an older stamp, or none, after it showed one. -/
def NeverBack (before after : Dict Ticker (WatchlistItem P)) : Prop :=
  ∀ t cur next since, before.get? t = some cur → after.get? t = some next →
    cur.effectiveAt = some since → next.Shows since

/-- The snapshot a resync applies, or an event in the buffer, is as new as what is displayed. -/
def Forward (s : SplitWorld P) : SplitEvent P → Prop
  | .push (.respond request) => ∀ items whole,
      s.push.requests.get? request = some (.served items whole) → ∀ t cur it since,
        s.push.client.byTicker.get? t = some cur → cur.effectiveAt = some since →
        (PushClient.ofItems items).get? t = some it →
        it.Shows since ∨ ∃ ev ∈ s.push.client.buffer, ev.ticker = t ∧ since ≤ ev.effectiveAt
  | _ => True

variable {s s' : SplitWorld P} {e : SplitEvent P} {w w' : PushWorld P} {t : Ticker}
  {before : Dict Ticker (WatchlistItem P)} {evs : List (Publication P)} {since : String}
  {items : List (WatchlistItem P)}

lemma NeverBack.refl (d : Dict Ticker (WatchlistItem P)) : NeverBack d d := by
  intro t cur next since hcur hnext hsince
  obtain rfl := Option.some.inj (hcur.symm.trans hnext)
  exact ⟨since, hsince, le_rfl⟩

/-- What an item of the applied state shows after a stream of events. -/
lemma shows_applyEvents {d : Dict Ticker (WatchlistItem P)} {it : WatchlistItem P}
    (hit : d.get? t = some it) (evs : List (Publication P)) :
    ∃ next, (applyEvents d evs).get? t = some next ∧
      ∀ since, next.Shows since ↔ it.Shows since ∨ ∃ ev ∈ evs, ev.ticker = t ∧
        since ≤ ev.effectiveAt := by
  refine ⟨_, by rw [get?_applyEvents, hit, Option.map_some], fun since => ?_⟩
  rw [WatchlistItem.shows_foldl]
  simp only [List.mem_filter, decide_eq_true_eq, and_assoc]

/-- An item of the applied state was there before the events. -/
lemma shows_of_get?_applyEvents {d : Dict Ticker (WatchlistItem P)} {next : WatchlistItem P}
    {evs : List (Publication P)} (hnext : (applyEvents d evs).get? t = some next) :
    ∃ it, d.get? t = some it ∧ ∀ since, next.Shows since ↔ it.Shows since ∨
      ∃ ev ∈ evs, ev.ticker = t ∧ since ≤ ev.effectiveAt := by
  have hsome := hnext
  rw [get?_applyEvents] at hsome
  obtain ⟨it, hit, -⟩ := Option.map_eq_some_iff.1 hsome
  obtain ⟨next', hnext', hshows⟩ := shows_applyEvents hit evs
  obtain rfl := Option.some.inj (hnext.symm.trans hnext')
  exact ⟨it, hit, hshows⟩

lemma neverBack_applyEvents (d : Dict Ticker (WatchlistItem P)) (evs : List (Publication P)) :
    NeverBack d (applyEvents d evs) := by
  intro t cur next since hcur hnext hsince
  obtain ⟨next', hnext', hshows⟩ := shows_applyEvents hcur evs
  obtain rfl := Option.some.inj (hnext.symm.trans hnext')
  exact (hshows since).2 (Or.inl ⟨since, hsince, le_rfl⟩)

/-- Unless a response arrives, the client keeps its applied state or applies an event to it. -/
lemma byTicker_step {e : PushEvent P} (hstep : w.step e = some w')
    (he : ∀ request, e ≠ .respond request) :
    ∃ evs, w'.client.byTicker = applyEvents w.client.byTicker evs := by
  rw [(PushWorld.step_eq hstep).1]
  cases e with
  | respond request => exact absurd rfl (he request)
  | cleanup =>
    refine ⟨[], ?_⟩
    rw [PushWorld.clientAfter, PushClient.cleanup_eq]
    rfl
  | deliver =>
    rw [PushWorld.clientAfter]
    split
    · exact ⟨[], rfl⟩
    · rename_i ev wire _
      split
      · cases hbuf : w.client.buffering with
        | true =>
          -- it waits in the buffer
          rw [PushClient.onPublication_of_buffering hbuf]
          exact ⟨[], rfl⟩
        | false => exact ⟨[ev], PushClient.byTicker_onPublication hbuf⟩
      · exact ⟨[], rfl⟩
  -- no other event touches the applied state
  | mount => exact ⟨[], rfl⟩
  | connected => exact ⟨[], rfl⟩
  | disconnected => exact ⟨[], rfl⟩
  | established => exact ⟨[], rfl⟩
  | tick => exact ⟨[], rfl⟩
  | join => exact ⟨[], rfl⟩
  | leave => exact ⟨[], rfl⟩
  | refresh => exact ⟨[], rfl⟩
  | serve => exact ⟨[], rfl⟩
  | fail => exact ⟨[], rfl⟩

/-- A step takes no displayed price back exactly if it applies no older snapshot. -/
lemma neverBack_step_iff (hstep : s.step e = some s') :
    NeverBack s.push.client.byTicker s'.push.client.byTicker ↔ s.Forward e := by
  have hsame : s'.push.client.byTicker = s.push.client.byTicker →
      NeverBack s.push.client.byTicker s'.push.client.byTicker := fun heq => heq ▸ NeverBack.refl _
  cases e with
  | tick now unchanged changed =>
    have htick := Option.some.inj (Option.ite_none_right_eq_some.1 hstep).2
    exact iff_of_true (hsame (by rw [← htick]; rfl)) trivial
  | expire t =>
    exact iff_of_true (hsame (by rw [← Option.some.inj hstep]; rfl)) trivial
  | write n =>
    rw [step] at hstep
    split at hstep
    · exact absurd hstep (by simp)
    · rename_i write _
      refine iff_of_true (hsame ?_) trivial
      rw [← Option.some.inj hstep]
      cases write <;> rfl
  | push e =>
    obtain ⟨w, hw, rfl⟩ := push_step hstep
    -- only the response of a resync replaces what is shown
    by_cases hrespond : ∃ request, e = .respond request
    · obtain ⟨request, rfl⟩ := hrespond
      have hclient := (PushWorld.step_eq hw).1
      rw [PushWorld.step] at hw
      rw [PushWorld.clientAfter] at hclient
      split at hw
      · rename_i items whole hreq
        rw [hreq] at hclient
        -- it shows the snapshot, with the buffer applied to it
        have happlied : w.client.byTicker =
            applyEvents (PushClient.ofItems items) s.push.client.buffer := by
          rw [hclient]
          exact (PushClient.finishResync_spec s.push.client items).1
        dsimp only [Forward]
        rw [happlied]
        constructor
        · intro hback items' whole' hreq' t cur it since hcur hsince hit
          obtain ⟨rfl, -⟩ := WatchlistRequest.served.inj (Option.some.inj (hreq.symm.trans hreq'))
          obtain ⟨next, hnext, hshows⟩ := shows_applyEvents hit s.push.client.buffer
          exact (hshows since).1 (hback t cur next since hcur hnext hsince)
        · intro hforward t cur next since hcur hnext hsince
          obtain ⟨it, hit, hshows⟩ := shows_of_get?_applyEvents hnext
          exact (hshows since).2 (hforward items whole hreq t cur it since hcur hsince hit)
      · exact absurd hw (by simp)
    -- everything else applies events, which never go back
    · obtain ⟨evs, hevs⟩ := byTicker_step hw fun request heq => hrespond ⟨request, heq⟩
      refine iff_of_true ?_ ?_
      · dsimp only
        rw [hevs]
        exact neverBack_applyEvents _ _
      · cases e with
        | respond request => exact absurd ⟨request, rfl⟩ hrespond
        | _ => trivial

/-- A run over which `t` stays on the watchlist and that applies no older snapshot. -/
def KeepsForward (t : Ticker) (s : SplitWorld P) (e : SplitEvent P) : Prop :=
  s.Forward e ∧ s.push.client.byTicker.contains t = true

/-- What a ticker shows it goes on showing, or something newer. -/
lemma shows_of_run {cur next : WatchlistItem P} (h : system.RunWhere (KeepsForward t) s s')
    (hcur : s.push.client.byTicker.get? t = some cur) (hsince : cur.Shows since)
    (hnext : s'.push.client.byTicker.get? t = some next) : next.Shows since := by
  have hrun : ∀ next, s'.push.client.byTicker.get? t = some next → next.Shows since := by
    refine h.invariant (I := fun r => ∀ next, r.push.client.byTicker.get? t = some next →
      next.Shows since) ?_ ?_
    · intro next hnext
      obtain rfl := Option.some.inj (hcur.symm.trans hnext)
      exact hsince
    · intro r e r' hok hr hstep next hnext
      obtain ⟨mid, hmid⟩ := Dict.mem_keys_iff.1 (Dict.contains_iff.1 hok.2)
      obtain ⟨stamp, hstamp, hle⟩ := hr mid hmid
      obtain ⟨stamp', hstamp', hle'⟩ :=
        (neverBack_step_iff hstep).2 hok.1 t mid next stamp hmid hnext hstamp
      exact ⟨stamp', hstamp', hle.trans hle'⟩
  exact hrun next hnext

/-- **A displayed price goes back exactly when an older snapshot is applied.**  In whatever state the
three writes of each tick, overlapping resyncs and reconnects have led to, a step leaves every
ticker that stays on the watchlist with a stamp no older than it showed, if and only if it is not
the response to a resync whose snapshot and buffer are both older than what is displayed; and over
a run without such a response no ticker that stays on the watchlist goes back. -/
theorem never_back (s : SplitWorld P) :
    (∀ e s', s.step e = some s' →
      (NeverBack s.push.client.byTicker s'.push.client.byTicker ↔ s.Forward e)) ∧
    ∀ t s' cur next since, system.RunWhere (KeepsForward t) s s' →
      s.push.client.byTicker.get? t = some cur → s'.push.client.byTicker.get? t = some next →
      cur.effectiveAt = some since → next.Shows since :=
  ⟨fun _ _ hstep => neverBack_step_iff hstep, fun _ _ _ _ since hrun hcur hnext hsince =>
    shows_of_run hrun hcur ⟨since, hsince, le_rfl⟩ hnext⟩

/-! ## The writes in any order -/

/-- What a snapshot reads once the cache write and the upsert of a tick are done. -/
lemma get?_landed (hcache : ∀ t q, s.cache.get? t = some q → q.effectiveAt ≤ s.push.clock)
    {now : Instant} (hnow : s.push.clock < now) (changed : Dict Ticker (Change P)) (t : Ticker) :
    ((s.latestPrices.update ((changedQuotes now changed).mapValues fun t (q : Quote P) =>
        q.overRow (s.latestPrices.get? t))).update
      (s.cache.update (((s.memory.update (changedQuotes now changed)).filter fun t _ =>
        changed.contains t || ([] : List Ticker).contains t).mapValues fun t (q : Quote P) =>
          q.overCached (s.cache.get? t)))).get? t =
      ((changed.get? t).map fun c => c.quote now).or ((s.latestPrices.update s.cache).get? t) := by
  simp only [Dict.get?_update, Dict.get?_mapValues, Dict.get?_filter, changedQuotes]
  cases hc : changed.get? t with
  | none =>
    have hnot : changed.contains t = false := Dict.contains_eq_false_iff.2 hc
    simp [hnot]
  | some c =>
    have hin : changed.contains t = true := by rw [Dict.contains, hc, Option.isSome_some]
    have hquote : (c.quote now).overCached (s.cache.get? t) = c.quote now := by
      cases hcur : s.cache.get? t with
      | none => rfl
      | some q => exact if_neg (not_lt.2 ((hcache t q hcur).trans hnow.le))
    simp [hin, hquote, Option.filter]

/-- **Three writes make a tick.**  When nothing happens between them, the three writes of a tick, in
whichever order, leave what a tick of the push world leaves. -/
theorem push_tick_of_writes (hprices : s.push.prices = s.latestPrices.update s.cache)
    (hcache : ∀ t q, s.cache.get? t = some q → q.effectiveAt ≤ s.push.clock)
    (hdue : s.due = []) {now : Instant} (hnow : s.push.clock < now)
    (changed : Dict Ticker (Change P)) {first second : ℕ} (hfirst : first < 3)
    (hsecond : second < 2) :
    ∃ s', [.tick now [] changed, .write first, .write second, .write 0].foldlM step s = some s' ∧
      s'.due = [] ∧ s'.push.wire = (s.push.tick now changed).wire ∧
      s'.push.requests = (s.push.tick now changed).requests ∧
      s'.push.client = (s.push.tick now changed).client ∧
      ∀ t, s'.push.prices.get? t = (s.push.tick now changed).prices.get? t := by
  have htick : s.step (.tick now [] changed) = some (s.tick now [] changed) := by
    rw [step, if_pos (by simp [hdue, hnow])]
  have hread := get?_landed hcache hnow changed
  have hget : ∀ t, (s.push.tick now changed).prices.get? t =
      ((changed.get? t).map fun c => c.quote now).or ((s.latestPrices.update s.cache).get? t) :=
    fun t => by rw [PushWorld.get?_prices_tick, hprices]
  simp only [hget]
  rw [List.foldlM_cons, htick]
  interval_cases first <;> interval_cases second <;>
    exact ⟨_, rfl, rfl, rfl, rfl, rfl, hread⟩

/-! ## A snapshot that is behind -/

/-- A server without prices, a user who watches AAPL, and a page that has not connected. -/
def unconnected : SplitWorld ℕ := ⟨PushWorld.unconnected, .empty, .empty, .empty, []⟩

/-- The clock at the first tick. -/
def early : Instant := ⟨1000000, by decide⟩

/-- The clock at the second tick. -/
def late : Instant := ⟨2000000, by decide⟩

/-- A tick that finds one price. -/
def priceTick (now : Instant) (price : ℕ) : SplitEvent ℕ :=
  .tick now [] (Dict.ofList [("AAPL", ⟨1, price, "simulated"⟩)])

/-- The page shows the first price, and then the second one, which only its event has brought. -/
def eventFirst : List (SplitEvent ℕ) :=
  [priceTick early 101, .write 0, .write 0, .write 0, .push .mount, .push .connected,
    .push (.serve 0), .push (.respond 0), .push (.established "AAPL"), priceTick late 102, .write 2,
    .push .deliver, .push .refresh, .push (.serve 1)]

/-- **A displayed price goes back.**  The second price is published before it is written to the cache,
and a resync reads the cache in between. -/
theorem older_snapshot_applied : ∃ (s s' : SplitWorld ℕ) (cur next : WatchlistItem ℕ),
    system.Reachable s ∧ s.step (.push (.respond 1)) = some s' ∧
    s.push.client.byTicker.get? "AAPL" = some cur ∧ cur.price = some 102 ∧
    s'.push.client.byTicker.get? "AAPL" = some next ∧ next.price = some 101 ∧
    ¬ NeverBack s.push.client.byTicker s'.push.client.byTicker := by
  have hrun : ((system.execWhere (fun _ _ => True) unconnected eventFirst).bind fun s =>
      (s.step (.push (.respond 1))).bind fun s' => (s.push.client.byTicker.get? "AAPL").bind
        fun cur => (s'.push.client.byTicker.get? "AAPL").map fun next =>
          (cur.price, next.price, cur.effectiveAt, next.effectiveAt)) =
      some (some 102, some 101, some (toIso late), some (toIso early)) := by
    decide +kernel
  obtain ⟨s, hs, hrun⟩ := Option.bind_eq_some_iff.1 hrun
  obtain ⟨s', hs', hrun⟩ := Option.bind_eq_some_iff.1 hrun
  obtain ⟨cur, hcur, hrun⟩ := Option.bind_eq_some_iff.1 hrun
  obtain ⟨next, hnext, hrun⟩ := Option.map_eq_some_iff.1 hrun
  simp only [Prod.mk.injEq] at hrun
  obtain ⟨hold, hnew, hsince, hsince'⟩ := hrun
  have hinit : system.init unconnected :=
    ⟨PushWorld.init_unconnected, rfl, fun t q hq => absurd hq (by simp [unconnected]), rfl⟩
  refine ⟨s, s', cur, next, ⟨unconnected, hinit, System.runWhere_of_execWhere hs⟩, hs', hcur, hold,
    hnext, hnew, fun hback => ?_⟩
  obtain ⟨stamp, hstamp, hle⟩ := hback "AAPL" cur next _ hcur hnext hsince
  obtain rfl := Option.some.inj (hsince'.symm.trans hstamp)
  exact absurd (toIso_le_iff.1 hle) (by decide)

end SplitWorld
end

end TickerWatch
