import TickerWatch.PriceService.Lifetime

/-!
# The writer against its own guards

A tick stamps a changed price with the wall clock, and both stores look at the stamp: `latest_prices`
takes a later one only, the cache rejects an earlier one.  The service goes on as if they had taken
it.  A clock that repeats or steps back makes the service lose to what it has stored itself.

Per ticker, what counts are the clock readings of the ticks that change its price.  The service
always wins if and only if each is later than the one before, and than what the start left
(`always_wins_iff`).
-/

namespace TickerWatch

universe u

/-- What happens to the stores of a service at work: a tick, or a key that runs out. -/
inductive StoreEvent (P : Type u)
  | tick (i : TickInput P)
  | expire (key : String)

/-- What happens to one ticker. -/
inductive TickerEvent (P : Type u)
  | tick (x : TickerInput P)
  | expired

variable {P : Type u} [DecidableEq P]

/-! ## One ticker -/

namespace TickerState

/-- The ticker after an event. -/
def after (id : SecurityId) (source : String) (s : TickerState P) : TickerEvent P → TickerState P
  | .tick x => s.step id source x
  | .expired => { s with cached := none }

/-- If the event is a tick that changes the price, its stamp is later than what either store holds,
and both take the price. -/
def Wins (id : SecurityId) (source : String) (s : TickerState P) : TickerEvent P → Prop
  | .tick x => ∀ p, x.reading = some p → s.last ≠ some p →
    ∃ since, (s.step id source x).since = some since ∧
      (∀ row, s.row = some row → row.effectiveAt < since) ∧
      (∀ c, s.cached = some c → c.effectiveAt < toIso since) ∧
      (s.step id source x).row = some ⟨p, since, source⟩ ∧
      (s.step id source x).cached = some ⟨id, p, toIso since, some source⟩
  | .expired => True

/-- Every event of a run is won. -/
def WinsAll (id : SecurityId) (source : String) : TickerState P → List (TickerEvent P) → Prop
  | _, [] => True
  | s, e :: es => s.Wins id source e ∧ (s.after id source e).WinsAll id source es

end TickerState

/-- The writes of the event reach their stores. -/
def TickerEvent.Written : TickerEvent P → Prop
  | .tick x => x.cacheWritten = true ∧ x.rowWritten = true
  | .expired => True

/-- The price of a ticker last read, and the latest stamps it was given: by a tick that changed the
price, or by the start. -/
structure Marks (P : Type u) where
  last : Option P
  row : Option Instant
  cached : Option String

namespace Marks

/-- What a start leaves. -/
def ofStart (s : TickerState P) : Marks P :=
  ⟨s.last, s.row.map LatestPrice.effectiveAt, s.cached.map CachedPrice.effectiveAt⟩

/-- The marks after a tick: new ones if the price changed. -/
def read (m : Marks P) (x : TickerInput P) : Marks P :=
  match x.reading with
  | none => m
  | some p => if m.last = some p then m else ⟨some p, some x.now, some (toIso x.now)⟩

/-- The marks after an event. -/
def next (m : Marks P) : TickerEvent P → Marks P
  | .tick x => m.read x
  | .expired => { m with cached := none }

lemma read_of_none {m : Marks P} {x : TickerInput P} (h : x.reading = none) :
    m.read x = m := by
  unfold read
  rw [h]

lemma read_of_last {m : Marks P} {x : TickerInput P} {p : P} (h : x.reading = some p)
    (hlast : m.last = some p) : m.read x = m := by
  unfold read
  rw [h]
  exact if_pos hlast

lemma read_of_ne {m : Marks P} {x : TickerInput P} {p : P} (h : x.reading = some p)
    (hne : m.last ≠ some p) :
    m.read x = ⟨some p, some x.now, some (toIso x.now)⟩ := by
  unfold read
  rw [h]
  exact if_neg hne

/-- A tick that changes the price reads a clock later than the marks. -/
def Ahead (m : Marks P) : TickerEvent P → Prop
  | .tick x => ∀ p, x.reading = some p → m.last ≠ some p →
    (∀ since ∈ m.row, since < x.now) ∧ ∀ iso ∈ m.cached, iso < toIso x.now
  | .expired => True

/-- So do all of a run. -/
def AheadAll : Marks P → List (TickerEvent P) → Prop
  | _, [] => True
  | m, e :: es => m.Ahead e ∧ (m.next e).AheadAll es

instance (m : Marks P) (e : TickerEvent P) : Decidable (m.Ahead e) := by
  cases e <;> unfold Ahead <;> infer_instance

instance decidableAheadAll : (m : Marks P) → (es : List (TickerEvent P)) → Decidable (m.AheadAll es)
  | _, [] => .isTrue trivial
  | m, e :: es =>
    have := decidableAheadAll (m.next e) es
    inferInstanceAs (Decidable (m.Ahead e ∧ (m.next e).AheadAll es))

end Marks

namespace TickerState

/-- The marks of a ticker whose events were won so far: they determine what is remembered of it and
the stamps in both stores, so the next event is judged from the marks alone. -/
structure Marked (s : TickerState P) (m : Marks P) : Prop where
  last : s.last = m.last
  row : s.row.map LatestPrice.effectiveAt = m.row
  since : s.since = m.row
  stamped : ∀ p, m.last = some p → ∃ since, m.row = some since
  cached : ∀ iso, m.cached = some iso →
    (∃ c, s.cached = some c ∧ c.effectiveAt = iso) ∧ ∀ since, m.row = some since → toIso since ≤ iso
  uncached : m.cached = none → ∀ c, s.cached = some c →
    ∃ since, m.row = some since ∧ c.effectiveAt = toIso since

variable {s : TickerState P} {m : Marks P} {x : TickerInput P} {e : TickerEvent P}
  {id : SecurityId} {source : String} {es : List (TickerEvent P)}

omit [DecidableEq P] in
/-- The marks say what the stores hold. -/
lemma Marked.ahead_iff (h : s.Marked m) (now : Instant) :
    ((∀ since ∈ m.row, since < now) ∧ ∀ iso ∈ m.cached, iso < toIso now) ↔
      (∀ row, s.row = some row → row.effectiveAt < now) ∧
        ∀ c, s.cached = some c → c.effectiveAt < toIso now := by
  have hrow : (∀ since ∈ m.row, since < now) ↔
      ∀ row, s.row = some row → row.effectiveAt < now := by
    rw [← h.row]
    cases s.row with
    | none => simp
    | some row => simp
  rw [← hrow]
  refine and_congr_right fun hahead => ?_
  constructor
  · intro hcached c hc
    cases hm : m.cached with
    | none =>
      obtain ⟨since, hsince, heq⟩ := h.uncached hm c hc
      rw [heq]
      exact toIso_lt_iff.2 (hahead since hsince)
    | some iso =>
      obtain ⟨⟨c', hc', heq⟩, -⟩ := h.cached iso hm
      obtain rfl := Option.some.inj (hc.symm.trans hc')
      rw [heq]
      exact hcached iso hm
  · intro hcached iso hiso
    obtain ⟨⟨c, hc, heq⟩, -⟩ := h.cached iso hiso
    rw [← heq]
    exact hcached c hc

/-- A tick that changes the price is won exactly if its clock is ahead of the marks. -/
lemma Marked.wins_iff (h : s.Marked m) (hwritten : e.Written) :
    s.Wins id source e ↔ m.Ahead e := by
  cases e with
  | expired => exact Iff.rfl
  | tick x =>
    obtain ⟨hcacheWritten, hrowWritten⟩ := hwritten
    unfold Wins Marks.Ahead
    refine forall_congr' fun p => forall_congr' fun hread => ?_
    rw [h.last]
    refine forall_congr' fun hne => ?_
    rw [← h.last] at hne
    have hsince : (s.step id source x).since = some x.now := by
      rw [step_since hread, stamp_of_ne hne]
    rw [h.ahead_iff]
    constructor
    · rintro ⟨since, hsince', hrow, hcached, -⟩
      obtain rfl := Option.some.inj (hsince.symm.trans hsince')
      exact ⟨hrow, hcached⟩
    · rintro ⟨hrow, hcached⟩
      refine ⟨x.now, hsince, hrow, hcached, ?_, ?_⟩
      · rw [step_row_of_ne hread hne hrowWritten]
        exact offerRow_takes hrow
      · rw [step_cached hread hcacheWritten, stamp_of_ne hne]
        exact offerCached_takes fun c hc => (hcached c hc).le

omit [DecidableEq P] in
/-- An offer that is not later than what the cache holds leaves the stamp there. -/
lemma stamp_offerCached {stored : Option (CachedPrice P)} {new : CachedPrice P}
    (h : ∀ c, stored = some c → new.effectiveAt ≤ c.effectiveAt) :
    ∃ c, offerCached stored new = some c ∧
      c.effectiveAt = (stored.map CachedPrice.effectiveAt).getD new.effectiveAt := by
  cases stored with
  | none => exact ⟨new, offerCached_none new, rfl⟩
  | some cur =>
    rcases (h cur rfl).lt_or_eq with hlt | heq
    · exact ⟨cur, offerCached_of_lt hlt, rfl⟩
    · exact ⟨new, offerCached_of_le heq.ge, heq⟩

omit [DecidableEq P] in
/-- A quiet price is offered under the stamp it has, and the stamp in the cache stays. -/
lemma Marked.quiet {s' : TickerState P} {since : Instant} (h : s.Marked m)
    (hsince : m.row = some since) (hlast : s'.last = s.last) (hrow : s'.row = s.row)
    (hsince' : s'.since = some since) {new : CachedPrice P} (hnew : new.effectiveAt = toIso since)
    (hcached : s'.cached = offerCached s.cached new) : s'.Marked m := by
  -- the stamp that is offered is not later than that of the entry
  have hle : ∀ c, s.cached = some c → new.effectiveAt ≤ c.effectiveAt := by
    intro c hc
    rw [hnew]
    cases hm : m.cached with
    | none =>
      obtain ⟨since', hsome, heq⟩ := h.uncached hm c hc
      obtain rfl := Option.some.inj (hsince.symm.trans hsome)
      exact heq.ge
    | some iso =>
      obtain ⟨⟨c', hc', heq⟩, hle⟩ := h.cached iso hm
      obtain rfl := Option.some.inj (hc.symm.trans hc')
      rw [heq]
      exact hle since hsince
  obtain ⟨c, hoffer, hstamp⟩ := stamp_offerCached hle
  refine ⟨hlast.trans h.last, by rw [hrow, h.row], hsince'.trans hsince.symm, h.stamped, ?_, ?_⟩
  · intro iso hiso
    obtain ⟨⟨c', hc', heq⟩, hlater⟩ := h.cached iso hiso
    refine ⟨⟨c, hcached.trans hoffer, ?_⟩, hlater⟩
    rw [hstamp, hc', Option.map_some, Option.getD_some, heq]
  · intro hm c' hc'
    obtain rfl := Option.some.inj ((hcached.trans hoffer).symm.trans hc')
    refine ⟨since, hsince, hstamp.trans ?_⟩
    cases hs : s.cached with
    | none => exact hnew
    | some cur =>
      obtain ⟨since', hsome, heq⟩ := h.uncached hm cur hs
      obtain rfl := Option.some.inj (hsince.symm.trans hsome)
      exact heq

/-- An event that is won leaves the marks right. -/
lemma Marked.after (h : s.Marked m) (hwritten : e.Written) (hwins : s.Wins id source e) :
    (s.after id source e).Marked (m.next e) := by
  cases e with
  | expired =>
    refine ⟨h.last, h.row, h.since, h.stamped, fun iso hiso => ?_, fun _ c hc => ?_⟩
    · exact absurd hiso (by simp [Marks.next])
    · exact absurd hc (by simp [TickerState.after])
  | tick x =>
    show (s.step id source x).Marked (m.read x)
    cases hread : x.reading with
    | none =>
      rw [step_none hread, Marks.read_of_none hread]
      exact h
    | some p =>
      by_cases hlast : m.last = some p
      -- a repeated price is written again under the stamp it has
      · rw [Marks.read_of_last hread hlast]
        rw [← h.last] at hlast
        obtain ⟨since, hsince⟩ := h.stamped p (h.last.symm.trans hlast)
        have hstamp : s.stamp x.now p = since := by
          rw [stamp_of_last hlast, h.since, hsince, Option.getD_some]
        refine h.quiet hsince ((step_last hread).trans hlast.symm) (step_row_of_last hread hlast) ?_
          rfl ((step_cached hread hwritten.1).trans (by rw [hstamp]))
        rw [step_since hread, hstamp]
      -- a new price has won both guards, so row and entry carry its stamp
      · rw [Marks.read_of_ne hread hlast]
        rw [← h.last] at hlast
        obtain ⟨since, hsince, -, -, hrow, hcached⟩ := hwins p hread hlast
        obtain rfl : x.now = since := by
          rw [step_since hread, stamp_of_ne hlast] at hsince
          exact Option.some.inj hsince
        refine ⟨step_last hread, by rw [hrow]; rfl, hsince, fun _ _ => ⟨_, rfl⟩, ?_, ?_⟩
        · rintro iso hiso
          obtain rfl := Option.some.inj hiso
          refine ⟨⟨_, hcached, rfl⟩, fun since hsome => ?_⟩
          rw [Option.some.inj hsome]
        · exact fun hm => absurd hm (by simp)

/-- **A ticker wins throughout exactly if the clock is ahead throughout.** -/
theorem Marked.winsAll_iff (h : s.Marked m) (hwritten : ∀ e ∈ es, e.Written) :
    s.WinsAll id source es ↔ m.AheadAll es := by
  induction es generalizing s m with
  | nil => exact Iff.rfl
  | cons e es ih =>
    have hiff : s.Wins id source e ↔ m.Ahead e := h.wins_iff (hwritten e List.mem_cons_self)
    have hrest : ∀ e ∈ es, e.Written := fun e he => hwritten e (List.mem_cons_of_mem _ he)
    constructor
    · rintro ⟨hwins, hall⟩
      have hnext := h.after (hwritten e List.mem_cons_self) hwins
      exact ⟨hiff.1 hwins, (ih hnext hrest).1 hall⟩
    · rintro ⟨hahead, hall⟩
      have hwins := hiff.2 hahead
      have hnext := h.after (hwritten e List.mem_cons_self) hwins
      exact ⟨hwins, (ih hnext hrest).2 hall⟩

omit [DecidableEq P] in
lemma marked_started (id : SecurityId) (row : Option (LatestPrice P))
    (cached : Option (CachedPrice P)) :
    (started id row cached).Marked (.ofStart (started id row cached)) := by
  refine ⟨rfl, rfl, rfl, ?_, ?_, ?_⟩
  · intro p hp
    obtain ⟨r, hr, -⟩ := Option.map_eq_some_iff.1 hp
    exact ⟨r.effectiveAt, Option.map_eq_some_iff.2 ⟨r, hr, rfl⟩⟩
  · intro iso hiso
    obtain ⟨c, hc, rfl⟩ := Option.map_eq_some_iff.1 hiso
    refine ⟨⟨c, hc, rfl⟩, fun since hsince => ?_⟩
    obtain ⟨r, hr, rfl⟩ := Option.map_eq_some_iff.1 hsince
    obtain rfl : row = some r := hr
    obtain ⟨c', hc', hle⟩ :=
      le_offerCached cached ⟨id, r.price, toIso r.effectiveAt, some r.source⟩
    obtain rfl := Option.some.inj (hc.symm.trans hc')
    exact hle
  · intro hnone c hc
    have hnone' : (started id row cached).cached = none := Option.map_eq_none_iff.1 hnone
    exact absurd (hc.symm.trans hnone') (by simp)

end TickerState

namespace PriceService

variable {settings : Settings} {read : CatalogRead} {stores stores₀ : Stores P}
  {svc svc₀ : PriceService P} {i : TickInput P} {id : SecurityId} {t : Ticker}
  {es : List (StoreEvent P)}

/-! ## Runs of a service -/

/-- The service and its stores after an event. -/
def after (svc : PriceService P) (stores : Stores P) : StoreEvent P → PriceService P × Stores P
  | .tick i => ((svc.tick stores i).service, (svc.tick stores i).stores)
  | .expire key => (svc, { stores with redis := stores.redis.expire key })

/-- Every write of the tick reaches its store: every ticker it reads has an id, without which a
writer stops on a `KeyError`, and the pipeline and the statement are executed. -/
structure Reaches (svc : PriceService P) (i : TickInput P) : Prop where
  ids : ∀ prices, svc.reading i = some prices → ∀ t ∈ prices.keys, t ∈ svc.tickerToId.keys
  cache : ∀ t, i.cache.applies t = true
  postgres : i.postgres.applies = true

/-- Every write of a run reaches its store. -/
def ReachesAll (svc : PriceService P) (stores : Stores P) : List (StoreEvent P) → Prop
  | [] => True
  | e :: es => (∀ i, e = .tick i → svc.Reaches i) ∧
      (svc.after stores e).1.ReachesAll (svc.after stores e).2 es

/-- The tick detects that the price of a ticker changed, to `p`. -/
def Detects (svc : PriceService P) (i : TickInput P) (t : Ticker) (p : P) : Prop :=
  ∃ prices, svc.reading i = some prices ∧ (svc.changedPrices prices).get? t = some p

/-- For every ticker whose price the tick detects to have changed, the stamp it assigns is later
than what either store holds, and afterwards both hold the price under it. -/
def Wins (svc : PriceService P) (stores : Stores P) (i : TickInput P) : Prop :=
  ∀ t id p, svc.tickerToId.get? t = some id → svc.Detects i t p →
    ∃ since, (svc.tick stores i).service.effectiveAt.get? t = some since ∧
      (∀ row, Dict.get? stores.latestPrices id = some row → row.effectiveAt < since) ∧
      (∀ c, stores.redis.cached t = some c → c.effectiveAt < toIso since) ∧
      Dict.get? (svc.tick stores i).stores.latestPrices id = some ⟨p, since, svc.sourceName⟩ ∧
      (svc.tick stores i).stores.redis.cached t = some ⟨id, p, toIso since, some svc.sourceName⟩

/-- Every tick of a run is won. -/
def WinsAll (svc : PriceService P) (stores : Stores P) : List (StoreEvent P) → Prop
  | [] => True
  | e :: es => (∀ i, e = .tick i → svc.Wins stores i) ∧
      (svc.after stores e).1.WinsAll (svc.after stores e).2 es

/-- What a run brings for one ticker. -/
def eventsAt (svc : PriceService P) (stores : Stores P) (t : Ticker) :
    List (StoreEvent P) → List (TickerEvent P)
  | [] => []
  | .tick i :: es => .tick (svc.inputAt i t) ::
      (svc.tick stores i).service.eventsAt (svc.tick stores i).stores t es
  | .expire key :: es =>
    let rest := svc.eventsAt { stores with redis := stores.redis.expire key } t es
    if priceKey t = key then .expired :: rest else rest

/-- A change is detected for a ticker exactly if its reading is not what was last published. -/
lemma detects_iff (stores : Stores P) (id : SecurityId) {p : P} : svc.Detects i t p ↔
    (svc.inputAt i t).reading = some p ∧ (svc.view stores id t).last ≠ some p := by
  unfold Detects
  simp only [get?_changedPrices, Option.filter_eq_some_iff, decide_eq_true_eq]
  constructor
  · rintro ⟨prices, hread, hp, hlast⟩
    refine ⟨?_, hlast⟩
    rw [inputAt, hread]
    exact hp
  · rintro ⟨hp, hlast⟩
    obtain ⟨prices, hread, hp⟩ := Option.bind_eq_some_iff.1 hp
    exact ⟨prices, hread, hp, hlast⟩

/-- A tick is won exactly if every ticker wins. -/
lemma wins_iff (hs : svc.Sound) (hreach : svc.Reaches i) : svc.Wins stores i ↔
    ∀ t id, svc.tickerToId.get? t = some id →
      (svc.view stores id t).Wins id svc.sourceName (.tick (svc.inputAt i t)) := by
  have hview : ∀ t id, svc.tickerToId.get? t = some id →
      (svc.tick stores i).service.view (svc.tick stores i).stores id t =
        (svc.view stores id t).step id svc.sourceName (svc.inputAt i t) := fun t id hid =>
    (view_tick_of_ids hs stores hreach.ids (hs.idNames hid)).1
  constructor
  · intro h t id hid p hread hlast
    rw [← hview t id hid]
    exact h t id p hid ((detects_iff stores id).2 ⟨hread, hlast⟩)
  · intro h t id p hid hdetects
    obtain ⟨hread, hlast⟩ := (detects_iff stores id).1 hdetects
    have hwins := h t id hid p hread hlast
    rw [← hview t id hid] at hwins
    exact hwins

omit [DecidableEq P] in
lemma view_expire (svc : PriceService P) (stores : Stores P) (id : SecurityId) (t : Ticker)
    (key : String) : svc.view { stores with redis := stores.redis.expire key } id t =
      if priceKey t = key then { svc.view stores id t with cached := none }
      else svc.view stores id t := by
  unfold view
  rw [Redis.cached_expire]
  split <;> rfl

/-- A run is won exactly if every ticker wins throughout. -/
lemma winsAll_iff (hs : svc.Sound) (hreach : svc.ReachesAll stores es) : svc.WinsAll stores es ↔
    ∀ t id, svc.tickerToId.get? t = some id →
      (svc.view stores id t).WinsAll id svc.sourceName (svc.eventsAt stores t es) := by
  induction es generalizing svc stores with
  | nil => exact iff_of_true True.intro fun _ _ _ => True.intro
  | cons e es ih =>
    obtain ⟨hfirst, hrest⟩ := hreach
    cases e with
    | tick i =>
      have hreach := hfirst i rfl
      have hrest : (svc.tick stores i).service.ReachesAll (svc.tick stores i).stores es := hrest
      obtain ⟨hsettings, hids, -, hsound⟩ := tick_service_of_ids hs stores hreach.ids
      have hsource : (svc.tick stores i).service.sourceName = svc.sourceName := by
        rw [sourceName, hsettings, sourceName]
      -- the rest of the run, ticker by ticker, from what this tick leaves
      have hall : (svc.tick stores i).service.WinsAll (svc.tick stores i).stores es ↔
          ∀ t id, svc.tickerToId.get? t = some id →
            ((svc.view stores id t).step id svc.sourceName (svc.inputAt i t)).WinsAll id
              svc.sourceName ((svc.tick stores i).service.eventsAt (svc.tick stores i).stores t
                es) := by
        rw [ih hsound hrest, hids]
        refine forall_congr' fun t => forall_congr' fun id => forall_congr' fun hid => ?_
        rw [hsource, (view_tick_of_ids hs stores hreach.ids (hs.idNames hid)).1]
      constructor
      · rintro ⟨hwins, hwinsAll⟩ t id hid
        exact ⟨(wins_iff hs hreach).1 (hwins i rfl) t id hid, hall.1 hwinsAll t id hid⟩
      · intro h
        refine ⟨fun j hj => ?_, hall.2 fun t id hid => (h t id hid).2⟩
        obtain rfl : i = j := by simpa using hj
        exact (wins_iff hs hreach).2 fun t id hid => (h t id hid).1
    -- a key that runs out is an event of its own ticker only
    | expire key =>
      have hall := ih hs hrest
      constructor
      · rintro ⟨-, hwinsAll⟩ t id hid
        have hrest := hall.1 hwinsAll t id hid
        rw [after, view_expire] at hrest
        unfold eventsAt
        dsimp only at hrest ⊢
        split
        · rename_i hkey
          rw [if_pos hkey] at hrest
          exact ⟨True.intro, hrest⟩
        · rename_i hkey
          rw [if_neg hkey] at hrest
          exact hrest
      · intro h
        refine ⟨fun j hj => absurd hj (by simp), hall.2 fun t id hid => ?_⟩
        have hrest := h t id hid
        unfold eventsAt at hrest
        rw [after, view_expire]
        dsimp only at hrest ⊢
        split
        · rename_i hkey
          rw [if_pos hkey] at hrest
          exact hrest.2
        · rename_i hkey
          rw [if_neg hkey] at hrest
          exact hrest

lemma written_of_mem_eventsAt (hreach : svc.ReachesAll stores es) :
    ∀ e ∈ svc.eventsAt stores t es, e.Written := by
  induction es generalizing svc stores with
  | nil => exact fun e he => absurd he List.not_mem_nil
  | cons e es ih =>
    obtain ⟨hfirst, hrest⟩ := hreach
    cases e with
    | tick i =>
      intro e he
      rcases List.mem_cons.1 he with rfl | he
      · exact ⟨(hfirst i rfl).cache t, (hfirst i rfl).postgres⟩
      · exact ih hrest e he
    | expire key =>
      intro e he
      unfold eventsAt at he
      dsimp only at he
      split at he
      · rcases List.mem_cons.1 he with rfl | he
        · exact True.intro
        · exact ih hrest e he
      · exact ih hrest e he

/-- **The writer always wins exactly if its clock is always ahead.**  In every run after a start
whose writes all reach their stores: each tick that detects a changed price stamps it later than what
either store holds, and both take it, if and only if for each ticker every tick that reads another
price than the one before reads a clock later than the ticks that did so before, later than the row
the start loaded, and later than the entry it left in the cache as long as that is there. -/
theorem always_wins_iff (hstart : start settings stores read = (stores₀, some svc₀))
    (hreach : svc₀.ReachesAll stores₀ es) :
    svc₀.WinsAll stores₀ es ↔ ∀ t id, svc₀.tickerToId.get? t = some id →
      (Marks.ofStart (svc₀.view stores₀ id t)).AheadAll (svc₀.eventsAt stores₀ t es) := by
  have hservice := start_service hstart
  rw [winsAll_iff hservice.2.1 hreach]
  refine forall_congr' fun t => forall_congr' fun id => forall_congr' fun hid => ?_
  have hmarked : (svc₀.view stores₀ id t).Marked (.ofStart (svc₀.view stores₀ id t)) := by
    rw [view_start hstart (hservice.2.2.2.2 t id hid)]
    exact TickerState.marked_started _ _ _
  exact hmarked.winsAll_iff (written_of_mem_eventsAt hreach)

/-! ## A clock that repeats -/

/-- A tick whose writes reach their stores, by what its two clocks read. -/
def tickAt (monotonic : ℚ) (n : Fin 1000) (price : ℕ) : TickInput ℕ :=
  { soloTick n price .ok .ok (.replied fun _ => false) with monotonic := monotonic }

/-- Two prices, read at two readings of the wall clock. -/
def twoPrices (n m : Fin 1000) : List (StoreEvent ℕ) :=
  [.tick (tickAt 10 n 101), .tick (tickAt 20 m 102)]

/-- The service and its stores after the first of them. -/
def afterFirst : PriceService ℕ × Stores ℕ :=
  soloService.after soloStores (.tick (tickAt 10 firstReading 101))

lemma reaches_tickAt {svc : PriceService ℕ} {monotonic : ℚ} {n : Fin 1000} {price : ℕ}
    (hids : "AAPL" ∈ svc.tickerToId.keys)
    (hread : svc.reading (tickAt monotonic n price) = some (soloPrices price)) :
    svc.Reaches (tickAt monotonic n price) := by
  refine ⟨fun prices hprices t ht => ?_, fun _ => rfl, rfl⟩
  obtain rfl := Option.some.inj (hread.symm.trans hprices)
  obtain rfl : t = "AAPL" := by simpa [soloPrices, Dict.keys] using ht
  exact hids

lemma reachesAll_twoPrices {m : Fin 1000}
    (hread : afterFirst.1.reading (tickAt 20 m 102) = some (soloPrices 102)) :
    soloService.ReachesAll soloStores (twoPrices firstReading m) := by
  refine ⟨?_, ?_, True.intro⟩
  · rintro i hi
    obtain rfl : tickAt 10 firstReading 101 = i := by simpa using hi
    exact reaches_tickAt (by decide) (by decide +kernel)
  · rintro i hi
    obtain rfl : tickAt 20 m 102 = i := by simpa using hi
    exact reaches_tickAt (by decide +kernel) hread

/-- **A clock that repeats makes the writer lose.**  The price changes in two ticks that read the
same wall clock: the row stays at the first. -/
theorem repeated_reading_loses : ¬ ∀ (settings : Settings) (stores : Stores ℕ) (read : CatalogRead)
    (stores₀ : Stores ℕ) (svc₀ : PriceService ℕ) (es : List (StoreEvent ℕ)),
    start settings stores read = (stores₀, some svc₀) → svc₀.ReachesAll stores₀ es →
    svc₀.WinsAll stores₀ es := by
  intro h
  obtain ⟨-, hsecond, -⟩ := h _ _ _ _ _ (twoPrices firstReading firstReading) start_solo
    (reachesAll_twoPrices (by decide +kernel))
  obtain ⟨since, -, -, -, hrow, -⟩ := hsecond (tickAt 20 firstReading 102) rfl "AAPL" 1 102
    (by decide +kernel) ⟨soloPrices 102, by decide +kernel, by decide +kernel⟩
  have hfirst : (Dict.get? (afterFirst.1.tick afterFirst.2 (tickAt 20 firstReading
      102)).stores.latestPrices 1).map LatestPrice.price = some 101 := by decide +kernel
  have hprice := congrArg (Option.map LatestPrice.price) hrow
  exact absurd (hprice.symm.trans hfirst) (by simp)

/-- A clock that moves on wins. -/
theorem advancing_reading_wins :
    soloService.WinsAll soloStores (twoPrices firstReading secondReading) := by
  refine (always_wins_iff start_solo (reachesAll_twoPrices (by decide +kernel))).2 fun t id hid => ?_
  obtain ⟨rfl, rfl⟩ : t = "AAPL" ∧ id = 1 := by
    have hentries : soloService.tickerToId.entries = [("AAPL", 1)] := by decide +kernel
    simpa [hentries] using Dict.get?_eq_some_iff.1 hid
  decide +kernel

end PriceService
end TickerWatch
