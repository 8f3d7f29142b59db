import TickerWatch.Foundations.System
import TickerWatch.PriceService.Lifetime

/-!
# Restarts, crashes and expiry

The stores outlive the service.  A world is the stores, the service that is running on them, if
any, and the last reading of the wall clock; it moves by starts (completed or cut off), ticks, ticks
the process does not survive, clean stops, and the expiry of cache keys.

`WellFormed` is what holds in every world a run reaches, whatever fails: rows and cache entries
belong to listed securities, and nothing is stamped later than the clock.
-/

namespace TickerWatch

universe u

/-- The stores, the running service and the clock.  The stores outlive the service, which is `none`
between a stop or a crash and the next start; only a start reconciles them and warms the cache up.
-/
structure World (P : Type u) where
  stores : Stores P
  service : Option (PriceService P)
  clock : Instant

/-- What can happen: a start, which may be cut off between two of its writes, a tick, which may be
cut off by the death of the process, a stop, and the expiry of a key of the cache. -/
inductive WorldEvent (P : Type u)
  | start (settings : Settings) (read : PriceService.CatalogRead)
  | cutStart (settings : Settings) (read : PriceService.CatalogRead) (cut : PriceService.StartCut)
  | tick (i : TickInput P)
  | crashTick (i : TickInput P)
  | stop
  | expire (key : String)

variable {P : Type u} [DecidableEq P]

namespace World

/-- One event.  A start replaces the service that was running; a tick that the process does not
survive leaves what its three writes did. -/
def step (w : World P) : WorldEvent P → Option (World P)
  | .start settings read =>
    let out := PriceService.start settings w.stores read
    some { w with stores := out.1, service := out.2 }
  | .cutStart settings read cut =>
    some { w with stores := PriceService.cutStart settings w.stores read cut, service := none }
  | .tick i =>
    match w.service with
    | none => none
    | some svc =>
      let out := svc.tick w.stores i
      some { stores := out.stores, service := some out.service, clock := i.now }
  | .crashTick i =>
    match w.service with
    | none => none
    | some svc => some { stores := (svc.tick w.stores i).stores, service := none, clock := i.now }
  | .stop => some { w with service := none }
  | .expire key =>
    some { w with stores := { w.stores with redis := w.stores.redis.expire key } }

/-- A row belongs to a listed security, and so does a cache entry. -/
structure Listed (stores : Stores P) : Prop where
  row : ∀ id row, Dict.get? stores.latestPrices id = some row → ∃ t, stores.securities.Lists id t
  cached : ∀ t c, stores.redis.cached t = some c → ∃ id, stores.securities.Lists id t

/-- Nothing in the stores is stamped later than the clock. -/
structure StampedUpTo (stores : Stores P) (clock : Instant) : Prop where
  row : ∀ id row, Dict.get? stores.latestPrices id = some row → row.effectiveAt ≤ clock
  cached : ∀ t c, stores.redis.cached t = some c → ∃ since ≤ clock, c.effectiveAt = toIso since

/-- A running service knows listed tickers only, and no stamp later than the clock. -/
structure Running (stores : Stores P) (clock : Instant) (svc : PriceService P) : Prop where
  sound : svc.Sound
  lists : ∀ t id, svc.tickerToId.get? t = some id → stores.securities.Lists id t
  since : ∀ t since, svc.effectiveAt.get? t = some since → since ≤ clock

/-- What holds of every world a run reaches. -/
structure WellFormed (w : World P) : Prop where
  listed : Listed w.stores
  stamped : StampedUpTo w.stores w.clock
  running : ∀ svc, w.service = some svc → Running w.stores w.clock svc

/-- The assumptions on the environment: the clock strictly increases and the source returns only
tickers it was asked for. -/
def Honest (w : World P) : WorldEvent P → Prop
  | .tick i | .crashTick i => w.clock < i.now ∧ ∀ svc ∈ w.service, svc.Requested i
  | _ => True

instance (w : World P) (e : WorldEvent P) : Decidable (Honest w e) :=
  match e with
  | .tick i | .crashTick i =>
    inferInstanceAs (Decidable (w.clock < i.now ∧ ∀ svc ∈ w.service, svc.Requested i))
  | .start .. | .cutStart .. | .stop | .expire _ => inferInstanceAs (Decidable True)

/-- The weaker assumption that the clock does not go back. -/
def Steady (w : World P) : WorldEvent P → Prop
  | .tick i | .crashTick i => w.clock ≤ i.now ∧ ∀ svc ∈ w.service, svc.Requested i
  | _ => True

omit [DecidableEq P] in
lemma Honest.steady {w : World P} {e : WorldEvent P} (h : Honest w e) : Steady w e := by
  cases e with
  | tick i => exact ⟨h.1.le, h.2⟩
  | crashTick i => exact ⟨h.1.le, h.2⟩
  | start settings read => exact trivial
  | cutStart settings read cut => exact trivial
  | stop => exact trivial
  | expire key => exact trivial

/-- The system, from stores that no clock reading and no catalog contradicts. -/
def system : System (World P) (WorldEvent P) where
  init w := w.service = none ∧ Listed w.stores ∧ StampedUpTo w.stores w.clock
  step := step

variable {w w' : World P} {stores stores' : Stores P} {clock : Instant} {svc : PriceService P}
  {i : TickInput P} {id : SecurityId} {t : Ticker}

omit [DecidableEq P] in
lemma Running.view_upTo (h : Running stores clock svc) (hs : StampedUpTo stores clock)
    (id : SecurityId) (t : Ticker) : (svc.view stores id t).UpTo clock :=
  ⟨h.since t, hs.row id⟩

omit [DecidableEq P] in
/-- The id of a listed security names its ticker for a running service. -/
lemma Running.idNames (h : Running stores clock svc) (hl : stores.securities.Lists id t) :
    svc.IdNames id t := by
  intro t' id' hget
  have hl' := h.lists t' id' hget
  constructor
  · rintro rfl
    exact hl'.ticker_unique hl
  · rintro rfl
    exact hl'.id_unique hl

omit [DecidableEq P] in
/-- A ticker that is read is one the service asks for. -/
lemma mem_keys_of_reading (hs : svc.Sound) (hi : svc.Requested i) {p : P}
    (h : (svc.inputAt i t).reading = some p) : t ∈ svc.tickerToId.keys := by
  obtain ⟨prices, hread, hp⟩ := Option.bind_eq_some_iff.1 h
  exact PriceService.reading_requested hs hi hread t (Dict.mem_keys_iff.2 ⟨p, hp⟩)

/-! ## What a start leaves -/

/-- A start changes no row's price or stamp, adds no row, and takes every cache entry it writes from
a row.  It is what the invariants on stored prices need of `start`, whatever its reconciliation
wipes or adopts. -/
structure StartLeaves (stores stores' : Stores P) : Prop where
  lists : ∀ id t, stores.securities.Lists id t → stores'.securities.Lists id t
  row : ∀ id row, Dict.get? stores'.latestPrices id = some row → ∃ row',
    Dict.get? stores.latestPrices id = some row' ∧ row'.price = row.price ∧
      row'.effectiveAt = row.effectiveAt
  cached : ∀ t c, stores'.redis.cached t = some c → stores.redis.cached t = some c ∨
    ∃ id row, Dict.get? stores.latestPrices id = some row ∧ stores'.securities.Lists id t ∧
      c.price = row.price ∧ c.effectiveAt = toIso row.effectiveAt

omit [DecidableEq P] in
lemma cached_of_cachedAfterReconcile {settings : Settings} {c : CachedPrice P}
    (h : PriceService.cachedAfterReconcile settings stores t = some c) :
    stores.redis.cached t = some c := by
  unfold PriceService.cachedAfterReconcile at h
  split at h
  · exact absurd h (by simp)
  · exact h

omit [DecidableEq P] in
/-- Warming rows of the join, all or some, leaves an entry as it was or makes it one of a row. -/
lemma cached_warm_cases (svc : PriceService P) (r : Redis P) {tbl : LatestPrices P} {c : Catalog}
    {rows : List (TickerPrice P)} (hsub : rows.Sublist (tbl.allWithTickers c)) {e : CachedPrice P}
    (h : (svc.warm r rows).2.cached t = some e) :
    r.cached t = some e ∨ ∃ id row, Dict.get? tbl id = some row ∧ c.Lists id t ∧
      e = ⟨id, row.price, toIso row.effectiveAt, some row.source⟩ := by
  by_cases hex : ∃ row ∈ rows, row.ticker = t
  · obtain ⟨row, hrow, rfl⟩ := hex
    have hnodup := (LatestPrices.nodup_tickers tbl c).sublist (hsub.map TickerPrice.ticker)
    rw [(PriceService.warm_of_mem svc r hnodup hrow).2.2] at h
    rcases TickerState.offerCached_cases (r.cached row.ticker) (PriceService.warmPayload row)
      with ho | ho
    · rw [ho] at h
      obtain ⟨hget, hl⟩ := LatestPrices.mem_allWithTickers.1 (hsub.subset hrow)
      exact Or.inr ⟨row.securityId, row.row, hget, hl, (Option.some.inj h).symm⟩
    · rw [ho] at h
      exact Or.inl h
  · rw [(PriceService.warm_of_notMem svc r rows t fun row hrow heq => hex ⟨row, hrow, heq⟩).2.2] at h
    exact Or.inl h

omit [DecidableEq P] in
lemma lists_synced {settings : Settings} {read : PriceService.CatalogRead}
    (h : stores.securities.Lists id t) :
    (PriceService.synced settings stores read).Lists id t := h.upsertMany _

omit [DecidableEq P] in
/-- The rows of the join a start reads come from stored rows. -/
lemma startLeaves_warm (settings : Settings) (read : PriceService.CatalogRead)
    (svc : PriceService P) {rows : List (TickerPrice P)}
    (hsub : rows.Sublist ((PriceService.reconciled settings stores).allWithTickers
      (PriceService.synced settings stores read))) :
    StartLeaves stores ⟨PriceService.synced settings stores read,
      PriceService.reconciled settings stores,
      (svc.warm ((PriceService.new settings).reconcile stores).2.redis rows).2⟩ := by
  refine ⟨fun id t h => lists_synced h, ?_, ?_⟩
  · exact fun id row hrow => PriceService.exists_of_reconciled hrow
  · intro t e he
    rcases cached_warm_cases svc _ hsub he with h | ⟨id, row, hrow, hl, rfl⟩
    · rw [PriceService.cached_reconcile] at h
      exact Or.inl (cached_of_cachedAfterReconcile h)
    · obtain ⟨row', hrow', hprice, hstamp⟩ := PriceService.exists_of_reconciled hrow
      exact Or.inr ⟨id, row', hrow', hl, hprice.symm, by rw [hstamp]⟩

omit [DecidableEq P] in
lemma startLeaves_start (settings : Settings) (stores : Stores P)
    (read : PriceService.CatalogRead) :
    StartLeaves stores (PriceService.start settings stores read).1 := by
  cases hsvc : (PriceService.start settings stores read).2 with
  | some svc =>
    have hstart : PriceService.start settings stores read =
        ((PriceService.start settings stores read).1, some svc) := Prod.ext rfl hsvc
    obtain ⟨ids, stats, -, -, hstores⟩ := PriceService.start_eq_some hstart
    exact hstores ▸ startLeaves_warm settings read _ (List.Sublist.refl _)
  | none =>
    have hstores : (PriceService.start settings stores read).1 =
        ⟨PriceService.synced settings stores read, PriceService.reconciled settings stores,
          ((PriceService.new settings : PriceService P).warm
            ((PriceService.new settings).reconcile stores).2.redis []).2⟩ := by
      unfold PriceService.start PriceService.syncCatalog at hsvc ⊢
      dsimp only at hsvc ⊢
      split
      · rfl
      · rename_i hne
        rw [if_neg hne] at hsvc
        exact absurd hsvc (by simp)
    rw [hstores]
    exact startLeaves_warm settings read _ (List.nil_sublist _)

omit [DecidableEq P] in
lemma startLeaves_cutStart (settings : Settings) (stores : Stores P)
    (read : PriceService.CatalogRead) (cut : PriceService.StartCut) :
    StartLeaves stores (PriceService.cutStart settings stores read cut) := by
  cases cut with
  | warming n => exact startLeaves_warm settings read _ (List.take_sublist _ _)
  | flushing flushed =>
    refine ⟨fun id t h => h, ?_, ?_⟩
    · exact fun id row hrow => PriceService.exists_of_reconciled hrow
    · intro t c hc
      unfold PriceService.cutStart at hc
      dsimp only at hc
      split at hc
      · unfold Redis.cached at hc
        rw [Dict.get?_filter, Option.map_eq_some_iff] at hc
        obtain ⟨e, he, rfl⟩ := hc
        rw [Option.filter_eq_some_iff] at he
        exact Or.inl (by rw [Redis.cached, he.1, Option.map_some])
      · exact Or.inl hc

omit [DecidableEq P] in
lemma StartLeaves.listed (h : StartLeaves stores stores') (hl : Listed stores) :
    Listed stores' := by
  refine ⟨fun id row hrow => ?_, fun t c hc => ?_⟩
  · obtain ⟨row', hrow', -⟩ := h.row id row hrow
    obtain ⟨t, ht⟩ := hl.row id row' hrow'
    exact ⟨t, h.lists id t ht⟩
  · rcases h.cached t c hc with hold | ⟨id, row, -, ht, -⟩
    · obtain ⟨id, hid⟩ := hl.cached t c hold
      exact ⟨id, h.lists id t hid⟩
    · exact ⟨id, ht⟩

omit [DecidableEq P] in
lemma StartLeaves.stamped (h : StartLeaves stores stores') (hs : StampedUpTo stores clock) :
    StampedUpTo stores' clock := by
  refine ⟨fun id row hrow => ?_, fun t c hc => ?_⟩
  · obtain ⟨row', hrow', -, hstamp⟩ := h.row id row hrow
    exact hstamp ▸ hs.row id row' hrow'
  · rcases h.cached t c hc with hold | ⟨id, row, hrow, -, -, hstamp⟩
    · exact hs.cached t c hold
    · exact ⟨row.effectiveAt, hs.row id row hrow, hstamp⟩

omit [DecidableEq P] in
lemma running_start {settings : Settings} {read : PriceService.CatalogRead}
    (h : PriceService.start settings stores read = (stores', some svc))
    (hs : StampedUpTo stores clock) : Running stores' clock svc := by
  obtain ⟨-, hsound, -, -, hlists⟩ := PriceService.start_service h
  refine ⟨hsound, hlists, fun t since hsince => ?_⟩
  rcases PriceService.start_memory h t with ⟨-, hnone⟩ | ⟨id, row, hrow, -, -, hsome⟩
  · rw [hnone] at hsince
    exact absurd hsince (by simp)
  · obtain ⟨row', hrow', -, hstamp⟩ := PriceService.exists_of_reconciled hrow
    rw [hsome] at hsince
    rw [← Option.some.inj hsince, ← hstamp]
    exact hs.row id row' hrow'

/-! ## What a tick leaves -/

section

variable (hr : Running stores clock svc) (hs : StampedUpTo stores clock) (hclock : clock ≤ i.now)
  (hi : svc.Requested i)

include hr hs hclock hi

omit hs hclock in
/-- An entry after a tick was there before, or it is the price read under its stamp. -/
lemma cached_tick_cases {t : Ticker} {c : CachedPrice P}
    (hc : (svc.tick stores i).stores.redis.cached t = some c) :
    stores.redis.cached t = some c ∨ ∃ id p, (svc.inputAt i t).reading = some p ∧
      c = ⟨id, p, toIso ((svc.view stores id t).stamp i.now p), some svc.sourceName⟩ := by
  obtain ⟨id, hkey⟩ := hr.sound.exists_idNames t
  have hview := (PriceService.view_tick hr.sound stores hi hkey).1
  have hcached : ((svc.view stores id t).step id svc.sourceName (svc.inputAt i t)).cached =
      some c := by
    rw [← hview]
    exact hc
  exact (TickerState.step_cached_cases hcached).imp_right fun ⟨p, hp, heq⟩ => ⟨id, p, hp, heq⟩

lemma stamped_tick : StampedUpTo (svc.tick stores i).stores i.now := by
  have hupTo : ∀ id t, (svc.view stores id t).UpTo (svc.inputAt i t).now := fun id t =>
    (hr.view_upTo hs id t).mono hclock
  refine ⟨fun id row hrow => ?_, fun t c hc => ?_⟩
  · obtain ⟨t, hkey⟩ := hr.sound.exists_ticker id
    have hview := (PriceService.view_tick hr.sound stores hi hkey).1
    have hup := (hupTo id t).step id svc.sourceName
    rw [← hview] at hup
    exact hup.row row hrow
  · rcases cached_tick_cases hr hi hc with hold | ⟨id, p, -, rfl⟩
    · obtain ⟨since, hle, hstamp⟩ := hs.cached t c hold
      exact ⟨since, hle.trans hclock, hstamp⟩
    · exact ⟨_, TickerState.stamp_le (hupTo id t) p, rfl⟩

omit hs hclock in
lemma listed_tick (hl : Listed stores) : Listed (svc.tick stores i).stores := by
  obtain ⟨-, -, hsecurities, -⟩ := PriceService.tick_service hr.sound stores hi
  have hread : ∀ t p, (svc.inputAt i t).reading = some p → ∃ id,
      svc.tickerToId.get? t = some id ∧ stores.securities.Lists id t := by
    intro t p hp
    obtain ⟨id, hid⟩ := Dict.mem_keys_iff.1 (mem_keys_of_reading hr.sound hi hp)
    exact ⟨id, hid, hr.lists t id hid⟩
  refine ⟨fun id row hrow => ?_, fun t c hc => ?_⟩
  · obtain ⟨t, hkey⟩ := hr.sound.exists_ticker id
    have hview := (PriceService.view_tick hr.sound stores hi hkey).1
    have hrow' : ((svc.view stores id t).step id svc.sourceName (svc.inputAt i t)).row =
        some row := by
      rw [← hview]
      exact hrow
    rw [hsecurities]
    rcases TickerState.step_row_cases hrow' with hold | ⟨p, hp, -⟩
    · exact hl.row id row hold
    · obtain ⟨id', hid', hlists⟩ := hread t p hp
      exact ⟨t, (hkey t id' hid').2 rfl ▸ hlists⟩
  · rw [hsecurities]
    rcases cached_tick_cases hr hi hc with hold | ⟨id, p, hp, -⟩
    · exact hl.cached t c hold
    · obtain ⟨id', -, hlists⟩ := hread t p hp
      exact ⟨id', hlists⟩

lemma running_tick : Running (svc.tick stores i).stores i.now (svc.tick stores i).service := by
  obtain ⟨-, hids, hsecurities, hsound⟩ := PriceService.tick_service hr.sound stores hi
  refine ⟨hsound, ?_, fun t since hsince => ?_⟩
  · rw [hids, hsecurities]
    exact hr.lists
  · obtain ⟨id, hkey⟩ := hr.sound.exists_idNames t
    have hupTo : (svc.view stores id t).UpTo (svc.inputAt i t).now :=
      (hr.view_upTo hs id t).mono hclock
    have hup := hupTo.step id svc.sourceName
    rw [← (PriceService.view_tick hr.sound stores hi hkey).1] at hup
    exact hup.since since hsince

end

/-! ## The invariant -/

omit [DecidableEq P] in
lemma wellFormed_of_stopped (h : w.service = none) (hl : Listed w.stores)
    (hs : StampedUpTo w.stores w.clock) : w.WellFormed := by
  refine ⟨hl, hs, fun svc hsvc => ?_⟩
  rw [h] at hsvc
  exact absurd hsvc (by simp)

/-- **Every event keeps a world well formed**, whatever it fails at. -/
theorem WellFormed.step {e : WorldEvent P} (h : w.WellFormed) (he : Steady w e)
    (hstep : w.step e = some w') : w'.WellFormed := by
  cases e with
  | start settings read =>
    obtain rfl := Option.some.inj hstep
    have hleaves := startLeaves_start settings w.stores read
    refine ⟨hleaves.listed h.listed, hleaves.stamped h.stamped, fun svc hsvc => ?_⟩
    exact running_start (Prod.ext rfl hsvc) h.stamped
  -- a start that is cut off leaves stores, but no service
  | cutStart settings read cut =>
    obtain rfl := Option.some.inj hstep
    have hleaves := startLeaves_cutStart settings w.stores read cut
    exact wellFormed_of_stopped rfl (hleaves.listed h.listed) (hleaves.stamped h.stamped)
  | tick i =>
    cases hsvc : w.service with
    | none => simp [World.step, hsvc] at hstep
    | some svc =>
      simp only [World.step, hsvc] at hstep
      obtain rfl := Option.some.inj hstep
      have hr := h.running svc hsvc
      have hi := he.2 svc hsvc
      refine ⟨listed_tick hr hi h.listed, stamped_tick hr h.stamped he.1 hi, ?_⟩
      rintro svc' ⟨⟩
      exact running_tick hr h.stamped he.1 hi
  -- a crash takes the memory with it; the stores have what the writes made of them
  | crashTick i =>
    cases hsvc : w.service with
    | none => simp [World.step, hsvc] at hstep
    | some svc =>
      simp only [World.step, hsvc] at hstep
      obtain rfl := Option.some.inj hstep
      have hr := h.running svc hsvc
      have hi := he.2 svc hsvc
      exact wellFormed_of_stopped rfl (listed_tick hr hi h.listed)
        (stamped_tick hr h.stamped he.1 hi)
  | stop =>
    obtain rfl := Option.some.inj hstep
    exact wellFormed_of_stopped rfl h.listed h.stamped
  | expire key =>
    obtain rfl := Option.some.inj hstep
    refine ⟨⟨h.listed.row, fun t c hc => h.listed.cached t c (Redis.cached_of_expire hc)⟩,
      ⟨h.stamped.row, fun t c hc => h.stamped.cached t c (Redis.cached_of_expire hc)⟩, ?_⟩
    intro svc hsvc
    obtain ⟨hsound, hlists, hsince⟩ := h.running svc hsvc
    exact ⟨hsound, hlists, hsince⟩

/-- Every world a run reaches is well formed. -/
theorem wellFormed_of_reachable (h : system.ReachableWhere Honest w) : w.WellFormed :=
  h.invariant (fun _ hinit => wellFormed_of_stopped hinit.1 hinit.2.1 hinit.2.2)
    fun _ _ _ he hw hstep => hw.step he.steady hstep

end World
end TickerWatch
