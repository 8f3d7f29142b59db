import TickerWatch.PriceService.Versions

/-!
# The fast path and the slow path

A snapshot is read through the cache or straight from the table.  The module asks when the two agree,
in runs from empty stores in which every start completes and every write reaches its store.

The invariant is that row, memory and cache entry of a ticker tell one story (`Coherent`).  An
exception that leaves a tick breaks only the last sentence of it: the row, the entry and the
remembered stamp have moved to the new price, and `_last_published` has not.  The ticker is then
astray.  The stores still agree, and they keep doing so until the source returns to the price last
published: the tick takes it for unchanged and rewrites the entry, but not the row, under the stamp of
the other price.  So the two paths agree in every state of a run exactly if no tick of it does that
(`fast_path_eq_slow_path_iff`), and always if no exception leaves a tick
(`fast_path_eq_slow_path`).
-/

namespace TickerWatch

universe u

variable {P : Type u} [DecidableEq P]

namespace TickerState

/-- The row, the memory and the cache entry of a ticker tell the same story.  When the ticker is
`astray` the service remembers the stamp of the row, but not its price as published. -/
structure Coherent (source : String) (astray : Bool) (s : TickerState P) : Prop where
  last : s.last = s.row.map LatestPrice.price ↔ astray = false
  since : s.since = s.row.map LatestPrice.effectiveAt
  source : ∀ row, s.row = some row → row.source = source
  cached : ∀ c, s.cached = some c → ∃ row, s.row = some row ∧ c.stored = row.stored

variable {s : TickerState P} {x : TickerInput P} {source : String} {astray : Bool} {p : P}

omit [DecidableEq P] in
lemma Coherent.takes {since : Instant} {id : SecurityId} {label : Option String}
    (h : s.Coherent source astray) (hle : ∀ row, s.row = some row → row.effectiveAt ≤ since) :
    offerCached s.cached ⟨id, p, toIso since, label⟩ = some ⟨id, p, toIso since, label⟩ := by
  refine offerCached_takes fun c hc => ?_
  obtain ⟨row, hrow, hstored⟩ := h.cached c hc
  have heq : c.effectiveAt = toIso row.effectiveAt := congrArg StoredPrice.effectiveAt hstored
  rw [heq]
  exact toIso_le_iff.2 (hle row hrow)

/-- A price that is the one last published is written to the cache under the stamp the service
remembers, and the row stays. -/
lemma Coherent.step_of_last (h : s.Coherent source astray) (hx : x.reading = some p)
    (hlast : s.last = some p) (hcache : x.cacheWritten = true) (id : SecurityId) :
    (s.step id source x).row = s.row ∧ (s.step id source x).cached =
      some ⟨id, p, toIso (s.stamp x.now p), some source⟩ := by
  refine ⟨step_row_of_last hx hlast, (step_cached hx hcache).trans (h.takes fun row hrow => ?_)⟩
  have hsince : s.since = some row.effectiveAt := by rw [h.since, hrow, Option.map_some]
  rw [stamp_of_last hlast, hsince, Option.getD_some]

/-- A tick all of whose writes go through keeps a ticker coherent, unless the ticker is astray and
read at its old price.  When it raises it leaves the published price as it was, and the ticker goes
astray if the price was new. -/
lemma Coherent.step (h : s.Coherent source astray) (hbefore : s.Before x.now)
    (hcache : x.cacheWritten = true) (hrow : x.rowWritten = true) (raised : Bool)
    (hunspoilt : ∀ p, x.reading = some p → s.last = some p → astray = false) (id : SecurityId) :
    ({ s.step id source x with
      last := if raised then s.last else (s.step id source x).last } : TickerState P).Coherent source
        (match x.reading with
          | none => astray
          | some p => if s.last = some p then astray else raised) := by
  cases hx : x.reading with
  | none =>
    rw [step_none hx, ite_self]
    exact h
  | some p =>
    dsimp only
    by_cases hlast : s.last = some p
    · -- the price did not move: the entry is rewritten under the row's own stamp
      rw [if_pos hlast]
      have hstraight := hunspoilt p hx hlast
      obtain ⟨row, hr, hprice⟩ := Option.map_eq_some_iff.1 (h.last.2 hstraight ▸ hlast)
      have hsince : s.since = some row.effectiveAt := by rw [h.since, hr, Option.map_some]
      have hstamp : s.stamp x.now p = row.effectiveAt := by
        rw [stamp_of_last hlast, hsince, Option.getD_some]
      obtain ⟨hrow', hcached⟩ := h.step_of_last hx hlast hcache id
      rw [hstamp] at hcached
      refine ⟨?_, ?_, ?_, ?_⟩
      · dsimp only
        rw [step_last hx, hlast, ite_self, hrow', hr, Option.map_some, hprice]
        exact iff_of_true rfl hstraight
      · rw [step_since hx, hrow', hr, Option.map_some, hstamp]
      · intro r hr'
        rw [hrow'] at hr'
        exact h.source r hr'
      · intro c hc
        refine ⟨row, hrow'.trans hr, ?_⟩
        rw [← Option.some.inj (hcached.symm.trans hc), CachedPrice.stored, LatestPrice.stored,
          hprice, h.source row hr]
    · -- a new price: row and entry take it, and so does the memory unless the tick raises
      rw [if_neg hlast]
      have hrow' : (s.step id source x).row = some ⟨p, x.now, source⟩ := by
        rw [step_row_of_ne hx hlast hrow]
        exact offerRow_takes hbefore.row
      refine ⟨?_, ?_, ?_, ?_⟩
      · dsimp only
        rw [step_last hx, hrow', Option.map_some]
        cases raised with
        | true => exact iff_of_false hlast (by simp)
        | false => exact iff_of_true rfl rfl
      · rw [step_since hx, hrow', stamp_of_ne hlast, Option.map_some]
      · intro r hr'
        rw [hrow'] at hr'
        rw [← Option.some.inj hr']
      · intro c hc
        refine ⟨_, hrow', ?_⟩
        have hle : ∀ r, s.row = some r → r.effectiveAt ≤ x.now := fun r hr => (hbefore.row r hr).le
        have hcached : (s.step id source x).cached =
            offerCached s.cached ⟨id, p, toIso (s.stamp x.now p), some source⟩ := step_cached hx hcache
        rw [stamp_of_ne hlast, h.takes hle] at hcached
        rw [← Option.some.inj (hcached.symm.trans hc)]
        rfl

/-- A ticker that is astray and read at its old price gets that price in the cache and keeps another
in its row. -/
lemma Coherent.spoilt (h : s.Coherent source true) (hx : x.reading = some p)
    (hlast : s.last = some p) (hcache : x.cacheWritten = true) (id : SecurityId) :
    ∃ c, (s.step id source x).cached = some c ∧ c.price = p ∧
      (s.step id source x).row.map LatestPrice.price ≠ some p := by
  obtain ⟨hrow, hcached⟩ := h.step_of_last hx hlast hcache id
  refine ⟨_, hcached, rfl, fun hprice => ?_⟩
  rw [hrow] at hprice
  exact absurd (h.last.1 (hlast.trans hprice.symm)) (by simp)

omit [DecidableEq P] in
/-- A start makes a ticker coherent when the entry it finds carries the stamp of the row. -/
lemma coherent_started {row : Option (LatestPrice P)} {cached : Option (CachedPrice P)}
    (hsource : ∀ r, row = some r → r.source = source)
    (hcached : ∀ c, cached = some c → ∃ r, row = some r ∧ c.effectiveAt = toIso r.effectiveAt)
    (id : SecurityId) : (started id row cached).Coherent source false := by
  refine ⟨iff_of_true rfl rfl, rfl, hsource, fun c hc => ?_⟩
  cases row with
  | none =>
    obtain ⟨r, hsome, -⟩ := hcached c hc
    exact absurd hsome (by simp)
  | some r =>
    have hwarm : offerCached cached ⟨id, r.price, toIso r.effectiveAt, some r.source⟩ = some c := hc
    have hle : ∀ cur, cached = some cur → cur.effectiveAt ≤ toIso r.effectiveAt := by
      intro cur hcur
      obtain ⟨r', hr', hstamp⟩ := hcached cur hcur
      obtain rfl := Option.some.inj hr'
      exact hstamp.le
    refine ⟨r, rfl, ?_⟩
    rw [offerCached_takes hle] at hwarm
    rw [← Option.some.inj hwarm]
    rfl

end TickerState

namespace World

variable {w w' : World P} {svc : PriceService P} {i : TickInput P} {id : SecurityId} {t : Ticker}
  {astray : Ticker → Bool} {e : FaultEvent P}

/-! ## Coherent worlds -/

/-- An event of a run in which every write succeeds: starts complete, ticks write both stores,
services stop cleanly, keys expire.  An exception may still leave a tick once its writes are made. -/
def Succeeds (w : World P) : FaultEvent P → Prop
  | .event (.start settings read) => (PriceService.start settings w.stores read).2.isSome = true
  | .event (.tick i) =>
    FaultHonest w (.event (.tick i)) ∧ i.cache.isOk = true ∧ i.postgres.isOk = true
  | .tickWith i escapes =>
    FaultHonest w (.tickWith i escapes) ∧ i.cache.isOk = true ∧ i.postgres.isOk = true
  | .event .stop | .event (.expire _) => True
  | .event (.cutStart ..) | .event (.crashTick _) => False

instance (w : World P) (e : FaultEvent P) : Decidable (Succeeds w e) :=
  match e with
  | .event (.start settings read) =>
    inferInstanceAs (Decidable ((PriceService.start settings w.stores read).2.isSome = true))
  | .event (.tick i) =>
    inferInstanceAs (Decidable (FaultHonest w (.event (.tick i)) ∧ i.cache.isOk = true ∧
      i.postgres.isOk = true))
  | .tickWith i escapes =>
    inferInstanceAs (Decidable (FaultHonest w (.tickWith i escapes) ∧ i.cache.isOk = true ∧
      i.postgres.isOk = true))
  | .event .stop | .event (.expire _) => inferInstanceAs (Decidable True)
  | .event (.cutStart ..) | .event (.crashTick _) => inferInstanceAs (Decidable False)

omit [DecidableEq P] in
lemma Succeeds.tick (h : Succeeds w e) (hi : i ∈ tickOf e) :
    FaultHonest w e ∧ i.cache.isOk = true ∧ i.postgres.isOk = true := by
  cases e with
  | tickWith k escapes =>
    obtain rfl : k = i := Option.some.inj hi
    exact h
  | event e =>
    cases e with
    | tick k =>
      obtain rfl : k = i := Option.some.inj hi
      exact h
    | crashTick k => exact h.elim
    | start settings read => exact absurd hi (by simp [tickOf])
    | cutStart settings read cut => exact absurd hi (by simp [tickOf])
    | stop => exact absurd hi (by simp [tickOf])
    | expire key => exact absurd hi (by simp [tickOf])

omit [DecidableEq P] in
lemma Succeeds.honest (h : Succeeds w e) : FaultHonest w e := fun i hi => (h.tick hi).1 i hi

/-- The cache, the table and the running service tell the same story about every listed
security. -/
structure Coherent (astray : Ticker → Bool) (w : World P) : Prop where
  wellFormed : w.WellFormed
  sources : w.stores.latestPrices.SourcesKnown
  cached : ∀ id t c, w.stores.securities.Lists id t → w.stores.redis.cached t = some c →
    ∃ row, Dict.get? w.stores.latestPrices id = some row ∧ c.stored = row.stored
  running : ∀ svc, w.service = some svc → ∀ id t, w.stores.securities.Lists id t →
    (svc.view w.stores id t).Coherent svc.sourceName (astray t)

omit [DecidableEq P] in
lemma sourcesKnown_of_sourcesAre {tbl : LatestPrices P} {source : PriceSource}
    (h : tbl.SourcesAre source) : tbl.SourcesKnown := by
  intro id row hrow
  rw [h id row hrow]
  cases source with
  | api => exact Or.inl rfl
  | simulated => exact Or.inr rfl

omit [DecidableEq P] in
/-- Unless it wipes, a reconciliation keeps every row and its stamp. -/
lemma exists_reconciled {settings : Settings} {stores : Stores P} {row : LatestPrice P}
    (hkeep : (reconcileSource stores.latestPrices settings.priceSource).2.action ≠ .wipedSimulated)
    (h : Dict.get? stores.latestPrices id = some row) :
    ∃ row', Dict.get? (PriceService.reconciled settings stores) id = some row' ∧
      row'.effectiveAt = row.effectiveAt := by
  unfold PriceService.reconciled
  unfold reconcileSource at hkeep ⊢
  dsimp only at hkeep ⊢
  split
  · exact ⟨row, h, rfl⟩
  · rename_i hforeign
    rw [if_neg hforeign] at hkeep
    split
    · rename_i hapi
      rw [if_pos hapi] at hkeep
      exact absurd rfl hkeep
    · refine ⟨_, by rw [LatestPrices.get?_relabelSource, h, Option.map_some], ?_⟩
      split <;> rfl

omit [DecidableEq P] in
/-- A completed start from a coherent world.  The flush of a wipe is what keeps the cache from
outliving its rows. -/
lemma Coherent.view_start {settings : Settings} {read : PriceService.CatalogRead}
    {stores' : Stores P} (h : w.Coherent astray)
    (hstart : PriceService.start settings w.stores read = (stores', some svc))
    (hl : stores'.securities.Lists id t) :
    (svc.view stores' id t).Coherent svc.sourceName false := by
  obtain ⟨hsettings, -, hsecurities, -⟩ := PriceService.start_service hstart
  rw [PriceService.view_start hstart hl]
  have hname : svc.sourceName = settings.priceSource.name := by
    rw [PriceService.sourceName, hsettings]
  rw [hname]
  apply TickerState.coherent_started
  · intro r hr
    exact reconcileSource_sourcesAre h.sources settings.priceSource id r hr
  · intro c hc
    have hkept := cached_of_cachedAfterReconcile hc
    -- a start that deletes the rows flushes the cache, so the entry would be gone
    have hnowipe : (reconcileSource w.stores.latestPrices settings.priceSource).2.action ≠
        .wipedSimulated := by
      intro hwipe
      rw [PriceService.cachedAfterReconcile, if_pos hwipe] at hc
      exact absurd hc (by simp)
    obtain ⟨id', hid'⟩ := h.wellFormed.listed.cached t c hkept
    obtain ⟨row, hrow, hstored⟩ := h.cached id' t c hid' hkept
    -- the ticker is listed under one id
    have hsame : id' = id := by
      rw [hsecurities] at hl
      exact (lists_synced hid').id_unique hl
    subst hsame
    obtain ⟨row', hrow', hstamp⟩ := exists_reconciled hnowipe hrow
    refine ⟨row', hrow', ?_⟩
    rw [hstamp]
    exact congrArg StoredPrice.effectiveAt hstored

omit [DecidableEq P] in
/-- What a running service tells of every listed security makes a well-formed world coherent. -/
lemma coherent_of_views {stores : Stores P} {clock : Instant}
    (hwf : (⟨stores, some svc, clock⟩ : World P).WellFormed)
    (hview : ∀ id t, stores.securities.Lists id t →
      (svc.view stores id t).Coherent svc.sourceName (astray t)) :
    (⟨stores, some svc, clock⟩ : World P).Coherent astray := by
  refine ⟨hwf, ?_, fun id t c hl hc => (hview id t hl).cached c hc, ?_⟩
  · intro id row hrow
    obtain ⟨t, hl⟩ := hwf.listed.row id row hrow
    rw [(hview id t hl).source row hrow, PriceService.sourceName]
    cases svc.settings.priceSource with
    | api => exact Or.inl rfl
    | simulated => exact Or.inr rfl
  · rintro svc' ⟨⟩
    exact hview

/-- A tick at which nothing is spoilt keeps the world coherent, whatever exception leaves it. -/
lemma Coherent.tickWith (h : w.Coherent astray) (hsvc : w.service = some svc)
    (hclock : w.clock < i.now) (hi : svc.Requested i) (hcache : i.cache.isOk = true)
    (hpostgres : i.postgres.isOk = true) (escapes : Escapes)
    (hunspoilt : ∀ t p, (svc.inputAt i t).reading = some p → svc.lastPublished.get? t = some p →
      astray t = false) :
    (⟨(svc.tick w.stores i).stores, some (svc.tickWith escapes w.stores i).service, i.now⟩ :
      World P).Coherent (svc.astrayAfter w.stores i escapes astray) := by
  have hr := h.wellFormed.running svc hsvc
  obtain ⟨hstores, -, hsettings, -⟩ := PriceService.tickWith_cases escapes svc w.stores i
  obtain ⟨hsettings', -, hsecurities, -⟩ := PriceService.tick_service hr.sound w.stores hi
  -- the memory is that of `tickWith`, the stores are those of `tick`
  have hwf : (⟨(svc.tick w.stores i).stores, some (svc.tickWith escapes w.stores i).service,
      i.now⟩ : World P).WellFormed := by
    refine h.wellFormed.faultStep (e := .tickWith i escapes) ?_ ?_
    · rintro k ⟨⟩
      exact ⟨hclock.le, fun svc' hsvc' => Option.some.inj (hsvc.symm.trans hsvc') ▸ hi⟩
    · simp only [World.faultStep, hsvc, hstores]
  refine coherent_of_views hwf fun id t hl => ?_
  rw [hsecurities] at hl
  have hname : (svc.tickWith escapes w.stores i).service.sourceName = svc.sourceName := by
    rw [PriceService.sourceName, hsettings, hsettings', PriceService.sourceName]
  have hcacheAt : (svc.inputAt i t).cacheWritten = true := CacheOutcome.applies_of_isOk hcache t
  have hrowAt : (svc.inputAt i t).rowWritten = true := PostgresOutcome.applies_of_isOk hpostgres
  have hstep := (h.running svc hsvc id t hl).step
    ((hr.view_upTo h.wellFormed.stamped id t).before hclock) hcacheAt hrowAt
    (decide ((svc.tickWith escapes w.stores i).status = .raised)) (hunspoilt t) id
  -- both writes took effect, so a tick that raises leaves every new price astray
  have hastray : svc.astrayAfter w.stores i escapes astray t =
      (match (svc.inputAt i t).reading with
        | none => astray t
        | some p => if (svc.view w.stores id t).last = some p then astray t
          else decide ((svc.tickWith escapes w.stores i).status = .raised)) := by
    unfold PriceService.astrayAfter
    cases (svc.inputAt i t).reading with
    | none => rfl
    | some p =>
      dsimp only
      rw [hcacheAt, Bool.true_or, Bool.true_or, Bool.and_true]
      rfl
  rw [← hstores, PriceService.view_tickWith hr.sound w.stores hi (hr.idNames hl), hname, hastray]
  simp only [decide_eq_true_eq] at hstep
  exact hstep

/-- An event that contains no tick keeps the world coherent.  A service that starts remembers the
rows, so nothing is astray then. -/
lemma Coherent.quiet (h : w.Coherent astray) (he : Succeeds w e) (hnone : tickOf e = none)
    (hstep : w.faultStep e = some w') :
    w'.Coherent (match e with | .event (.expire _) => astray | _ => fun _ => false) := by
  have hwf := h.wellFormed.faultStep he.honest.steady hstep
  cases e with
  | tickWith i escapes => exact absurd hnone (by simp [tickOf])
  | event e =>
    cases e with
    | start settings read =>
      obtain ⟨svc, hsvc⟩ := Option.isSome_iff_exists.1 he
      have hstart : PriceService.start settings w.stores read =
          ((PriceService.start settings w.stores read).1, some svc) := Prod.ext rfl hsvc
      have hw' : w' = ⟨(PriceService.start settings w.stores read).1, some svc, w.clock⟩ := by
        rw [← Option.some.inj hstep, ← hsvc]
      subst hw'
      exact coherent_of_views hwf fun id t hl => h.view_start hstart hl
    | stop =>
      obtain rfl := Option.some.inj hstep
      exact ⟨hwf, h.sources, h.cached, fun svc hsvc => absurd hsvc (by simp)⟩
    | expire key =>
      obtain rfl := Option.some.inj hstep
      refine ⟨hwf, h.sources,
        fun id t c hl hc => h.cached id t c hl (Redis.cached_of_expire hc), ?_⟩
      intro svc hsvc id t hl
      obtain ⟨hlast, hsince, hsource, hcached⟩ := h.running svc hsvc id t hl
      exact ⟨hlast, hsince, hsource, fun c hc => hcached c (Redis.cached_of_expire hc)⟩
    | tick i => exact absurd hnone (by simp [tickOf])
    | crashTick i => exact absurd hnone (by simp [tickOf])
    | cutStart settings read cut => exact he.elim

/-- The stores are empty and no service runs. -/
def Empty (w : World P) : Prop :=
  w.service = none ∧ w.stores.latestPrices = .empty ∧ w.stores.redis = .empty

omit [DecidableEq P] in
lemma Empty.coherent (h : w.Empty) (astray : Ticker → Bool) : w.Coherent astray := by
  obtain ⟨hservice, hrows, hredis⟩ := h
  have hnorow : ∀ id row, Dict.get? w.stores.latestPrices id ≠ some row := by
    intro id row hrow
    rw [hrows] at hrow
    exact absurd hrow (by simp)
  have hnocached : ∀ t c, w.stores.redis.cached t ≠ some c := by
    intro t c hc
    rw [hredis, Redis.cached_empty] at hc
    exact absurd hc (by simp)
  have hnoservice : ∀ svc, w.service ≠ some svc := by
    intro svc hsvc
    rw [hservice] at hsvc
    exact absurd hsvc (by simp)
  refine ⟨⟨⟨?_, ?_⟩, ⟨?_, ?_⟩, ?_⟩, ?_, ?_, ?_⟩
  · exact fun id row hrow => absurd hrow (hnorow id row)
  · exact fun t c hc => absurd hc (hnocached t c)
  · exact fun id row hrow => absurd hrow (hnorow id row)
  · exact fun t c hc => absurd hc (hnocached t c)
  · exact fun svc hsvc => absurd hsvc (hnoservice svc)
  · exact fun id row hrow => absurd hrow (hnorow id row)
  · exact fun id t c _ hc => absurd hc (hnocached t c)
  · exact fun svc hsvc => absurd hsvc (hnoservice svc)

/-! ## The two paths -/

/-- A snapshot of any catalog pairs holds the same price, stamp and source for every security
whether it is read through the cache or from the table. -/
def SamePaths (w : World P) : Prop :=
  ∀ (securities : List (SecurityId × Ticker)) (reachable : Bool) (id : SecurityId),
    (∀ p ∈ securities, w.stores.securities.Lists p.1 p.2) →
    (SnapshotReader.read .redis w.stores.redis reachable w.stores.latestPrices
      securities).prices.get? id =
    (SnapshotReader.read .postgres w.stores.redis reachable w.stores.latestPrices
      securities).prices.get? id

omit [DecidableEq P] in
/-- The two paths agree in a coherent world: an entry of the cache says what its row says. -/
theorem Coherent.samePaths (h : w.Coherent astray) : w.SamePaths := by
  intro securities reachable id hpairs
  have hfun := SnapshotReader.functional_of_lists hpairs
  -- an entry carries what the row carries, so the fallback answers the same
  have hanswer : ∀ t, (id, t) ∈ securities →
      SnapshotReader.answer .redis w.stores.redis reachable w.stores.latestPrices id t =
        SnapshotReader.answer .postgres w.stores.redis reachable w.stores.latestPrices id t := by
    intro t ht
    have hno : ¬ SnapshotReader.UsesCache .postgres reachable := by
      simp [SnapshotReader.UsesCache]
    unfold SnapshotReader.answer
    rw [if_neg hno]
    split
    · cases hc : w.stores.redis.cached t with
      | none => rw [Option.map_none, Option.none_or]
      | some c =>
        obtain ⟨row, hrow, hstored⟩ := h.cached id t c (hpairs _ ht) hc
        have hprice : c.price = row.price := congrArg StoredPrice.price hstored
        have hstamp : c.effectiveAt = toIso row.effectiveAt :=
          congrArg StoredPrice.effectiveAt hstored
        have hsource : c.source = some row.source := congrArg StoredPrice.source hstored
        rw [hrow, Option.map_some, Option.map_some, Option.some_or, CachedPrice.toPrice,
          LatestPrice.toPrice, hprice, hstamp, hsource, Option.getD_some]
    · rfl
  ext p
  rw [SnapshotReader.get?_read _ _ hfun, SnapshotReader.get?_read _ _ hfun]
  constructor
  · rintro ⟨t, ht, hp⟩
    exact ⟨t, ht, hanswer t ht ▸ hp⟩
  · rintro ⟨t, ht, hp⟩
    exact ⟨t, ht, (hanswer t ht).symm ▸ hp⟩

omit [DecidableEq P] in
/-- Where the two paths agree, an entry of a listed security has the price of its row. -/
lemma SamePaths.price {c : CachedPrice P} (h : w.SamePaths)
    (hl : w.stores.securities.Lists id t) (hc : w.stores.redis.cached t = some c) :
    (Dict.get? w.stores.latestPrices id).map LatestPrice.price = some c.price := by
  have hpairs : ∀ p ∈ [(id, t)], w.stores.securities.Lists p.1 p.2 := by
    intro p hp
    rw [List.mem_singleton.1 hp]
    exact hl
  have hsame := h [(id, t)] true id hpairs
  have hfun := SnapshotReader.functional_of_lists hpairs
  have hfast : (SnapshotReader.read .redis w.stores.redis true w.stores.latestPrices
      [(id, t)]).prices.get? id = some (c.toPrice id) := by
    rw [SnapshotReader.get?_read _ _ hfun]
    refine ⟨t, List.mem_singleton_self _, ?_⟩
    rw [SnapshotReader.answer, if_pos ⟨rfl, rfl⟩, hc]
    rfl
  rw [hfast] at hsame
  obtain ⟨t', ht', hslow⟩ := (SnapshotReader.get?_read _ _ hfun _ _).1 hsame.symm
  rw [SnapshotReader.answer, if_neg (by simp [SnapshotReader.UsesCache])] at hslow
  obtain ⟨row, hrow, hprice⟩ := Option.map_eq_some_iff.1 hslow
  rw [hrow, Option.map_some]
  exact congrArg (fun q => some q.price) hprice

end World

namespace Journal

variable {j j' : Journal P} {e : FaultEvent P}

/-- Every write of the event succeeds. -/
def Succeeds (j : Journal P) (e : FaultEvent P) : Prop := World.Succeeds j.world e

instance (j : Journal P) (e : FaultEvent P) : Decidable (Succeeds j e) :=
  inferInstanceAs (Decidable (World.Succeeds j.world e))

/-- A tick that a running service is given is made. -/
lemma exists_step {svc : PriceService P} {i : TickInput P} (hsvc : j.world.service = some svc)
    (hi : i ∈ World.tickOf e) : ∃ service astray, j.step e =
      some ⟨⟨(svc.tick j.world.stores i).stores, service, i.now⟩, j.seenAfterTick svc i, astray⟩ := by
  obtain ⟨j', hj'⟩ : ∃ j', j.step e = some j' := by
    cases e with
    | tickWith k escapes =>
      simp only [step, World.faultStep, hsvc, Option.map_some]
      exact ⟨_, rfl⟩
    | event e =>
      cases e with
      | tick k =>
        simp only [step, World.faultStep, World.step, hsvc, Option.map_some]
        exact ⟨_, rfl⟩
      | crashTick k =>
        simp only [step, World.faultStep, World.step, hsvc, Option.map_some]
        exact ⟨_, rfl⟩
      | start settings read => exact absurd hi (by simp [World.tickOf])
      | cutStart settings read cut => exact absurd hi (by simp [World.tickOf])
      | stop => exact absurd hi (by simp [World.tickOf])
      | expire key => exact absurd hi (by simp [World.tickOf])
  rcases step_cases hj' with ⟨svc', k, -, service, astray, hsvc', hk, -, rfl⟩ | ⟨hnone, -⟩
  · obtain rfl := Option.some.inj (hsvc'.symm.trans hsvc)
    obtain rfl := Option.some.inj (hk.symm.trans hi)
    exact ⟨service, astray, hj'⟩
  · rw [hnone] at hi
    exact absurd hi (by simp)

/-- An event that spoils nothing keeps a journal coherent. -/
lemma coherent_step (h : j.world.Coherent j.astray) (he : Succeeds j e)
    (hunspoiled : j.Unspoiled e) (hstep : j.step e = some j') : j'.world.Coherent j'.astray := by
  rcases step_cases hstep with ⟨svc, i, escapes, service, astray, hsvc, hi, hafter, rfl⟩ |
    ⟨hnone, w', hw', rfl⟩
  · obtain ⟨hhonest, hcache, hpostgres⟩ := World.Succeeds.tick he hi
    obtain ⟨hclock, hreq⟩ := hhonest i hi
    have hticked := h.tickWith hsvc hclock (hreq svc hsvc) hcache hpostgres escapes
      fun t p hx hlast => by
        by_contra hastray
        have hlost := hunspoiled i hi svc hsvc t p hx hlast (Bool.eq_true_of_not_eq_false hastray)
        rw [CacheOutcome.applies_of_isOk hcache] at hlost
        exact absurd hlost (by simp)
    rcases hafter with rfl | ⟨rfl, rfl⟩
    · exact ⟨World.wellFormed_of_stopped rfl hticked.wellFormed.listed hticked.wellFormed.stamped,
        hticked.sources, hticked.cached, fun svc' hsvc' => absurd hsvc' (by simp)⟩
    · exact hticked
  · have hquiet := h.quiet he hnone hw'
    cases e with
    | tickWith i escapes => exact absurd hnone (by simp [World.tickOf])
    | event e => cases e <;> first | exact hquiet | exact absurd hnone (by simp [World.tickOf])

/-- An event leaves the two paths in agreement exactly when it spoils nothing. -/
lemma samePaths_step_iff (h : j.world.Coherent j.astray) (he : Succeeds j e) :
    (∀ j', j.step e = some j' → j'.world.SamePaths) ↔ j.Unspoiled e := by
  constructor
  · intro hsame i hi svc hsvc t p hx hlast hastray
    -- the spoilt entry has the old price, and the row keeps the other one
    exfalso
    obtain ⟨hhonest, hcache, -⟩ := World.Succeeds.tick he hi
    have hr := h.wellFormed.running svc hsvc
    have hreq := (hhonest i hi).2 svc hsvc
    obtain ⟨id, hget⟩ := Dict.mem_keys_iff.1 (World.mem_keys_of_reading hr.sound hreq hx)
    have hl := hr.lists t id hget
    have hcoherent := h.running svc hsvc id t hl
    rw [hastray] at hcoherent
    obtain ⟨c, hc, hprice, hrow⟩ :=
      hcoherent.spoilt hx hlast (CacheOutcome.applies_of_isOk hcache t) id
    rw [← (PriceService.view_tick hr.sound j.world.stores hreq (hr.idNames hl)).1] at hc hrow
    obtain ⟨service, astray, hj'⟩ := exists_step hsvc hi
    have hl' : (svc.tick j.world.stores i).stores.securities.Lists id t := by
      rw [(PriceService.tick_service hr.sound j.world.stores hreq).2.2.1]
      exact hl
    have hsame' := (hsame _ hj').price hl' hc
    rw [hprice] at hsame'
    exact hrow hsame'
  · intro hunspoiled j' hstep
    exact (coherent_step h he hunspoiled hstep).samePaths

/-- **The fast path equals the slow path exactly as long as no astray ticker is read at its old
price.**  Take any run from empty stores in which every start completes and every write succeeds,
with a strictly increasing clock, clean stops, switches of the source and expiry at any point, and
with exceptions leaving ticks once their writes are made.  After every event of it a snapshot of any
catalog pairs holds the same price, stamp and source for every security whether it is read through
the cache or from the table, if and only if no tick writes back, at the price last published, a
ticker for which an exception had kept a newer price from counting as published. -/
theorem fast_path_eq_slow_path_iff {j₀ : Journal P} (hempty : j₀.world.Empty)
    {es : List (FaultEvent P)} (hes : system.Along Succeeds j₀ es) :
    system.Along (fun j e => ∀ j', j.step e = some j' → j'.world.SamePaths) j₀ es ↔
      system.Along Unspoiled j₀ es := by
  have hboth : system.Along (fun j e => Succeeds j e ∧
        ∀ j', j.step e = some j' → j'.world.SamePaths) j₀ es ↔
      system.Along (fun j e => Succeeds j e ∧ j.Unspoiled e) j₀ es := by
    refine System.along_iff (I := fun j => j.world.Coherent j.astray) ?_ ?_ es ?_
    · exact fun j e j' h he hstep => coherent_step h he.1 he.2 hstep
    · exact fun j e h => and_congr_right fun he => samePaths_step_iff h he
    · exact hempty.coherent _
  rw [System.along_and, System.along_and] at hboth
  constructor
  · exact fun h => (hboth.1 ⟨hes, h⟩).2
  · exact fun h => (hboth.2 ⟨hes, h⟩).2

/-- Nothing is written back in a run that no exception leaves a tick of. -/
lemma unspoiled_of_silent {j₀ : Journal P} {es : List (FaultEvent P)}
    (hempty : j₀.world.Empty) (hastray : ∀ t, j₀.astray t = false)
    (hes : system.Along (fun j e => Succeeds j e ∧ Silent e) j₀ es) :
    system.Along Unspoiled j₀ es := by
  have hkept : ∀ j : Journal P, j.world.WellFormed → (∀ t, j.astray t = false) →
      ∀ es, system.Along (fun j e => Succeeds j e ∧ Silent e) j es → system.Along Unspoiled j es := by
    intro j hwf hastray es
    induction es generalizing j with
    | nil => exact fun _ => trivial
    | cons e es ih =>
      rintro ⟨⟨he, hsilent⟩, hrest⟩
      refine ⟨fun i _ svc _ t p _ _ hlost => ?_, fun j' hstep => ?_⟩
      · rw [hastray t] at hlost
        exact absurd hlost (by simp)
      · obtain ⟨w', hw', rfl⟩ := Option.map_eq_some_iff.1 hstep
        exact ih _ (hwf.faultStep (World.Succeeds.honest he).steady hw')
          (astray_of_silent hwf hastray (World.Succeeds.honest he) hsilent) (hrest _ hstep)
  exact hkept j₀ (hempty.coherent j₀.astray).wellFormed hastray es hes

/-- **Without such an exception the fast path always equals the slow path.** -/
theorem fast_path_eq_slow_path {j₀ : Journal P} (hinit : system.init j₀) (hempty : j₀.world.Empty)
    {es : List (FaultEvent P)}
    (hes : system.Along (fun j e => Succeeds j e ∧ Silent e) j₀ es) :
    system.Along (fun j e => ∀ j', j.step e = some j' → j'.world.SamePaths) j₀ es :=
  (fast_path_eq_slow_path_iff hempty (System.along_and.1 hes).1).2
    (unspoiled_of_silent hempty hinit.2.2.2 hes)

/-! ## A price that is written back -/

/-- A tick at 101; a tick that moves the price to 102 and is left by an exception once everything is
written; a tick at 103. -/
def pricesOn : List (FaultEvent ℕ) :=
  [.event (.start PriceService.soloSettings PriceService.soloRead),
    .event (World.writtenTick PriceService.firstReading 101),
    publishRaises PriceService.secondReading 102,
    .event (World.writtenTick PriceService.thirdReading 103)]

/-- The two paths agree throughout `pricesOn`: the exception alone does no harm. -/
theorem fast_path_eq_slow_path_on : ∃ j : Journal ℕ,
    system.execWhere (fun j e => Succeeds j e ∧ j.Unspoiled e) fresh pricesOn = some j ∧
    system.Along (fun j e => ∀ j', j.step e = some j' → j'.world.SamePaths) fresh pricesOn := by
  have hsome : (system.execWhere (fun j e => Succeeds j e ∧ j.Unspoiled e) fresh
      pricesOn).isSome = true := by
    decide +kernel
  obtain ⟨j, hj⟩ := Option.isSome_iff_exists.1 hsome
  obtain ⟨hes, hunspoiled⟩ := System.along_and.1 (System.along_of_execWhere hj)
  exact ⟨j, hj, (fast_path_eq_slow_path_iff ⟨rfl, rfl, rfl⟩ hes).2 hunspoiled⟩

/-- **A price written back to the cache alone.**  Every write of `pricesBack` succeeds, and after it
a snapshot shows 101 through the cache and 102 from the table, under one stamp. -/
theorem paths_apart : ∃ (j : Journal ℕ) (fast slow : Price ℕ),
    fresh.world.Empty ∧ system.execWhere Succeeds fresh pricesBack = some j ∧
    j.world.stores.securities.Lists 1 "AAPL" ∧
    (SnapshotReader.read .redis j.world.stores.redis true j.world.stores.latestPrices
      [(1, "AAPL")]).prices.get? 1 = some fast ∧
    (SnapshotReader.read .postgres j.world.stores.redis true j.world.stores.latestPrices
      [(1, "AAPL")]).prices.get? 1 = some slow ∧
    fast.price = 101 ∧ slow.price = 102 ∧ fast.effectiveAt = slow.effectiveAt ∧
    ¬ j.world.SamePaths := by
  have hrun : ((system.execWhere Succeeds fresh pricesBack).bind fun j =>
      ((SnapshotReader.read .redis j.world.stores.redis true j.world.stores.latestPrices
        [(1, "AAPL")]).prices.get? 1).bind fun fast =>
      ((SnapshotReader.read .postgres j.world.stores.redis true j.world.stores.latestPrices
        [(1, "AAPL")]).prices.get? 1).map fun slow =>
        (fast.price, slow.price, decide (fast.effectiveAt = slow.effectiveAt),
          (j.world.stores.securities.rows.get? 1).map Security.ticker)) =
      some (101, 102, true, some "AAPL") := by
    decide +kernel
  obtain ⟨j, hj, hrun⟩ := Option.bind_eq_some_iff.1 hrun
  obtain ⟨fast, hfast, hrun⟩ := Option.bind_eq_some_iff.1 hrun
  obtain ⟨slow, hslow, hrun⟩ := Option.map_eq_some_iff.1 hrun
  simp only [Prod.mk.injEq, decide_eq_true_eq, Option.map_eq_some_iff] at hrun
  obtain ⟨hfastPrice, hslowPrice, hstamp, hlists⟩ := hrun
  refine ⟨j, fast, slow, ⟨rfl, rfl, rfl⟩, hj, hlists, hfast, hslow, hfastPrice, hslowPrice, hstamp,
    fun hsame => ?_⟩
  have heq := hsame [(1, "AAPL")] true 1 fun p hp => by
    obtain rfl := List.mem_singleton.1 hp
    exact hlists
  rw [hfast, hslow] at heq
  rw [Option.some.inj heq, hslowPrice] at hfastPrice
  exact absurd hfastPrice (by decide)

end Journal
end TickerWatch
