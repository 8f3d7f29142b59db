import TickerWatch.PriceService.Ticker

/-!
# A start of the price service

What `start` leaves, ticker by ticker: the reconciled row, the memory rebuilt from it, and the
cache entry the warm-up made of the one that was there.  `view_start` is the counterpart of
`view_tick`.
-/

namespace TickerWatch

universe u

/-- What a start makes of a row and a cache entry. -/
def TickerState.started {P : Type u} (id : SecurityId) (row : Option (LatestPrice P))
    (cached : Option (CachedPrice P)) : TickerState P where
  last := row.map LatestPrice.price
  since := row.map LatestPrice.effectiveAt
  row := row
  cached :=
    match row with
    | none => cached
    | some r => offerCached cached ⟨id, r.price, toIso r.effectiveAt, some r.source⟩

namespace PriceService

variable {P : Type u}

/-! ## The warm-up -/

lemma warm_cons (svc : PriceService P) (r : Redis P) (row : TickerPrice P)
    (rows : List (TickerPrice P)) :
    svc.warm r (row :: rows) =
      (warmRow svc.settings.priceCacheTtlSeconds (svc, r) row).1.warm
        (warmRow svc.settings.priceCacheTtlSeconds (svc, r) row).2 rows := rfl

lemma warm_service (svc : PriceService P) (r : Redis P) (rows : List (TickerPrice P)) :
    (svc.warm r rows).1.settings = svc.settings ∧
    (svc.warm r rows).1.tickerToId = svc.tickerToId ∧
    (svc.warm r rows).1.upstreamPrices = svc.upstreamPrices := by
  induction rows generalizing svc r with
  | nil => exact ⟨rfl, rfl, rfl⟩
  | cons row rows ih =>
    rw [warm_cons]
    exact ih (warmRow svc.settings.priceCacheTtlSeconds (svc, r) row).1 _

lemma cached_warmRow (ttl : ℤ) (svc : PriceService P) (r : Redis P) (row : TickerPrice P)
    (t : Ticker) :
    (warmRow ttl (svc, r) row).2.cached t =
      if row.ticker = t then TickerState.offerCached (r.cached t) (warmPayload row)
      else r.cached t := by
  have h := Redis.register_setPriceIfNewer r row.ticker t (warmPayload row) ttl
  rw [Redis.cached_eq_map_register, warmRow]
  dsimp only
  rw [h]
  by_cases ht : row.ticker = t
  · rw [if_pos ht, if_pos ht]
    rfl
  · rw [if_neg ht, if_neg ht, ← Redis.cached_eq_map_register]

/-- A ticker without a row is left alone. -/
lemma warm_of_notMem (svc : PriceService P) (r : Redis P) (rows : List (TickerPrice P))
    (t : Ticker) (h : ∀ row ∈ rows, row.ticker ≠ t) :
    (svc.warm r rows).1.lastPublished.get? t = svc.lastPublished.get? t ∧
    (svc.warm r rows).1.effectiveAt.get? t = svc.effectiveAt.get? t ∧
    (svc.warm r rows).2.cached t = r.cached t := by
  induction rows generalizing svc r with
  | nil => exact ⟨rfl, rfl, rfl⟩
  | cons row rows ih =>
    have hne : row.ticker ≠ t := h row List.mem_cons_self
    obtain ⟨hlast, hsince, hcached⟩ := ih
      (warmRow svc.settings.priceCacheTtlSeconds (svc, r) row).1
      (warmRow svc.settings.priceCacheTtlSeconds (svc, r) row).2
      fun row' hrow' => h row' (List.mem_cons_of_mem _ hrow')
    rw [warm_cons]
    refine ⟨hlast.trans ?_, hsince.trans ?_, hcached.trans ?_⟩
    · exact Dict.get?_set_ne _ _ hne.symm
    · exact Dict.get?_set_ne _ _ hne.symm
    · rw [cached_warmRow, if_neg hne]

/-- A ticker with a row gets its memory and its cache entry from it. -/
lemma warm_of_mem (svc : PriceService P) (r : Redis P) {rows : List (TickerPrice P)}
    (hnodup : (rows.map TickerPrice.ticker).Nodup) {row : TickerPrice P} (hrow : row ∈ rows) :
    (svc.warm r rows).1.lastPublished.get? row.ticker = some row.row.price ∧
    (svc.warm r rows).1.effectiveAt.get? row.ticker = some row.row.effectiveAt ∧
    (svc.warm r rows).2.cached row.ticker =
      TickerState.offerCached (r.cached row.ticker) (warmPayload row) := by
  induction rows generalizing svc r with
  | nil => exact absurd hrow List.not_mem_nil
  | cons row' rows ih =>
    rw [List.map_cons, List.nodup_cons] at hnodup
    rw [warm_cons]
    rcases List.mem_cons.1 hrow with rfl | hrow
    · obtain ⟨hlast, hsince, hcached⟩ := warm_of_notMem
        (warmRow svc.settings.priceCacheTtlSeconds (svc, r) row).1
        (warmRow svc.settings.priceCacheTtlSeconds (svc, r) row).2 rows row.ticker
        fun row' hrow' heq => hnodup.1 (heq ▸ List.mem_map_of_mem hrow')
      refine ⟨hlast.trans ?_, hsince.trans ?_, hcached.trans ?_⟩
      · exact Dict.get?_set_self _ _ _
      · exact Dict.get?_set_self _ _ _
      · rw [cached_warmRow, if_pos rfl]
    · obtain ⟨hlast, hsince, hcached⟩ := ih
        (warmRow svc.settings.priceCacheTtlSeconds (svc, r) row').1
        (warmRow svc.settings.priceCacheTtlSeconds (svc, r) row').2 hnodup.2 hrow
      have hne : row'.ticker ≠ row.ticker := fun heq =>
        hnodup.1 (heq ▸ List.mem_map_of_mem hrow)
      refine ⟨hlast, hsince, hcached.trans ?_⟩
      rw [cached_warmRow, if_neg hne]

end PriceService

lemma LatestPrices.nodup_tickers {P : Type u} (tbl : LatestPrices P) (c : Catalog) :
    ((tbl.allWithTickers c).map TickerPrice.ticker).Nodup := by
  refine List.Nodup.map_on ?_ (List.Nodup.of_map _ (tbl.nodup_allWithTickers c))
  intro x hx y hy hxy
  have hx' := LatestPrices.mem_allWithTickers.1 hx
  have hy' := LatestPrices.mem_allWithTickers.1 hy
  exact List.inj_on_of_nodup_map (tbl.nodup_allWithTickers c) hx hy
    (hx'.2.id_unique (hxy ▸ hy'.2))

namespace PriceService

variable {P : Type u} {settings : Settings} {stores stores' : Stores P} {read : CatalogRead}
  {svc : PriceService P} {id : SecurityId} {t : Ticker}

/-! ## The stages -/

/-- The table once a start has reconciled it. -/
def reconciled (settings : Settings) (stores : Stores P) : LatestPrices P :=
  (reconcileSource stores.latestPrices settings.priceSource).1

/-- What is cached for a ticker once a start has reconciled the stores. -/
def cachedAfterReconcile (settings : Settings) (stores : Stores P) (t : Ticker) :
    Option (CachedPrice P) :=
  if (reconcileSource stores.latestPrices settings.priceSource).2.action = .wipedSimulated then none
  else stores.redis.cached t

/-- The catalog once a start has synced it. -/
def synced (settings : Settings) (stores : Stores P) (read : CatalogRead) : Catalog :=
  stores.securities.upsertMany (catalogRows settings.priceSource read)

lemma cached_reconcile (settings : Settings) (stores : Stores P) (t : Ticker) :
    ((new settings).reconcile stores).2.redis.cached t = cachedAfterReconcile settings stores t := by
  have hsource : (new settings : PriceService P).settings.priceSource = settings.priceSource := rfl
  unfold reconcile cachedAfterReconcile
  dsimp only
  rw [hsource]
  split
  · exact Redis.cached_flushPrices _ _
  · rfl

lemma get?_tickerToId {c : Catalog} {includeSynthetic : Bool} :
    (Dict.ofList ((c.allTickers includeSynthetic).map Prod.swap)).get? t = some id →
      c.Lists id t := by
  intro h
  have hfun : SnapshotReader.Functional (c.allTickers includeSynthetic) :=
    SnapshotReader.functional_of_lists fun p hp => Catalog.lists_of_mem_allTickers hp
  exact Catalog.lists_of_mem_allTickers (SnapshotReader.get?_byTicker_some h hfun)

/-- What a completed start is made of. -/
lemma start_eq_some (h : start settings stores read = (stores', some svc)) :
    ∃ ids stats,
      ids = Dict.ofList (((synced settings stores read).allTickers
        !decide (settings.priceSource = .api)).map Prod.swap) ∧
      svc = (warm { (new settings : PriceService P) with tickerToId := ids, stats := stats }
        ((new settings).reconcile stores).2.redis
        ((reconciled settings stores).allWithTickers (synced settings stores read))).1 ∧
      stores' = ⟨synced settings stores read, reconciled settings stores,
        (warm { (new settings : PriceService P) with tickerToId := ids, stats := stats }
          ((new settings).reconcile stores).2.redis
          ((reconciled settings stores).allWithTickers (synced settings stores read))).2⟩ := by
  unfold start syncCatalog at h
  dsimp only at h
  split at h
  · exact absurd (congrArg Prod.snd h) (by simp)
  · obtain ⟨hstores, hsvc⟩ := Prod.mk.inj h
    exact ⟨_, _, rfl, (Option.some.inj hsvc).symm, hstores.symm⟩

lemma start_asks (h : start settings stores read = (stores', some svc)) :
    svc.tickerToId.keys ≠ [] := by
  unfold start syncCatalog at h
  dsimp only at h
  split at h
  · exact absurd (congrArg Prod.snd h) (by simp)
  case isFalse hids =>
    obtain rfl := Option.some.inj (Prod.mk.inj h).2
    rw [(warm_service _ _ _).2.1]
    intro hnil
    exact hids (List.isEmpty_iff.2 (List.map_eq_nil_iff.1 hnil))

/-- What a completed start remembers of any ticker: nothing, or a reconciled row of it. -/
lemma start_memory (h : start settings stores read = (stores', some svc)) (t : Ticker) :
    (svc.lastPublished.get? t = none ∧ svc.effectiveAt.get? t = none) ∨
    ∃ id row, Dict.get? (reconciled settings stores) id = some row ∧
      (synced settings stores read).Lists id t ∧
      svc.lastPublished.get? t = some row.price ∧ svc.effectiveAt.get? t = some row.effectiveAt := by
  obtain ⟨ids, stats, -, hsvc, -⟩ := start_eq_some h
  by_cases hex : ∃ row ∈ (reconciled settings stores).allWithTickers
      (synced settings stores read), row.ticker = t
  · obtain ⟨row, hrow, rfl⟩ := hex
    have hmem := warm_of_mem { (new settings : PriceService P) with
      tickerToId := ids, stats := stats } ((new settings).reconcile stores).2.redis
      (LatestPrices.nodup_tickers _ _) hrow
    rw [← hsvc] at hmem
    obtain ⟨hget, hlists⟩ := LatestPrices.mem_allWithTickers.1 hrow
    exact Or.inr ⟨row.securityId, row.row, hget, hlists, hmem.1, hmem.2.1⟩
  · have hnot := warm_of_notMem { (new settings : PriceService P) with
      tickerToId := ids, stats := stats } ((new settings).reconcile stores).2.redis
      ((reconciled settings stores).allWithTickers (synced settings stores read)) t
      fun row hrow heq => hex ⟨row, hrow, heq⟩
    rw [← hsvc] at hnot
    exact Or.inl ⟨hnot.1, hnot.2.1⟩

/-- What a completed start leaves besides prices. -/
theorem start_service (h : start settings stores read = (stores', some svc)) :
    svc.settings = settings ∧ svc.Sound ∧
    stores'.securities = synced settings stores read ∧
    stores'.latestPrices = reconciled settings stores ∧
    ∀ t id, svc.tickerToId.get? t = some id → stores'.securities.Lists id t := by
  obtain ⟨ids, stats, hids, hsvc, hstores⟩ := start_eq_some h
  have hwarm := warm_service { (new settings : PriceService P) with
    tickerToId := ids, stats := stats } ((new settings).reconcile stores).2.redis
    ((reconciled settings stores).allWithTickers (synced settings stores read))
  rw [← hsvc] at hwarm
  obtain ⟨hsettings, htickers, hupstream⟩ := hwarm
  -- the map has the tickers of the catalog
  have hlists : ∀ t id, svc.tickerToId.get? t = some id →
      (synced settings stores read).Lists id t := by
    intro t id hget
    rw [htickers] at hget
    subst hids
    exact get?_tickerToId hget
  -- a price and its stamp come from one row
  have hstamped : ∀ t p, svc.lastPublished.get? t = some p → ∃ since,
      svc.effectiveAt.get? t = some since := by
    intro t p hp
    rcases start_memory h t with ⟨hnone, -⟩ | ⟨id, row, -, -, -, hsince⟩
    · rw [hnone] at hp
      exact absurd hp (by simp)
    · exact ⟨_, hsince⟩
  subst hstores
  refine ⟨hsettings, ⟨?_, ?_, hstamped⟩, rfl, rfl, hlists⟩
  · intro t t' id ht ht'
    exact (hlists t id ht).ticker_unique (hlists t' id ht')
  · intro t ht
    rw [hupstream] at ht
    exact absurd ht List.not_mem_nil

/-- **What a completed start leaves for a listed ticker.** -/
theorem view_start (h : start settings stores read = (stores', some svc))
    (hlists : stores'.securities.Lists id t) :
    svc.view stores' id t = TickerState.started id (Dict.get? (reconciled settings stores) id)
      (cachedAfterReconcile settings stores t) := by
  obtain ⟨ids, stats, -, hsvc, hstores⟩ := start_eq_some h
  subst hstores
  have hlists' : (synced settings stores read).Lists id t := hlists
  cases hrow : Dict.get? (reconciled settings stores) id with
  | none =>
    -- no stored row has the ticker, so the warm-up passes it by
    have hnot := warm_of_notMem { (new settings : PriceService P) with
      tickerToId := ids, stats := stats } ((new settings).reconcile stores).2.redis
      ((reconciled settings stores).allWithTickers (synced settings stores read)) t (by
          rintro row hmem rfl
          obtain ⟨hget, hrowLists⟩ := LatestPrices.mem_allWithTickers.1 hmem
          rw [hrowLists.id_unique hlists', hrow] at hget
          exact absurd hget (by simp))
    rw [← hsvc] at hnot
    ext1
    · exact hnot.1
    · exact hnot.2.1
    · exact hrow
    · subst hsvc
      exact hnot.2.2.trans (cached_reconcile settings stores t)
  | some r =>
    have hmem : (⟨id, t, r⟩ : TickerPrice P) ∈ (reconciled settings stores).allWithTickers
        (synced settings stores read) := LatestPrices.mem_allWithTickers.2 ⟨hrow, hlists'⟩
    -- its row is among those the warm-up goes through
    have hwarm := warm_of_mem { (new settings : PriceService P) with
      tickerToId := ids, stats := stats } ((new settings).reconcile stores).2.redis
      (LatestPrices.nodup_tickers _ _) hmem
    rw [← hsvc] at hwarm
    ext1
    · exact hwarm.1
    · exact hwarm.2.1
    · exact hrow
    · subst hsvc
      refine hwarm.2.2.trans ?_
      rw [cached_reconcile]
      rfl

/-- A ticker the catalog does not list keeps what the reconciliation left. -/
theorem cached_start_of_unlisted (h : start settings stores read = (stores', some svc))
    (hnot : ∀ id, ¬ stores'.securities.Lists id t) :
    stores'.redis.cached t = cachedAfterReconcile settings stores t := by
  obtain ⟨ids, stats, -, hsvc, hstores⟩ := start_eq_some h
  subst hstores
  have hkeep := warm_of_notMem { (new settings : PriceService P) with
    tickerToId := ids, stats := stats } ((new settings).reconcile stores).2.redis
    ((reconciled settings stores).allWithTickers (synced settings stores read)) t (by
      rintro row hmem rfl
      exact hnot row.securityId (LatestPrices.mem_allWithTickers.1 hmem).2)
  exact hkeep.2.2.trans (cached_reconcile settings stores t)

end PriceService
end TickerWatch
