import TickerWatch.PriceService.Provenance

/-!
# Switching to the vendor

A start of the vendor over simulated rows deletes the rows and then flushes the cached prices, "a
cached simulated price would otherwise win the guard against the real one".  The delete is committed
before the flush begins, and a start that finds no simulated rows does not flush.  So whatever the
first start that gets past the delete leaves of the cached prices stays (`get?_attemptAll`), and a
completed start leaves no simulated price exactly when that start flushed them all
(`switch_clean_iff`).
-/

namespace TickerWatch

universe u

variable {P : Type u}

namespace PriceService

/-- One attempt to start: it fails before it deletes, it is cut off later, or it runs to its end,
which is a running service or the `RuntimeError` of an empty catalog. -/
inductive StartAttempt
  | notReached
  | cutOff (settings : Settings) (read : CatalogRead) (cut : StartCut)
  | ran (settings : Settings) (read : CatalogRead)

namespace StartAttempt

/-- The attempt has `PRICE_SOURCE=api`. -/
def IsApi : StartAttempt → Prop
  | notReached => True
  | cutOff settings _ _ => settings.priceSource = .api
  | ran settings _ => settings.priceSource = .api

/-- What an attempt leaves in the stores. -/
def leaves (stores : Stores P) : StartAttempt → Stores P
  | notReached => stores
  | cutOff settings read cut => cutStart settings stores read cut
  | ran settings read => (start settings stores read).1

/-- The cached prices an attempt that wipes rows flushes; `none` when it does not get there. -/
def flushes : StartAttempt → Option (String → Bool)
  | notReached => none
  | cutOff _ _ (.flushing flushed) => some flushed
  | cutOff _ _ (.warming _) => some fun _ => true
  | ran _ _ => some fun _ => true

end StartAttempt

/-- What the first attempt that gets past the delete flushes. -/
def firstFlush (attempts : List StartAttempt) : Option (String → Bool) :=
  attempts.findSome? StartAttempt.flushes

/-- What a sequence of attempts leaves. -/
def attemptAll (stores : Stores P) (attempts : List StartAttempt) : Stores P :=
  attempts.foldl StartAttempt.leaves stores

/-- No row and no cached price is labelled as simulated. -/
def NoSimulated (stores : Stores P) : Prop :=
  (∀ id row, Dict.get? stores.latestPrices id = some row → row.source ≠ "simulated") ∧
    ∀ key e, Dict.get? stores.redis key = some e → isPriceKey key = true →
      e.payload.source ≠ some "simulated"

variable {stores : Stores P} {a : StartAttempt} {attempts : List StartAttempt} {settings : Settings}
  {read : CatalogRead}

/-! ## One attempt -/

lemma redis_warm_nil {tbl : LatestPrices P} (h : tbl.entries = []) (c : Catalog)
    (svc : PriceService P) (r : Redis P) (n : ℕ) :
    (svc.warm r ((tbl.allWithTickers c).take n)).2 = r ∧
      (svc.warm r (tbl.allWithTickers c)).2 = r := by
  have hnil : tbl.allWithTickers c = [] := by
    rw [LatestPrices.allWithTickers, h]
    rfl
  rw [hnil, List.take_nil]
  exact ⟨rfl, rfl⟩

/-- The cache a start leaves when no rows are left to warm it from. -/
lemma redis_start (h : (reconcileSource stores.latestPrices settings.priceSource).1.entries = []) :
    (start settings stores read).1.redis = ((new settings).reconcile stores).2.redis := by
  unfold start syncCatalog
  dsimp only
  split
  · rfl
  · exact (redis_warm_nil h _ _ _ 0).2

lemma redis_cutStart_warming (n : ℕ)
    (h : (reconcileSource stores.latestPrices settings.priceSource).1.entries = []) :
    (cutStart settings stores read (.warming n)).redis =
      ((new settings).reconcile stores).2.redis := (redis_warm_nil h _ _ _ n).1

/-- Over an empty table an attempt does nothing to rows or cached prices. -/
lemma leaves_of_empty (ha : a.IsApi) (h : stores.latestPrices.entries = []) :
    (a.leaves stores).latestPrices = stores.latestPrices ∧
      (a.leaves stores).redis = stores.redis := by
  have hare : stores.latestPrices.SourcesAre .api := by
    intro id row hrow
    rw [Dict.get?_eq_some_iff, h] at hrow
    exact absurd hrow List.not_mem_nil
  -- no row has another source, so there is nothing to reconcile
  have hclean := reconcileSource_of_sourcesAre hare
  have hredis : ∀ settings : Settings, settings.priceSource = .api →
      ((new settings).reconcile stores).2.redis = stores.redis := by
    intro settings hapi
    have hsource : (new settings : PriceService P).settings.priceSource = .api := hapi
    unfold reconcile
    dsimp only
    rw [hsource, hclean]
    rfl
  cases a with
  | notReached => exact ⟨rfl, rfl⟩
  | ran settings read =>
    have hapi : settings.priceSource = .api := ha
    refine ⟨?_, ?_⟩
    · rw [StartAttempt.leaves, latestPrices_start, hapi, hclean]
    · rw [StartAttempt.leaves, redis_start (by rw [hapi, hclean]; exact h), hredis settings hapi]
  -- nor is there a row to warm the cache from
  | cutOff settings read cut =>
    have hapi : settings.priceSource = .api := ha
    refine ⟨?_, ?_⟩
    · rw [StartAttempt.leaves, latestPrices_cutStart, hapi, hclean]
    · cases cut with
      | warming n =>
        rw [StartAttempt.leaves, redis_cutStart_warming n (by rw [hapi, hclean]; exact h),
          hredis settings hapi]
      | flushing flushed =>
        unfold StartAttempt.leaves cutStart
        dsimp only
        rw [hapi, hclean]
        rfl

lemma reconcileSource_wipes {tbl : LatestPrices P} (h : tbl.SourcesAre .simulated)
    (hne : tbl.entries ≠ []) : (reconcileSource tbl .api).1.entries = [] ∧
      (reconcileSource tbl .api).2.action = .wipedSimulated := by
  have hnot : ¬ tbl.SourcesAre .api := by
    intro hapi
    obtain ⟨⟨id, row⟩, hmem⟩ := List.exists_mem_of_ne_nil _ hne
    have hrow := Dict.get?_eq_some_iff.2 hmem
    exact absurd ((h id row hrow).symm.trans (hapi id row hrow)) (by decide)
  rw [reconcileSource_api hnot]
  refine ⟨?_, rfl⟩
  refine List.filter_eq_nil_iff.2 fun e he => ?_
  have hsource := h e.1 e.2 (Dict.get?_eq_some_iff.2 he)
  simp [hsource, PriceSource.name]

/-- Over simulated rows an attempt that gets past the delete empties the table and flushes what it
flushes. -/
lemma leaves_of_simulated (ha : a.IsApi) (h : stores.latestPrices.SourcesAre .simulated)
    (hne : stores.latestPrices.entries ≠ []) {flushed : String → Bool}
    (hflush : a.flushes = some flushed) :
    (a.leaves stores).latestPrices.entries = [] ∧
      ∀ key, Dict.get? (a.leaves stores).redis key =
        (Dict.get? stores.redis key).filter fun _ => !(isPriceKey key && flushed key) := by
  -- rows of the simulation are wiped, and the price keys with them
  obtain ⟨hempty, hwiped⟩ := reconcileSource_wipes h hne
  have hredis : ∀ settings : Settings, settings.priceSource = .api → ∀ key,
      Dict.get? ((new settings).reconcile stores).2.redis key =
        (Dict.get? stores.redis key).filter fun _ => !(isPriceKey key && true) := by
    intro settings hapi key
    have hsource : (new settings : PriceService P).settings.priceSource = .api := hapi
    unfold reconcile
    dsimp only
    rw [hsource, if_pos hwiped, Redis.flushPrices, Dict.get?_filter]
    simp only [Bool.and_true]
  cases a with
  | notReached => exact absurd hflush (by simp [StartAttempt.flushes])
  | ran settings read =>
    have hapi : settings.priceSource = .api := ha
    obtain rfl := Option.some.inj hflush
    refine ⟨?_, fun key => ?_⟩
    · rw [StartAttempt.leaves, latestPrices_start, hapi]
      exact hempty
    · rw [StartAttempt.leaves, redis_start (by rw [hapi]; exact hempty), hredis settings hapi]
  -- the rows go in one statement, before the first key is dropped
  | cutOff settings read cut =>
    have hapi : settings.priceSource = .api := ha
    refine ⟨?_, fun key => ?_⟩
    · rw [StartAttempt.leaves, latestPrices_cutStart, hapi]
      exact hempty
    · cases cut with
      | warming n =>
        obtain rfl := Option.some.inj hflush
        rw [StartAttempt.leaves, redis_cutStart_warming n (by rw [hapi]; exact hempty),
          hredis settings hapi]
      -- the process died while it dropped the keys
      | flushing flushed' =>
        obtain rfl := Option.some.inj hflush
        unfold StartAttempt.leaves cutStart
        dsimp only
        rw [hapi, if_pos hwiped, Dict.get?_filter]

lemma leaves_of_flushes_none (h : a.flushes = none) : a.leaves stores = stores := by
  cases a with
  | notReached => rfl
  | ran settings read => exact absurd h (by simp [StartAttempt.flushes])
  | cutOff settings read cut => cases cut <;> exact absurd h (by simp [StartAttempt.flushes])

/-! ## A sequence of attempts -/

lemma attemptAll_of_empty (ha : ∀ a ∈ attempts, a.IsApi) (h : stores.latestPrices.entries = []) :
    (attemptAll stores attempts).latestPrices = stores.latestPrices ∧
      (attemptAll stores attempts).redis = stores.redis := by
  induction attempts generalizing stores with
  | nil => exact ⟨rfl, rfl⟩
  | cons a attempts ih =>
    obtain ⟨hrows, hredis⟩ := leaves_of_empty (ha a List.mem_cons_self) h
    have hempty : (a.leaves stores).latestPrices.entries = [] := by
      rw [hrows]
      exact h
    have hrest := ih (fun b hb => ha b (List.mem_cons_of_mem _ hb)) hempty
    rw [hrows, hredis] at hrest
    exact hrest

/-- **The first attempt that gets past the delete decides what stays cached.** -/
lemma get?_attemptAll (ha : ∀ a ∈ attempts, a.IsApi)
    (h : stores.latestPrices.SourcesAre .simulated) (hne : stores.latestPrices.entries ≠ [])
    {flushed : String → Bool} (hflush : firstFlush attempts = some flushed) :
    (attemptAll stores attempts).latestPrices.entries = [] ∧
      ∀ key, Dict.get? (attemptAll stores attempts).redis key =
        (Dict.get? stores.redis key).filter fun _ => !(isPriceKey key && flushed key) := by
  induction attempts with
  | nil => exact absurd hflush (by simp [firstFlush])
  | cons a attempts ih =>
    have hrest : ∀ b ∈ attempts, b.IsApi := fun b hb => ha b (List.mem_cons_of_mem _ hb)
    have hcons : attemptAll stores (a :: attempts) = attemptAll (a.leaves stores) attempts := rfl
    rw [hcons]
    cases hf : a.flushes with
    | none =>
      rw [leaves_of_flushes_none hf]
      refine ih hrest ?_
      rwa [firstFlush, List.findSome?_cons, hf] at hflush
    | some flushed' =>
      rw [firstFlush, List.findSome?_cons, hf] at hflush
      obtain rfl := Option.some.inj hflush
      obtain ⟨hempty, hkeys⟩ := leaves_of_simulated (ha a List.mem_cons_self) h hne hf
      obtain ⟨hrows, hredis⟩ := attemptAll_of_empty hrest hempty
      rw [hrows, hredis]
      exact ⟨hempty, hkeys⟩

/-- **The switch is clean exactly when the first attempt past the delete flushed every simulated
price.**  Take any table of simulated rows, any cache, and any sequence of attempts to start the
vendor of which the last completes.  Then no row and no cached price is labelled as simulated, if
and only if, for each cached price that was, there were rows to delete and the first attempt that
deleted them flushed its key. -/
theorem switch_clean_iff (hapi : settings.priceSource = .api) (hattempts : ∀ a ∈ attempts, a.IsApi)
    (hrows : stores.latestPrices.SourcesAre .simulated) {stores' : Stores P} {svc : PriceService P}
    (hstart : start settings (attemptAll stores attempts) read = (stores', some svc)) :
    NoSimulated stores' ↔ ∀ key e, Dict.get? stores.redis key = some e → isPriceKey key = true →
      e.payload.source = some "simulated" → stores.latestPrices.entries ≠ [] ∧
        ∀ flushed, firstFlush attempts = some flushed → flushed key = true := by
  -- the start that completes is one more attempt, which flushes everything if none did before
  have hall : ∀ a ∈ attempts ++ [.ran settings read], a.IsApi := by
    intro a ha
    rcases List.mem_append.1 ha with ha | ha
    · exact hattempts a ha
    · obtain rfl := List.mem_singleton.1 ha
      exact hapi
  have hlast : attemptAll stores (attempts ++ [.ran settings read]) = stores' := by
    rw [attemptAll, List.foldl_append]
    exact congrArg Prod.fst hstart
  have hfirst : firstFlush (attempts ++ [.ran settings read]) =
      some ((firstFlush attempts).getD fun _ => true) := by
    rw [firstFlush, List.findSome?_append]
    cases hf : attempts.findSome? StartAttempt.flushes with
    | none => rw [Option.none_or, firstFlush, hf]; rfl
    | some flushed => rw [Option.some_or, firstFlush, hf]; rfl
  have hkey : ∀ key, (∀ flushed, firstFlush attempts = some flushed → flushed key = true) ↔
      (firstFlush attempts).getD (fun _ => true) key = true := by
    intro key
    cases firstFlush attempts <;> simp
  by_cases hempty : stores.latestPrices.entries = []
  · obtain ⟨htable, hredis⟩ := attemptAll_of_empty hall hempty
    rw [hlast] at htable hredis
    rw [NoSimulated, htable, hredis]
    constructor
    · exact fun h key e he hprice hsim => absurd hsim (h.2 key e he hprice)
    · refine fun h => ⟨fun id row hrow => ?_, fun key e he hprice hsim => ?_⟩
      · rw [Dict.get?_eq_some_iff, hempty] at hrow
        exact absurd hrow List.not_mem_nil
      · exact (h key e he hprice hsim).1 hempty
  · obtain ⟨htable, hredis⟩ := get?_attemptAll hall hrows hempty hfirst
    rw [hlast] at htable hredis
    simp only [hkey]
    constructor
    · intro h key e he hprice hsim
      refine ⟨hempty, ?_⟩
      by_contra hkept
      refine h.2 key e ?_ hprice hsim
      rw [hredis, he, Option.filter_some_pos (by simp [hkept])]
    · refine fun h => ⟨fun id row hrow => ?_, fun key e he hprice hsim => ?_⟩
      · rw [Dict.get?_eq_some_iff, htable] at hrow
        exact absurd hrow List.not_mem_nil
      · rw [hredis, Option.filter_eq_some_iff] at he
        obtain ⟨-, hflushed⟩ := h key e he.1 hprice hsim
        simp [hprice, hflushed] at he

/-- What a simulated run leaves: one row and its cached price. -/
def simulatedStores : Stores ℕ :=
  (soloService.tick soloStores (soloTick firstReading 101 .ok .ok (.replied fun _ => false))).stores

lemma sourcesAre_simulatedStores : simulatedStores.latestPrices.SourcesAre .simulated := by
  intro id row hrow
  have hentries : (simulatedStores.latestPrices.entries.all fun e =>
      decide (e.2.source = PriceSource.simulated.name)) = true := by
    decide +kernel
  simpa using List.all_eq_true.1 hentries (id, row) (Dict.get?_eq_some_iff.1 hrow)

/-- An uninterrupted start over what a simulated run left is clean. -/
theorem switch_clean_uninterrupted : ∃ (stores' : Stores ℕ) (svc : PriceService ℕ),
    start Ledger.vendorSettings (attemptAll simulatedStores []) soloRead = (stores', some svc) ∧
    NoSimulated stores' := by
  have hsome : (start Ledger.vendorSettings (attemptAll simulatedStores []) soloRead).2.isSome =
      true := by
    decide +kernel
  obtain ⟨svc, hsvc⟩ := Option.isSome_iff_exists.1 hsome
  have hrows : simulatedStores.latestPrices.entries ≠ [] := by decide +kernel
  refine ⟨_, svc, Prod.ext rfl hsvc, (switch_clean_iff rfl (fun a ha => absurd ha List.not_mem_nil)
    sourcesAre_simulatedStores (Prod.ext rfl hsvc)).2 fun key e _ _ _ => ⟨hrows, ?_⟩⟩
  exact fun flushed hflush => absurd hflush (by simp [firstFlush])

/-- A start that deletes the rows and does not get to the flush. -/
def flushLost : StartAttempt := .cutOff Ledger.vendorSettings soloRead (.flushing fun _ => false)

/-- **A start that dies before the flush leaves the simulated price.**  The next one finds no row to
wipe and completes without flushing. -/
theorem simulated_price_survives : ∃ (stores' : Stores ℕ) (svc : PriceService ℕ),
    simulatedStores.latestPrices.SourcesAre .simulated ∧ flushLost.IsApi ∧
    start Ledger.vendorSettings (attemptAll simulatedStores [flushLost]) soloRead =
      (stores', some svc) ∧
    (stores'.redis.cached "AAPL").bind CachedPrice.source = some "simulated" ∧
    ¬ NoSimulated stores' := by
  have hsome : (start Ledger.vendorSettings (attemptAll simulatedStores [flushLost])
      soloRead).2.isSome = true := by
    decide +kernel
  have hsource : ((start Ledger.vendorSettings (attemptAll simulatedStores [flushLost])
      soloRead).1.redis.cached "AAPL").bind CachedPrice.source = some "simulated" := by
    decide +kernel
  obtain ⟨svc, hsvc⟩ := Option.isSome_iff_exists.1 hsome
  refine ⟨_, svc, sourcesAre_simulatedStores, rfl, Prod.ext rfl hsvc, hsource, fun hclean => ?_⟩
  obtain ⟨c, hc, hsim⟩ := Option.bind_eq_some_iff.1 hsource
  obtain ⟨e, he, rfl⟩ := Option.map_eq_some_iff.1 hc
  exact hclean.2 _ e he (isPriceKey_priceKey _) hsim

end PriceService
end TickerWatch
