import TickerWatch.Prices.Handler

/-!
# What a reconciliation does

The two directions differ: the vendor wipes what the simulator wrote, the simulator adopts what the
vendor wrote.  Over a table whose sources are these two, either leaves rows of the configured source
only, with the prices and stamps they had, reports how many rows it touched, and finds nothing to do
when it runs again.
-/

namespace TickerWatch

universe u

variable {P : Type u} {tbl : LatestPrices P} {id : SecurityId}

/-- A table has no foreign source exactly when all its rows carry the configured one. -/
lemma foreign_eq_nil_iff {configured : PriceSource} :
    (tbl.distinctSources.filter fun source => decide (source ≠ configured.name)) = [] ↔
      tbl.SourcesAre configured := by
  rw [List.filter_eq_nil_iff]
  constructor
  · intro h id row hrow
    have := h row.source (LatestPrices.mem_distinctSources.2 ⟨id, row, hrow, rfl⟩)
    simpa using this
  · intro h source hsource
    obtain ⟨id, row, hrow, rfl⟩ := LatestPrices.mem_distinctSources.1 hsource
    simp [h id row hrow]

lemma reconcileSource_of_sourcesAre {configured : PriceSource} (h : tbl.SourcesAre configured) :
    reconcileSource tbl configured = (tbl, ⟨.clean, 0⟩) := by
  unfold reconcileSource
  exact if_pos (foreign_eq_nil_iff.2 h)

/-- Starting the vendor over anything else deletes what the simulator wrote. -/
lemma reconcileSource_api (h : ¬ tbl.SourcesAre .api) :
    reconcileSource tbl .api =
      ((tbl.deleteBySource "simulated").1,
        ⟨.wipedSimulated, (tbl.deleteBySource "simulated").2⟩) := by
  unfold reconcileSource
  exact (if_neg fun hnil => h (foreign_eq_nil_iff.1 hnil)).trans (if_pos rfl)

/-- Starting the simulator over anything else relabels what the vendor wrote. -/
lemma reconcileSource_simulated (h : ¬ tbl.SourcesAre .simulated) :
    reconcileSource tbl .simulated =
      ((tbl.relabelSource "api" "simulated").1,
        ⟨.adoptedApi, (tbl.relabelSource "api" "simulated").2⟩) := by
  unfold reconcileSource
  exact (if_neg fun hnil => h (foreign_eq_nil_iff.1 hnil)).trans (if_neg (by decide))

/-- **A switch to the vendor keeps exactly the vendor's rows.** -/
theorem get?_reconcileSource_api (h : tbl.SourcesKnown) (id : SecurityId) :
    Dict.get? (reconcileSource tbl .api).1 id =
      (Dict.get? tbl id).filter fun row => decide (row.source = "api") := by
  by_cases hare : tbl.SourcesAre .api
  · rw [reconcileSource_of_sourcesAre hare]
    cases hrow : Dict.get? tbl id with
    | none => rfl
    | some row =>
      have hsource : row.source = "api" := hare id row hrow
      rw [Option.filter_some_pos (by simpa using hsource)]
  · rw [reconcileSource_api hare, LatestPrices.get?_deleteBySource]
    cases hrow : Dict.get? tbl id with
    | none => rfl
    | some row => rcases h id row hrow with hs | hs <;> simp [hs, Option.filter]

/-- **A switch to the simulator keeps every row**, under the simulator's label. -/
theorem get?_reconcileSource_simulated (h : tbl.SourcesKnown) (id : SecurityId) :
    Dict.get? (reconcileSource tbl .simulated).1 id =
      (Dict.get? tbl id).map fun row => { row with source := "simulated" } := by
  by_cases hare : tbl.SourcesAre .simulated
  · rw [reconcileSource_of_sourcesAre hare]
    cases hrow : Dict.get? tbl id with
    | none => rfl
    | some row =>
      obtain ⟨price, effectiveAt, source⟩ := row
      obtain rfl : source = "simulated" := hare id _ hrow
      rfl
  · rw [reconcileSource_simulated hare, LatestPrices.get?_relabelSource]
    cases hrow : Dict.get? tbl id with
    | none => rfl
    | some row =>
      obtain ⟨price, effectiveAt, source⟩ := row
      rcases h id _ hrow with hs | hs
      · obtain rfl : source = "api" := hs
        rfl
      · obtain rfl : source = "simulated" := hs
        rfl

/-- A row that survives has the price and the stamp it had. -/
lemma exists_of_get?_reconcileSource {configured : PriceSource} {row : LatestPrice P}
    (h : Dict.get? (reconcileSource tbl configured).1 id = some row) :
    ∃ row', Dict.get? tbl id = some row' ∧ row'.price = row.price ∧
      row'.effectiveAt = row.effectiveAt := by
  unfold reconcileSource at h
  dsimp only at h
  split at h
  · exact ⟨row, h, rfl, rfl⟩
  · split at h
    · rw [LatestPrices.get?_deleteBySource, Option.filter_eq_some_iff] at h
      exact ⟨row, h.1, rfl, rfl⟩
    · rw [LatestPrices.get?_relabelSource, Option.map_eq_some_iff] at h
      obtain ⟨row', hrow', rfl⟩ := h
      refine ⟨row', hrow', ?_, ?_⟩ <;> split <;> rfl

lemma length_changed_of {f : LatestPrices P} {q : LatestPrice P → Prop} [DecidablePred q]
    [DecidableEq P] (h : ∀ id row, Dict.get? tbl id = some row →
      (Dict.get? f id ≠ Dict.get? tbl id ↔ q row)) :
    (tbl.keys.filter fun id => decide (Dict.get? f id ≠ Dict.get? tbl id)).length =
      (Dict.filter (fun _ row => decide (q row)) tbl).size := by
  have hfilter : (tbl.entries.filter fun e => decide (Dict.get? f e.1 ≠ Dict.get? tbl e.1)) =
      tbl.entries.filter fun e => decide (q e.2) := by
    refine List.filter_congr fun e he => ?_
    exact decide_eq_decide.2 (h e.1 e.2 (Dict.get?_eq_some_iff.2 he))
  rw [Dict.keys, List.filter_map, List.length_map]
  exact congrArg List.length hfilter

/-- **The reported count is the number of rows deleted or relabelled.** -/
theorem rows_reconcileSource [DecidableEq P] (h : tbl.SourcesKnown) (configured : PriceSource) :
    (tbl.keys.filter fun id => decide (Dict.get? (reconcileSource tbl configured).1 id ≠
      Dict.get? tbl id)).length = (reconcileSource tbl configured).2.rows := by
  by_cases hare : tbl.SourcesAre configured
  · rw [reconcileSource_of_sourcesAre hare]
    simp
  · cases configured with
    | api =>
      have hrows : (reconcileSource tbl .api).2.rows = (tbl.deleteBySource "simulated").2 := by
        rw [reconcileSource_api hare]
      rw [hrows, LatestPrices.deleteBySource]
      refine length_changed_of fun id row hrow => ?_
      rw [get?_reconcileSource_api h, hrow]
      rcases h id row hrow with hs | hs <;> simp [hs, Option.filter]
    | simulated =>
      have hrows : (reconcileSource tbl .simulated).2.rows =
          (tbl.relabelSource "api" "simulated").2 := by
        rw [reconcileSource_simulated hare]
      rw [hrows, LatestPrices.relabelSource]
      refine length_changed_of fun id row hrow => ?_
      rw [get?_reconcileSource_simulated h, hrow]
      obtain ⟨price, effectiveAt, source⟩ := row
      rcases h id _ hrow with hs | hs
      · obtain rfl : source = "api" := hs
        simp
      · obtain rfl : source = "simulated" := hs
        simp

/-- **A second reconciliation finds nothing to do.** -/
theorem reconcileSource_again (h : tbl.SourcesKnown) (configured : PriceSource) :
    reconcileSource (reconcileSource tbl configured).1 configured =
      ((reconcileSource tbl configured).1, ⟨.clean, 0⟩) :=
  reconcileSource_of_sourcesAre (reconcileSource_sourcesAre h configured)

end TickerWatch
