import TickerWatch.Prices.Controller
import TickerWatch.Shared.Cache

/-!
# The two guards pick the same winner

Redis compares texts and accepts ties; Postgres compares timestamps and rejects ties.  Both are
guarded registers, and `toIso` embeds the one order in the other, so stores that were offered the
same writes hold the same price however each ordered, repeated and grouped them.
-/

namespace TickerWatch

universe u

/-- One price write, before it is given the form either store takes: the upsert has the stamp as a
timestamp, and the compare-and-set has it as ISO text. -/
structure PriceWrite (P : Type u) where
  ticker : Ticker
  price : P
  effectiveAt : Instant
  source : String
  deriving DecidableEq

/-- What a reader of either store gets: the price, its stamp as text, and its source. -/
structure StoredPrice (P : Type u) where
  price : P
  effectiveAt : String
  source : Option String
  deriving DecidableEq

section

variable {P : Type u}

/-- The entry a cached payload stands for. -/
def CachedPrice.stored (c : CachedPrice P) : StoredPrice P := ⟨c.price, c.effectiveAt, c.source⟩

/-- The entry a `latest_prices` row stands for. -/
def LatestPrice.stored (r : LatestPrice P) : StoredPrice P :=
  ⟨r.price, toIso r.effectiveAt, some r.source⟩

namespace PriceWrite

/-- The entry a write leaves in a store that takes it. -/
def stored (w : PriceWrite P) : StoredPrice P := ⟨w.price, toIso w.effectiveAt, some w.source⟩

/-- The payload the price service builds for the cache. -/
def payload (idOf : Ticker → SecurityId) (w : PriceWrite P) : CachedPrice P :=
  ⟨idOf w.ticker, w.price, toIso w.effectiveAt, some w.source⟩

/-- The row the price service builds for `latest_prices`. -/
def row (idOf : Ticker → SecurityId) (w : PriceWrite P) : SecurityId × LatestPrice P :=
  (idOf w.ticker, ⟨w.price, w.effectiveAt, w.source⟩)

/-- `w` is the write of the collection with the greatest stamp for its ticker. -/
def Newest (ws : List (PriceWrite P)) (w : PriceWrite P) : Prop :=
  w ∈ ws ∧ ∀ w' ∈ ws, w'.ticker = w.ticker → w'.effectiveAt ≤ w.effectiveAt

/-- The stamps of one ticker are pairwise distinct. -/
def StampsDistinct (ws : List (PriceWrite P)) : Prop :=
  ∀ w ∈ ws, ∀ w' ∈ ws, w.ticker = w'.ticker → w.effectiveAt = w'.effectiveAt → w = w'

end PriceWrite

/-- One call of a guarded cache writer. -/
inductive CacheCall (P : Type u)
  | setPriceIfNewer (w : PriceWrite P)
  | setPricesIfNewer (ws : List (PriceWrite P))

namespace CacheCall

/-- The writes a call carries. -/
def writes : CacheCall P → List (PriceWrite P)
  | .setPriceIfNewer w => [w]
  | .setPricesIfNewer ws => ws

variable (idOf : Ticker → SecurityId) (ttl : ℤ)

/-- The store after a call. -/
def run (r : Redis P) : CacheCall P → Redis P
  | .setPriceIfNewer w =>
    (r.setPriceIfNewer w.ticker (w.payload idOf) (toIso w.effectiveAt) ttl).1
  | .setPricesIfNewer ws =>
    (r.setPricesIfNewer
      (ws.map fun w => (w.ticker, w.payload idOf, toIso w.effectiveAt)) ttl).1

/-- The store after a sequence of calls. -/
def runAll (r : Redis P) (calls : List (CacheCall P)) : Redis P := calls.foldl (run idOf ttl) r

variable {idOf ttl}

/-- A call offers to each ticker the writes it carries for it. -/
lemma register_run (r : Redis P) (call : CacheCall P) (t : Ticker) :
    (run idOf ttl r call).register t = Register.offerAll .accept (r.register t)
      ((call.writes.filter fun w => decide (w.ticker = t)).map fun w =>
        (toIso w.effectiveAt, w.payload idOf)) := by
  cases call with
  | setPriceIfNewer w =>
    have h := Redis.register_setPriceIfNewer r w.ticker t (w.payload idOf) ttl
    have hstamp : (w.payload idOf).effectiveAt = toIso w.effectiveAt := rfl
    rw [hstamp] at h
    by_cases ht : w.ticker = t
    · rw [if_pos ht] at h
      simpa [run, writes, ht] using h
    · rw [if_neg ht] at h
      simpa [run, writes, ht] using h
  | setPricesIfNewer ws =>
    have h := Redis.register_setPricesIfNewer r (ws.map fun w => (w.ticker, w.payload idOf)) ttl t
    rw [List.map_map, List.filter_map, List.map_map] at h
    exact h

/-- So does a sequence of calls: the grouping does not matter. -/
lemma register_runAll (r : Redis P) (calls : List (CacheCall P)) (t : Ticker) :
    (runAll idOf ttl r calls).register t = Register.offerAll .accept (r.register t)
      (((calls.flatMap writes).filter fun w => decide (w.ticker = t)).map fun w =>
        (toIso w.effectiveAt, w.payload idOf)) := by
  induction calls generalizing r with
  | nil => rfl
  | cons call calls ih =>
    rw [runAll, List.foldl_cons, ← runAll, ih, register_run, List.flatMap_cons, List.filter_append,
      List.map_append, Register.offerAll_append]

end CacheCall

/-- The table after a sequence of `upsert_many` calls; `none` when one of them is refused. -/
def upsertBatches (idOf : Ticker → SecurityId) (tbl : LatestPrices P)
    (batches : List (List (PriceWrite P))) : Option (LatestPrices P) :=
  batches.foldlM (fun tbl b => tbl.upsertMany (b.map (PriceWrite.row idOf))) tbl

variable {idOf : Ticker → SecurityId} {ttl : ℤ}

/-- **No cache call takes a stamp back**, in any state of the cache. -/
theorem CacheCall.stampLe_run (r : Redis P) (call : CacheCall P) (t : Ticker) :
    Register.StampLe ((r.cached t).map CachedPrice.effectiveAt)
      (((call.run idOf ttl r).cached t).map CachedPrice.effectiveAt) := by
  have hreg : ∀ r : Redis P, (r.cached t).map CachedPrice.effectiveAt =
      (r.register t).map Prod.fst := by
    intro r
    simp [Redis.register, Function.comp_def]
  rw [hreg, hreg, register_run]
  exact Register.stampLe_offerAll _ _ _

/-- **No upsert takes a stamp back**, in any state of the table. -/
theorem LatestPrices.stampLe_upsertMany {tbl tbl' : LatestPrices P}
    {rows : List (SecurityId × LatestPrice P)} (h : tbl.upsertMany rows = some tbl')
    (id : SecurityId) :
    Register.StampLe ((Dict.get? tbl id).map LatestPrice.effectiveAt)
      ((Dict.get? tbl' id).map LatestPrice.effectiveAt) := by
  have hreg : ∀ tbl : LatestPrices P, (Dict.get? tbl id).map LatestPrice.effectiveAt =
      (tbl.register id).map Prod.fst := by
    intro tbl
    simp [LatestPrices.register, Function.comp_def]
  rw [hreg, hreg, LatestPrices.register_upsertMany h]
  exact Register.stampLe_offerAll _ _ _

/-! ## The winner in each store -/

/-- The writes of one ticker, in the form a store is offered them. -/
lemma mem_offered {τ ν : Type*} {ws : List (PriceWrite P)} {t : Ticker} {key : PriceWrite P → τ}
    {val : PriceWrite P → ν} {x : τ × ν} :
    x ∈ (ws.filter fun w => decide (w.ticker = t)).map (fun w => (key w, val w)) ↔
      ∃ w ∈ ws, w.ticker = t ∧ (key w, val w) = x := by
  simp only [List.mem_map, List.mem_filter, decide_eq_true_eq, and_assoc]

/-- An empty store that was offered writes of a ticker, under a stamp that embeds time, holds the
newest of them. -/
lemma offerAll_newest {τ : Type} [LinearOrder τ] {ν : Type u} {ws : List (PriceWrite P)}
    (ties : Ties) (hdistinct : PriceWrite.StampsDistinct ws) {key : Instant → τ}
    (hkey : ∀ a b, key a ≤ key b ↔ a ≤ b) (val : PriceWrite P → ν) {w : PriceWrite P}
    (hw : PriceWrite.Newest ws w) :
    Register.offerAll ties none ((ws.filter fun w' => decide (w'.ticker = w.ticker)).map
      fun w' => (key w'.effectiveAt, val w')) = some (key w.effectiveAt, val w) := by
  have hinj : ∀ a b, key a = key b → a = b := fun a b h =>
    le_antisymm ((hkey a b).1 h.le) ((hkey b a).1 h.ge)
  rw [Register.offerAll_eq_some_iff]
  · refine ⟨mem_offered.2 ⟨w, hw.1, rfl, rfl⟩, ?_⟩
    intro x hx
    obtain ⟨w', hw', ht, rfl⟩ := mem_offered.1 hx
    exact (hkey _ _).2 (hw.2 w' hw' ht)
  · intro x hx y hy hxy
    obtain ⟨w₁, hw₁, ht₁, rfl⟩ := mem_offered.1 hx
    obtain ⟨w₂, hw₂, ht₂, rfl⟩ := mem_offered.1 hy
    rw [hdistinct w₁ hw₁ w₂ hw₂ (ht₁.trans ht₂.symm) (hinj _ _ hxy)]

lemma offerAll_noWrite {τ : Type} [LinearOrder τ] {ν : Type u} {ws : List (PriceWrite P)}
    {t : Ticker} (ties : Ties) (key : Instant → τ) (val : PriceWrite P → ν)
    (hnone : ∀ w ∈ ws, w.ticker ≠ t) :
    Register.offerAll ties none ((ws.filter fun w => decide (w.ticker = t)).map
      fun w => (key w.effectiveAt, val w)) = none := by
  rw [Register.offerAll_eq_none_iff, List.map_eq_nil_iff, List.filter_eq_nil_iff]
  intro w hw
  simpa using hnone w hw

lemma PriceWrite.Newest.congr {ws ws' : List (PriceWrite P)} {w : PriceWrite P}
    (h : PriceWrite.Newest ws w) (hmem : ∀ w, w ∈ ws' ↔ w ∈ ws) : PriceWrite.Newest ws' w :=
  ⟨(hmem w).2 h.1, fun w' hw' => h.2 w' ((hmem w').1 hw')⟩

lemma PriceWrite.StampsDistinct.congr {ws ws' : List (PriceWrite P)}
    (h : PriceWrite.StampsDistinct ws) (hmem : ∀ w, w ∈ ws' ↔ w ∈ ws) :
    PriceWrite.StampsDistinct ws' :=
  fun w hw w' hw' => h w ((hmem w).1 hw) w' ((hmem w').1 hw')

lemma PriceWrite.exists_newest {ws : List (PriceWrite P)} {w : PriceWrite P} (hw : w ∈ ws) :
    ∃ w', PriceWrite.Newest ws w' ∧ w'.ticker = w.ticker := by
  have hoffer : (w.effectiveAt, w) ∈ (ws.filter fun w' => decide (w'.ticker = w.ticker)).map
      fun w' => (w'.effectiveAt, w') := mem_offered.2 ⟨w, hw, rfl, rfl⟩
  obtain ⟨out, hout⟩ := Register.offerAll_isSome (t := .reject) (r := none)
    (List.ne_nil_of_mem hoffer)
  obtain ⟨hmem, hmax, -⟩ := Register.offerAll_spec _ _ hout
  obtain ⟨w', hw', ht, rfl⟩ := mem_offered.1 (hmem.resolve_right (by simp))
  refine ⟨w', ⟨hw', ?_⟩, ht⟩
  intro w'' hw'' ht''
  exact hmax _ (mem_offered.2 ⟨w'', hw'', ht''.trans ht, rfl⟩)

/-- The cache after calls that carry exactly the writes of a collection. -/
lemma cached_runAll_newest {ws : List (PriceWrite P)} (hdistinct : PriceWrite.StampsDistinct ws)
    {calls : List (CacheCall P)} (hcalls : ∀ w, w ∈ calls.flatMap CacheCall.writes ↔ w ∈ ws)
    {w : PriceWrite P} (hw : PriceWrite.Newest ws w) :
    (CacheCall.runAll idOf ttl Dict.empty calls).cached w.ticker = some (w.payload idOf) := by
  rw [Redis.cached_eq_map_register, CacheCall.register_runAll]
  have hempty : Redis.register (Dict.empty : Redis P) w.ticker = none := rfl
  rw [hempty, offerAll_newest .accept (hdistinct.congr hcalls) (fun _ _ => toIso_le_iff)
    (PriceWrite.payload idOf) (hw.congr hcalls)]
  rfl

/-- Upserts of batches that name each security once all succeed, and offer each security its
rows. -/
lemma register_upsertBatches (tbl : LatestPrices P) {batches : List (List (PriceWrite P))}
    (honce : ∀ b ∈ batches, (b.map fun w => idOf w.ticker).Nodup) :
    ∃ tbl', upsertBatches idOf tbl batches = some tbl' ∧ ∀ id, tbl'.register id =
      Register.offerAll .reject (tbl.register id)
        ((batches.flatten.filter fun w => decide (idOf w.ticker = id)).map fun w =>
          (w.effectiveAt, (w.row idOf).2)) := by
  induction batches generalizing tbl with
  | nil => exact ⟨tbl, rfl, fun id => rfl⟩
  | cons b batches ih =>
    have hnodup : ((b.map (PriceWrite.row idOf)).map Prod.fst).Nodup := by
      rw [List.map_map]
      exact honce b List.mem_cons_self
    have hb := LatestPrices.upsertMany_of_nodup tbl hnodup
    obtain ⟨tbl', htbl', hreg⟩ := ih _ fun b' hb' => honce b' (List.mem_cons_of_mem _ hb')
    refine ⟨tbl', ?_, ?_⟩
    · rw [upsertBatches, List.foldlM_cons, hb]
      exact htbl'
    · intro id
      have hhead := LatestPrices.register_upsertMany hb id
      rw [List.filter_map, List.map_map] at hhead
      rw [hreg, hhead, List.flatten_cons, List.filter_append, List.map_append,
        Register.offerAll_append]
      rfl

/-- **Both guards converge to the same winner.**  Calls that carry exactly the writes of a
collection, in any order, grouping and repetition, leave both stores with the newest write of
every ticker; and no call of either writer, in any state, takes a stored stamp back.  The ids are
those of a catalog, so no ticker shares the id of another that is written. -/
theorem guards_converge {ws : List (PriceWrite P)} (hdistinct : PriceWrite.StampsDistinct ws)
    (hid : ∀ w ∈ ws, ∀ t, idOf w.ticker = idOf t → w.ticker = t)
    {calls : List (CacheCall P)} (hcalls : ∀ w, w ∈ calls.flatMap CacheCall.writes ↔ w ∈ ws)
    {batches : List (List (PriceWrite P))} (hbatches : ∀ w, w ∈ batches.flatten ↔ w ∈ ws)
    (honce : ∀ b ∈ batches, (b.map fun w => idOf w.ticker).Nodup) :
    (∃ tbl, upsertBatches idOf Dict.empty batches = some tbl ∧ ∀ t,
      (∃ w, PriceWrite.Newest ws w ∧ w.ticker = t ∧
        ((CacheCall.runAll idOf ttl Dict.empty calls).cached t).map CachedPrice.stored =
          some w.stored ∧
        (Dict.get? tbl (idOf t)).map LatestPrice.stored = some w.stored) ∨
      ((∀ w ∈ ws, w.ticker ≠ t) ∧
        (CacheCall.runAll idOf ttl Dict.empty calls).cached t = none ∧
        Dict.get? tbl (idOf t) = none)) ∧
    (∀ (r : Redis P) (call : CacheCall P) (t : Ticker),
      Register.StampLe ((r.cached t).map CachedPrice.effectiveAt)
        (((call.run idOf ttl r).cached t).map CachedPrice.effectiveAt)) ∧
    (∀ (tbl tbl' : LatestPrices P) (rows : List (SecurityId × LatestPrice P)) (id : SecurityId),
      tbl.upsertMany rows = some tbl' →
      Register.StampLe ((Dict.get? tbl id).map LatestPrice.effectiveAt)
        ((Dict.get? tbl' id).map LatestPrice.effectiveAt)) := by
  refine ⟨?_, CacheCall.stampLe_run, fun _ _ _ id h => LatestPrices.stampLe_upsertMany h id⟩
  obtain ⟨tbl, htbl, hreg⟩ := register_upsertBatches Dict.empty honce
  refine ⟨tbl, htbl, fun t => ?_⟩
  -- in the table, what the calls make of a ticker is one register, whose ties keep the row
  have hrow : Dict.get? tbl (idOf t) = (Register.offerAll .reject none
      ((batches.flatten.filter fun w => decide (w.ticker = t)).map fun w =>
        (w.effectiveAt, (w.row idOf).2))).map Prod.snd := by
    have hsame : (batches.flatten.filter fun w => decide (idOf w.ticker = idOf t)) =
        batches.flatten.filter fun w => decide (w.ticker = t) := by
      refine List.filter_congr fun w hw => ?_
      rw [decide_eq_decide]
      exact ⟨hid w ((hbatches w).1 hw) t, fun h => by rw [h]⟩
    rw [LatestPrices.get?_eq_map_register, hreg, hsame]
    rfl
  by_cases ht : ∃ w ∈ ws, w.ticker = t
  · obtain ⟨w₀, hw₀, rfl⟩ := ht
    -- both registers end with the newest write, since no two have one stamp
    obtain ⟨w, hw, hticker⟩ := PriceWrite.exists_newest hw₀
    refine Or.inl ⟨w, hw, hticker, ?_, ?_⟩
    · rw [← hticker, cached_runAll_newest hdistinct hcalls hw]
      rfl
    · have hwin := offerAll_newest .reject (hdistinct.congr hbatches)
        (fun a b => Iff.rfl (a := id a ≤ id b)) (fun w => (w.row idOf).2) (hw.congr hbatches)
      rw [hticker] at hwin
      rw [hrow]
      exact congrArg (fun o => (o.map Prod.snd).map LatestPrice.stored) hwin
  · have hnone : ∀ w ∈ ws, w.ticker ≠ t := fun w hw heq => ht ⟨w, hw, heq⟩
    refine Or.inr ⟨hnone, ?_, ?_⟩
    · rw [Redis.cached_eq_map_register, CacheCall.register_runAll]
      have hoff := offerAll_noWrite .accept toIso (PriceWrite.payload idOf)
        fun w hw => hnone w ((hcalls w).1 hw)
      exact congrArg (Option.map Prod.snd) hoff
    · have hoff := offerAll_noWrite .reject id (fun w => (w.row idOf).2)
        fun w hw => hnone w ((hbatches w).1 hw)
      rw [hrow]
      exact congrArg (Option.map Prod.snd) hoff

end

/-- Two writes of one ticker, the newer one first to Redis and last but one to Postgres. -/
theorem guards_converge_two_writes :
    let idOf : Ticker → SecurityId := fun t => if t = "AAPL" then 1 else 2
    let old : PriceWrite ℕ := ⟨"AAPL", 10, ⟨5, by decide⟩, "api"⟩
    let new : PriceWrite ℕ := ⟨"AAPL", 11, ⟨9, by decide⟩, "api"⟩
    ∃ tbl, upsertBatches idOf Dict.empty [[old], [new], [old]] = some tbl ∧
      ((CacheCall.runAll idOf 60 Dict.empty
        [.setPriceIfNewer new, .setPricesIfNewer [old, new, old]]).cached "AAPL").map
          CachedPrice.stored = some new.stored ∧
      (Dict.get? tbl 1).map LatestPrice.stored = some new.stored := by
  intro idOf old new
  have hdistinct : PriceWrite.StampsDistinct [old, new] := by
    intro w hw w' hw' _ hstamp
    simp only [List.mem_cons, List.not_mem_nil, or_false] at hw hw'
    rcases hw with rfl | rfl <;> rcases hw' with rfl | rfl
    · rfl
    · exact absurd hstamp (by decide)
    · exact absurd hstamp (by decide)
    · rfl
  have hid : ∀ w ∈ [old, new], ∀ t, idOf w.ticker = idOf t → w.ticker = t := by
    intro w hw t ht
    have hw' : w.ticker = "AAPL" := by
      simp only [List.mem_cons, List.not_mem_nil, or_false] at hw
      rcases hw with rfl | rfl <;> rfl
    by_contra hne
    rw [hw'] at hne ht
    simp only [idOf, if_true, if_neg fun h => hne (Eq.symm h)] at ht
    exact absurd ht (by decide)
  have hcalls : ∀ w, w ∈ ([.setPriceIfNewer new, .setPricesIfNewer [old, new, old]] :
      List (CacheCall ℕ)).flatMap CacheCall.writes ↔ w ∈ [old, new] := by
    intro w
    simp only [List.flatMap_cons, CacheCall.writes, List.flatMap_nil]
    grind
  have hbatches : ∀ w, w ∈ [[old], [new], [old]].flatten ↔ w ∈ [old, new] := by
    intro w
    simp only [List.flatten_cons, List.flatten_nil]
    grind
  have honce : ∀ b ∈ [[old], [new], [old]], (b.map fun w => idOf w.ticker).Nodup := by
    intro b hb
    simp only [List.mem_cons, List.not_mem_nil, or_false] at hb
    rcases hb with rfl | rfl | rfl <;> exact List.nodup_singleton _
  obtain ⟨⟨tbl, htbl, hall⟩, -⟩ :=
    @guards_converge ℕ idOf 60 _ hdistinct hid _ hcalls _ hbatches honce
  refine ⟨tbl, htbl, ?_⟩
  rcases hall "AAPL" with ⟨w, hw, -, hcache, hrow⟩ | ⟨hnone, -⟩
  · have hwin : w = new := by
      have hmem := hw.1
      simp only [List.mem_cons, List.not_mem_nil, or_false] at hmem
      rcases hmem with rfl | rfl
      · exact absurd (hw.2 new (by simp) rfl) (by decide)
      · rfl
    rw [hwin] at hcache hrow
    exact ⟨hcache, hrow⟩
  · exact absurd rfl (hnone old (by simp))

end TickerWatch
