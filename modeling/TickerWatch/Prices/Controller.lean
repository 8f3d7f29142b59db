import Mathlib.Data.List.Dedup
import TickerWatch.Foundations.Register
import TickerWatch.Securities.Controller
import TickerWatch.Shared.Timeutil

/-!
# The latest_prices table

The table and the raw queries of `prices_controller.py`.  The column `updated_at` is left out: no
query reads it.

`upsert_many` is one statement.  Postgres refuses a statement that would touch a row twice, so the
upsert is partial; a statement that names each security once never fails for that reason
(`upsertMany_of_nodup`).
-/

namespace TickerWatch

universe u

/-- One row of `latest_prices`, under its security. -/
structure LatestPrice (P : Type u) where
  price : P
  effectiveAt : Instant
  source : String
  deriving DecidableEq

/-- The `latest_prices` table under its primary key. -/
abbrev LatestPrices (P : Type u) := Dict SecurityId (LatestPrice P)

/-- A row of `all_with_tickers`. -/
structure TickerPrice (P : Type u) where
  securityId : SecurityId
  ticker : Ticker
  row : LatestPrice P
  deriving DecidableEq

namespace LatestPrices

variable {P : Type u}

/-- One row of `_UPSERT_SQL`, and whether the table took it: a conflicting row is replaced only by
a strictly newer one. -/
def upsertRow (tbl : LatestPrices P) (r : SecurityId × LatestPrice P) : LatestPrices P × Bool :=
  match Dict.get? tbl r.1 with
  | none => (Dict.set tbl r.1 r.2, true)
  | some stored =>
    if stored.effectiveAt < r.2.effectiveAt then (Dict.set tbl r.1 r.2, true) else (tbl, false)

/-- The rows of one statement.  `touched` are the securities this statement has already inserted
or updated; a second row for one of them aborts the statement. -/
def upsertRows (tbl : LatestPrices P) (touched : List SecurityId) :
    List (SecurityId × LatestPrice P) → Option (LatestPrices P)
  | [] => some tbl
  | r :: rows =>
    if r.1 ∈ touched then none
    else
      let out := upsertRow tbl r
      upsertRows out.1 (if out.2 then r.1 :: touched else touched) rows

/-- `upsert_many`; `none` when Postgres refuses the statement. -/
def upsertMany (tbl : LatestPrices P) (rows : List (SecurityId × LatestPrice P)) :
    Option (LatestPrices P) := upsertRows tbl [] rows

/-- `get_many`. -/
def getMany (tbl : LatestPrices P) (ids : List SecurityId) : List (SecurityId × LatestPrice P) :=
  tbl.entries.filter fun e => decide (e.1 ∈ ids)

/-- `all_with_tickers`: the join with `securities`. -/
def allWithTickers (tbl : LatestPrices P) (c : Catalog) : List (TickerPrice P) :=
  tbl.entries.filterMap fun e => (c.rows.get? e.1).map fun s => ⟨e.1, s.ticker, e.2⟩

/-- `distinct_sources`. -/
def distinctSources (tbl : LatestPrices P) : List String :=
  (tbl.values.map LatestPrice.source).dedup

/-- `delete_by_source`, with the number of rows deleted. -/
def deleteBySource (tbl : LatestPrices P) (source : String) : LatestPrices P × ℕ :=
  (Dict.filter (fun _ r => decide (r.source ≠ source)) tbl,
    (Dict.filter (fun _ r => decide (r.source = source)) tbl).size)

/-- `relabel_source`, with the number of rows changed. -/
def relabelSource (tbl : LatestPrices P) (old new : String) : LatestPrices P × ℕ :=
  (Dict.mapValues (fun _ r => if r.source = old then { r with source := new } else r) tbl,
    (Dict.filter (fun _ r => decide (r.source = old)) tbl).size)

/-! ## What each statement does to a row -/

/-- The register of a security: its row under the stamp the guard compares. -/
def register (tbl : LatestPrices P) (id : SecurityId) : Option (Instant × LatestPrice P) :=
  (Dict.get? tbl id).map fun r => (r.effectiveAt, r)

lemma get?_eq_map_register (tbl : LatestPrices P) (id : SecurityId) :
    Dict.get? tbl id = (register tbl id).map Prod.snd := by
  simp [register, Function.comp_def]

/-- A guarded row touches the register of its security only, and there it is an offer that rejects
ties. -/
lemma register_upsertRow (tbl : LatestPrices P) (r : SecurityId × LatestPrice P)
    (id : SecurityId) :
    register (upsertRow tbl r).1 id =
      if r.1 = id then Register.offer .reject (register tbl id) (r.2.effectiveAt, r.2)
      else register tbl id := by
  by_cases h : r.1 = id
  · subst h
    rw [if_pos rfl]
    unfold register upsertRow
    cases hget : Dict.get? tbl r.1 with
    | none => simp
    | some stored =>
      by_cases hlt : stored.effectiveAt < r.2.effectiveAt
      · have hadm : Register.Admits .reject stored.effectiveAt r.2.effectiveAt := hlt
        simp only [hlt, if_true, Dict.get?_set_self, Option.map_some]
        rw [Register.offer_some_of_admits hadm]
      · have hnot : ¬ Register.Admits .reject stored.effectiveAt r.2.effectiveAt := hlt
        simp only [hlt, if_false, hget, Option.map_some]
        rw [Register.offer_some_of_not_admits hnot]
  · rw [if_neg h]
    have hne : id ≠ r.1 := fun heq => h heq.symm
    unfold register upsertRow
    split
    · rw [Dict.get?_set_ne _ _ hne]
    · split
      · rw [Dict.get?_set_ne _ _ hne]
      · rfl

/-- A statement whose securities are distinct, and not touched before, is its rows in order. -/
lemma upsertRows_of_nodup (tbl : LatestPrices P) (touched : List SecurityId)
    {rows : List (SecurityId × LatestPrice P)} (hnodup : (rows.map Prod.fst).Nodup)
    (hfresh : ∀ r ∈ rows, r.1 ∉ touched) :
    upsertRows tbl touched rows = some (rows.foldl (fun tbl r => (upsertRow tbl r).1) tbl) := by
  induction rows generalizing tbl touched with
  | nil => rfl
  | cons r rows ih =>
    rw [List.map_cons, List.nodup_cons] at hnodup
    have hr : r.1 ∉ touched := hfresh r List.mem_cons_self
    have hrest : ∀ r' ∈ rows, r'.1 ≠ r.1 := by
      intro r' hr' heq
      exact hnodup.1 (heq ▸ List.mem_map_of_mem hr')
    rw [upsertRows, if_neg hr, List.foldl_cons]
    apply ih _ _ hnodup.2
    intro r' hr'
    have hold := hfresh r' (List.mem_cons_of_mem _ hr')
    split
    · exact List.not_mem_cons_of_ne_of_not_mem (hrest r' hr') hold
    · exact hold

/-- A statement that names each security once succeeds, and is its rows in order. -/
theorem upsertMany_of_nodup (tbl : LatestPrices P) {rows : List (SecurityId × LatestPrice P)}
    (hnodup : (rows.map Prod.fst).Nodup) :
    upsertMany tbl rows = some (rows.foldl (fun tbl r => (upsertRow tbl r).1) tbl) :=
  upsertRows_of_nodup tbl [] hnodup (by simp)

lemma register_upsertRows {tbl tbl' : LatestPrices P} {touched : List SecurityId}
    {rows : List (SecurityId × LatestPrice P)} (h : upsertRows tbl touched rows = some tbl')
    (id : SecurityId) :
    register tbl' id = Register.offerAll .reject (register tbl id)
      ((rows.filter fun r => decide (r.1 = id)).map fun r => (r.2.effectiveAt, r.2)) := by
  have hfold : tbl' = rows.foldl (fun tbl r => (upsertRow tbl r).1) tbl := by
    induction rows generalizing tbl touched with
    | nil => exact (Option.some.inj h).symm
    | cons r rows ih =>
      rw [upsertRows] at h
      split at h
      · exact absurd h (by simp)
      · exact ih h
  rw [hfold]
  exact Register.view_foldl (fun tbl r => register_upsertRow tbl r) tbl rows id

lemma register_upsertMany {tbl tbl' : LatestPrices P} {rows : List (SecurityId × LatestPrice P)}
    (h : upsertMany tbl rows = some tbl') (id : SecurityId) :
    register tbl' id = Register.offerAll .reject (register tbl id)
      ((rows.filter fun r => decide (r.1 = id)).map fun r => (r.2.effectiveAt, r.2)) :=
  register_upsertRows h id

lemma mem_getMany {tbl : LatestPrices P} {ids : List SecurityId} {id : SecurityId}
    {r : LatestPrice P} :
    (id, r) ∈ tbl.getMany ids ↔ Dict.get? tbl id = some r ∧ id ∈ ids := by
  simp [getMany, Dict.get?_eq_some_iff]

lemma mem_allWithTickers {tbl : LatestPrices P} {c : Catalog} {x : TickerPrice P} :
    x ∈ tbl.allWithTickers c ↔
      Dict.get? tbl x.securityId = some x.row ∧ c.Lists x.securityId x.ticker := by
  simp only [allWithTickers, List.mem_filterMap, Option.map_eq_some_iff, Catalog.Lists,
    Dict.get?_eq_some_iff]
  constructor
  · rintro ⟨⟨id, r⟩, hmem, s, hs, rfl⟩
    exact ⟨hmem, s, hs, rfl⟩
  · rintro ⟨hmem, s, hs, ht⟩
    refine ⟨(x.securityId, x.row), hmem, s, hs, ?_⟩
    simp only [ht]

lemma nodup_allWithTickers (tbl : LatestPrices P) (c : Catalog) :
    ((tbl.allWithTickers c).map TickerPrice.securityId).Nodup := by
  have hsub : ((tbl.allWithTickers c).map TickerPrice.securityId).Sublist tbl.keys := by
    unfold allWithTickers Dict.keys
    induction tbl.entries with
    | nil => exact List.Sublist.slnil
    | cons e es ih =>
      rw [List.filterMap_cons, List.map_cons]
      cases c.rows.get? e.1 with
      | none => exact ih.cons _
      | some s => exact ih.cons_cons _
  exact tbl.nodup_keys.sublist hsub

lemma mem_distinctSources {tbl : LatestPrices P} {source : String} :
    source ∈ tbl.distinctSources ↔ ∃ id r, Dict.get? tbl id = some r ∧ r.source = source := by
  simp only [distinctSources, List.mem_dedup, List.mem_map, Dict.values, Dict.get?_eq_some_iff]
  constructor
  · rintro ⟨r, ⟨⟨id, r'⟩, hmem, rfl⟩, hsource⟩
    exact ⟨id, r', hmem, hsource⟩
  · rintro ⟨id, r, hmem, hsource⟩
    exact ⟨r, ⟨(id, r), hmem, rfl⟩, hsource⟩

lemma get?_deleteBySource (tbl : LatestPrices P) (source : String) (id : SecurityId) :
    Dict.get? (tbl.deleteBySource source).1 id =
      (Dict.get? tbl id).filter fun r => decide (r.source ≠ source) := Dict.get?_filter _ _ _

lemma get?_relabelSource (tbl : LatestPrices P) (old new : String) (id : SecurityId) :
    Dict.get? (tbl.relabelSource old new).1 id = (Dict.get? tbl id).map fun r =>
      if r.source = old then { r with source := new } else r := Dict.get?_mapValues _ _ _

end LatestPrices
end TickerWatch
