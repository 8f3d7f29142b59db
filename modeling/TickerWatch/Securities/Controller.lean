import Mathlib.Order.Basic
import Mathlib.Algebra.Order.Ring.Int
import TickerWatch.Foundations.Dict

/-!
# The security catalog

The `securities` table and the queries of `securities_controller.py` the price service uses.
The columns `asset_type` and `created_at` are left out: no query reads them.

`UNIQUE (ticker)` and the sequence behind `id` are fields of the table, so a ticker names at most
one security and a new row never takes an old id.
-/

namespace TickerWatch

/-- A ticker symbol. -/
abbrev Ticker := String

/-- A value of `securities.id`. -/
abbrev SecurityId := ℤ

/-- One row of `securities`, under its id. -/
structure Security where
  ticker : Ticker
  name : String
  exchange : Option String
  isSynthetic : Bool
  deriving DecidableEq, Repr

/-- The `securities` table with its id sequence. -/
structure Catalog where
  rows : Dict SecurityId Security
  nextId : SecurityId
  id_lt : ∀ id row, rows.get? id = some row → id < nextId
  ticker_unique : ∀ id id' row row', rows.get? id = some row → rows.get? id' = some row' →
    row.ticker = row'.ticker → id = id'

namespace Catalog

/-- The table after the migration. -/
def empty : Catalog := ⟨.empty, 1, by simp, by simp⟩

/-- The catalog has a row that gives `id` the ticker `t`. -/
def Lists (c : Catalog) (id : SecurityId) (t : Ticker) : Prop :=
  ∃ row, c.rows.get? id = some row ∧ row.ticker = t

variable {c : Catalog} {id id' : SecurityId} {t t' : Ticker}

lemma Lists.id_unique (h : c.Lists id t) (h' : c.Lists id' t) : id = id' := by
  obtain ⟨row, hrow, ht⟩ := h
  obtain ⟨row', hrow', ht'⟩ := h'
  exact c.ticker_unique id id' row row' hrow hrow' (ht.trans ht'.symm)

lemma Lists.ticker_unique (h : c.Lists id t) (h' : c.Lists id t') : t = t' := by
  obtain ⟨row, hrow, rfl⟩ := h
  obtain ⟨row', hrow', rfl⟩ := h'
  rw [Option.some.inj (hrow.symm.trans hrow')]

/-- `get`. -/
def get (c : Catalog) (id : SecurityId) : Option Security := c.rows.get? id

/-- The row of a ticker, with its id. -/
def findTicker (c : Catalog) (t : Ticker) : Option (SecurityId × Security) :=
  c.rows.entries.find? fun e => decide (e.2.ticker = t)

lemma findTicker_some {row : Security} (h : c.findTicker t = some (id, row)) :
    c.rows.get? id = some row ∧ row.ticker = t := by
  refine ⟨Dict.get?_eq_some_iff.2 (List.mem_of_find?_eq_some h), ?_⟩
  simpa using List.find?_some h

lemma findTicker_none (h : c.findTicker t = none) : ¬ c.Lists id t := by
  rintro ⟨row, hrow, ht⟩
  have := List.find?_eq_none.1 h (id, row) (Dict.get?_eq_some_iff.1 hrow)
  simp [ht] at this

/-- A row under the next id is below the one after it. -/
lemma id_lt_insert (c : Catalog) (row : Security) : ∀ id row',
    (c.rows.set c.nextId row).get? id = some row' → id < c.nextId + 1 := by
  intro id row' hget
  rw [Dict.get?_set] at hget
  split at hget
  · rename_i heq
    exact heq ▸ lt_add_one _
  · exact (c.id_lt id row' hget).trans (lt_add_one _)

lemma ticker_unique_insert {row : Security} (h : c.findTicker row.ticker = none) :
    ∀ i j ri rj, (c.rows.set c.nextId row).get? i = some ri →
      (c.rows.set c.nextId row).get? j = some rj → ri.ticker = rj.ticker → i = j := by
  intro i j ri rj hi hj hij
  rw [Dict.get?_set] at hi hj
  split at hi <;> split at hj
  · simp_all
  · obtain rfl := Option.some.inj hi
    exact absurd ⟨rj, hj, hij.symm⟩ (findTicker_none h)
  · obtain rfl := Option.some.inj hj
    exact absurd ⟨ri, hi, hij⟩ (findTicker_none h)
  · exact c.ticker_unique i j ri rj hi hj hij

/-- `INSERT INTO securities (ticker, name) ... ON CONFLICT (ticker) DO UPDATE SET name`.  The
sequence advances whether or not the row was new. -/
def upsert (c : Catalog) (t : Ticker) (name : String) : Catalog :=
  match h : c.findTicker t with
  | some (id, row) =>
    { rows := c.rows.set id { row with name := name }
      nextId := c.nextId + 1
      id_lt := by
        intro id' row' hget
        rw [Dict.get?_set] at hget
        split at hget
        · rename_i heq
          exact heq ▸ (c.id_lt id row (findTicker_some h).1).trans (lt_add_one _)
        · exact (c.id_lt id' row' hget).trans (lt_add_one _)
      ticker_unique := by
        obtain ⟨hrow, -⟩ := findTicker_some h
        intro i j ri rj hi hj hij
        rw [Dict.get?_set] at hi hj
        split at hi <;> split at hj
        · simp_all
        · obtain rfl := Option.some.inj hi
          subst_vars
          exact c.ticker_unique _ _ row rj hrow hj hij
        · obtain rfl := Option.some.inj hj
          subst_vars
          exact c.ticker_unique _ _ ri row hi hrow hij
        · exact c.ticker_unique i j ri rj hi hj hij }
  | none =>
    { rows := c.rows.set c.nextId ⟨t, name, none, false⟩
      nextId := c.nextId + 1
      id_lt := c.id_lt_insert _
      ticker_unique := ticker_unique_insert h }

/-- `upsert_many`: the pairs of the vendor catalog, in order. -/
def upsertMany (c : Catalog) (rows : List (Ticker × String)) : Catalog :=
  rows.foldl (fun c r => c.upsert r.1 r.2) c

/-- `all_tickers`: every security, or only the vendor-listed ones.  The database sorts them by its
collation; here they come in the order of the table.  The service makes a dictionary of them, and the
order of its keys is the one in which the tickers are asked for and `SimulatedSource` draws. -/
def allTickers (c : Catalog) (includeSynthetic : Bool) : List (SecurityId × Ticker) :=
  (c.rows.entries.filter fun e => includeSynthetic || !e.2.isSynthetic).map fun e =>
    (e.1, e.2.ticker)

lemma Lists.upsert (h : c.Lists id t) (t' : Ticker) (name : String) :
    (c.upsert t' name).Lists id t := by
  obtain ⟨row, hrow, ht⟩ := h
  unfold Catalog.upsert
  split
  · rename_i id' row' hfind
    obtain ⟨hrow', -⟩ := findTicker_some hfind
    by_cases hid : id = id'
    · subst hid
      obtain rfl := Option.some.inj (hrow.symm.trans hrow')
      exact ⟨{ row with name := name }, Dict.get?_set_self _ _ _, ht⟩
    · exact ⟨row, by rw [Dict.get?_set_ne _ _ hid, hrow], ht⟩
  · have hid : id ≠ c.nextId := ne_of_lt (c.id_lt id row hrow)
    exact ⟨row, by rw [Dict.get?_set_ne _ _ hid, hrow], ht⟩

lemma Lists.upsertMany (h : c.Lists id t) (rows : List (Ticker × String)) :
    (c.upsertMany rows).Lists id t := by
  induction rows generalizing c with
  | nil => exact h
  | cons r rows ih => exact ih (h.upsert r.1 r.2)

lemma lists_of_mem_allTickers {b : Bool} (h : (id, t) ∈ c.allTickers b) : c.Lists id t := by
  simp only [allTickers, List.mem_map, List.mem_filter] at h
  obtain ⟨⟨id', row⟩, ⟨hmem, -⟩, heq⟩ := h
  obtain ⟨rfl, rfl⟩ := Prod.mk.inj heq
  exact ⟨row, Dict.get?_eq_some_iff.2 hmem, rfl⟩

end Catalog
end TickerWatch
