import Mathlib.Algebra.Order.Ring.Int
import TickerWatch.Foundations.Dict

/-!
# Tables under a serial key

A table with a serial primary key and one `UNIQUE` key: rows under integer ids, the sequence the
next id comes from, and a function that gives the unique key of a row.

That ids in use are below the sequence, and that two rows never share a key, are fields.  So `find?`
by the key and `get?` by the id are two views of one fact (`find?_eq_some_iff`), and an insertion is
partial: it fails where the database would report a violation.
-/

namespace TickerWatch

universe u v

/-- Rows under ids from a sequence, with a unique key.  An id that was drawn is not drawn again,
even when its row was not inserted or was deleted, so ids grow with time. -/
structure Table {ρ : Type u} {κ : Type v} (key : ρ → κ) where
  rows : Dict ℤ ρ
  nextId : ℤ
  id_lt : ∀ id row, rows.get? id = some row → id < nextId
  key_unique : ∀ id id' row row', rows.get? id = some row → rows.get? id' = some row' →
    key row = key row' → id = id'

namespace Table

variable {ρ : Type u} {κ : Type v} {key : ρ → κ}

/-- The table after its `CREATE TABLE`. -/
def empty : Table key := ⟨.empty, 1, by simp, by simp⟩

/-- The row under an id. -/
def get? (t : Table key) (id : ℤ) : Option ρ := t.rows.get? id

lemma ext_rows {t t' : Table key} (hrows : t.rows = t'.rows) (hnext : t.nextId = t'.nextId) :
    t = t' := by
  cases t
  cases t'
  simp only at hrows hnext
  subst hrows hnext
  rfl

/-- Take an id from the sequence. -/
def nextval (t : Table key) : Table key :=
  { t with nextId := t.nextId + 1, id_lt := fun id row h => (t.id_lt id row h).trans (lt_add_one _) }

/-- The sequence stands at `n` at least, as it does after the inserts of a transaction that was rolled
back. -/
def skipTo (t : Table key) (n : ℤ) : Table key :=
  { t with
    nextId := max t.nextId n
    id_lt := fun id row h => (t.id_lt id row h).trans_le (le_max_left _ _) }

/-- `UPDATE ... SET ... WHERE p`, for a change that leaves the unique key alone. -/
def modify (t : Table key) (p : ℤ → ρ → Bool) (f : ρ → ρ) (hf : ∀ r, key (f r) = key r) :
    Table key where
  rows := t.rows.mapValues fun id r => if p id r then f r else r
  nextId := t.nextId
  id_lt := by
    intro id row h
    rw [Dict.get?_mapValues] at h
    obtain ⟨r, hr, -⟩ := Option.map_eq_some_iff.1 h
    exact t.id_lt id r hr
  key_unique := by
    intro id id' row row' h h' hkey
    have hsame : ∀ id r, key (if p id r then f r else r) = key r := by
      intro id r
      split
      · exact hf r
      · rfl
    rw [Dict.get?_mapValues] at h h'
    obtain ⟨r, hr, rfl⟩ := Option.map_eq_some_iff.1 h
    obtain ⟨r', hr', rfl⟩ := Option.map_eq_some_iff.1 h'
    rw [hsame, hsame] at hkey
    exact t.key_unique id id' r r' hr hr' hkey

/-- `DELETE ... WHERE p`. -/
def delete (t : Table key) (p : ℤ → ρ → Bool) : Table key where
  rows := t.rows.filter fun id r => !p id r
  nextId := t.nextId
  id_lt := by
    intro id row h
    rw [Dict.get?_filter, Option.filter_eq_some_iff] at h
    exact t.id_lt id row h.1
  key_unique := by
    intro id id' row row' h h'
    rw [Dict.get?_filter, Option.filter_eq_some_iff] at h h'
    exact t.key_unique id id' row row' h.1 h'.1

/-- How many rows satisfy `p`. -/
def count (t : Table key) (p : ℤ → ρ → Bool) : ℕ :=
  (t.rows.entries.filter fun e => p e.1 e.2).length

/-- The ids of the rows that satisfy `p`. -/
def idsWhere (t : Table key) (p : ℤ → ρ → Bool) : List ℤ := (t.rows.filter p).keys

variable {t : Table key} {id id' : ℤ} {row row' : ρ} {p : ℤ → ρ → Bool}

@[simp] lemma get?_empty (id : ℤ) : (empty : Table key).get? id = none := rfl

@[simp] lemma get?_nextval (t : Table key) (id : ℤ) : t.nextval.get? id = t.get? id := rfl

@[simp] lemma get?_modify (t : Table key) (p : ℤ → ρ → Bool) (f : ρ → ρ)
    (hf : ∀ r, key (f r) = key r) (id : ℤ) :
    (t.modify p f hf).get? id = (t.get? id).map fun r => if p id r then f r else r :=
  Dict.get?_mapValues _ _ _

lemma modify_congr {q : ℤ → ρ → Bool} {f : ρ → ρ} (hf : ∀ r, key (f r) = key r)
    (h : ∀ id row, t.get? id = some row → p id row = q id row) :
    t.modify p f hf = t.modify q f hf := by
  refine ext_rows (Dict.ext (List.map_congr_left fun e he => ?_)) rfl
  dsimp only
  rw [h e.1 e.2 (Dict.get?_eq_some_iff.2 he)]

lemma get?_delete (t : Table key) (p : ℤ → ρ → Bool) (id : ℤ) :
    (t.delete p).get? id = (t.get? id).filter fun r => !p id r := Dict.get?_filter _ _ _

lemma get?_delete_eq_some_iff : (t.delete p).get? id = some row ↔
    t.get? id = some row ∧ p id row = false := by
  rw [get?_delete, Option.filter_eq_some_iff, Bool.not_eq_true']

lemma mem_idsWhere : id ∈ t.idsWhere p ↔ ∃ row, t.get? id = some row ∧ p id row = true := by
  rw [idsWhere, Dict.mem_keys_iff]
  simp only [Dict.get?_filter, Option.filter_eq_some_iff, get?]

/-- An id the sequence has not reached yet names no row. -/
lemma get?_eq_none_of_nextId_le (h : t.nextId ≤ id) : t.get? id = none := by
  cases hrow : t.get? id with
  | none => rfl
  | some row => exact absurd (t.id_lt id row hrow) (not_lt.2 h)

variable [DecidableEq κ]

/-- The row with a unique key, and its id. -/
def find? (t : Table key) (k : κ) : Option (ℤ × ρ) :=
  t.rows.entries.find? fun e => decide (key e.2 = k)

/-- The row with a key is the row under some id that has the key. -/
theorem find?_eq_some_iff {k : κ} :
    t.find? k = some (id, row) ↔ t.get? id = some row ∧ key row = k := by
  constructor
  · intro h
    refine ⟨Dict.get?_eq_some_iff.2 (List.mem_of_find?_eq_some h), ?_⟩
    simpa using List.find?_some h
  · rintro ⟨hrow, hkey⟩
    have hmem := Dict.get?_eq_some_iff.1 hrow
    cases hfind : t.find? k with
    | none => exact absurd hkey (by simpa using List.find?_eq_none.1 hfind _ hmem)
    | some e =>
      obtain ⟨id', row'⟩ := e
      have hrow' : t.get? id' = some row' :=
        Dict.get?_eq_some_iff.2 (List.mem_of_find?_eq_some hfind)
      have hkey' : key row' = k := by simpa using List.find?_some hfind
      obtain rfl := t.key_unique id id' row row' hrow hrow' (hkey.trans hkey'.symm)
      rw [Option.some.inj (hrow.symm.trans hrow')]

lemma find?_eq_none_iff {k : κ} :
    t.find? k = none ↔ ∀ id row, t.get? id = some row → key row ≠ k := by
  rw [Option.eq_none_iff_forall_ne_some]
  constructor
  · intro h id row hrow hkey
    exact h (id, row) (find?_eq_some_iff.2 ⟨hrow, hkey⟩)
  · rintro h ⟨id, row⟩ hfind
    obtain ⟨hrow, hkey⟩ := find?_eq_some_iff.1 hfind
    exact h id row hrow hkey

/-- Two tables whose rows with a key are the same rows find the same. -/
lemma find?_congr {t' : Table key} {k : κ}
    (h : ∀ id row, key row = k → (t.get? id = some row ↔ t'.get? id = some row)) :
    t.find? k = t'.find? k := by
  ext ⟨id, row⟩
  rw [find?_eq_some_iff, find?_eq_some_iff]
  constructor
  · rintro ⟨hrow, hkey⟩
    exact ⟨(h id row hkey).1 hrow, hkey⟩
  · rintro ⟨hrow, hkey⟩
    exact ⟨(h id row hkey).2 hrow, hkey⟩

/-- `INSERT` under an id already taken from the sequence.  `none` is a violation of the primary or
of the unique key. -/
def insertAt (t : Table key) (id : ℤ) (row : ρ) : Option (Table key) :=
  if h : (t.get? id).isNone = true ∧ (t.find? (key row)).isNone = true then
    some {
      rows := t.rows.set id row
      nextId := max t.nextId (id + 1)
      id_lt := by
        intro id' row' hget
        rw [Dict.get?_set] at hget
        split at hget
        · rename_i heq
          subst heq
          exact (lt_add_one _).trans_le (le_max_right _ _)
        · exact (t.id_lt id' row' hget).trans_le (le_max_left _ _)
      key_unique := by
        have hnone := find?_eq_none_iff.1 (Option.isNone_iff_eq_none.1 h.2)
        intro i j ri rj hi hj hij
        rw [Dict.get?_set] at hi hj
        split at hi <;> split at hj
        · rename_i hi' hj'
          exact hi'.trans hj'.symm
        · obtain rfl := Option.some.inj hi
          exact absurd hij.symm (hnone j rj hj)
        · obtain rfl := Option.some.inj hj
          exact absurd hij (hnone i ri hi)
        · exact t.key_unique i j ri rj hi hj hij }
  else none

/-- `INSERT ... RETURNING id`. -/
def insert (t : Table key) (row : ρ) : Option (ℤ × Table key) :=
  (t.insertAt t.nextId row).map fun t' => (t.nextId, t')

lemma insertAt_eq_some_iff {t' : Table key} : t.insertAt id row = some t' ↔
    t.get? id = none ∧ t.find? (key row) = none ∧ t'.rows = t.rows.set id row ∧
      t'.nextId = max t.nextId (id + 1) := by
  unfold insertAt
  split
  · rename_i h
    rw [Option.isNone_iff_eq_none, Option.isNone_iff_eq_none] at h
    constructor
    · intro heq
      obtain rfl := Option.some.inj heq
      exact ⟨h.1, h.2, rfl, rfl⟩
    · rintro ⟨-, -, hrows, hnext⟩
      exact congrArg some (ext_rows hrows.symm hnext.symm)
  · rename_i h
    rw [Option.isNone_iff_eq_none, Option.isNone_iff_eq_none] at h
    refine iff_of_false (by simp) ?_
    rintro ⟨hget, hfind, -⟩
    exact h ⟨hget, hfind⟩

lemma get?_insertAt {t' : Table key} (h : t.insertAt id row = some t') (id' : ℤ) :
    t'.get? id' = if id' = id then some row else t.get? id' := by
  obtain ⟨-, -, hrows, -⟩ := insertAt_eq_some_iff.1 h
  rw [get?, hrows, Dict.get?_set]
  rfl

/-- A row whose id and key are new can be inserted. -/
lemma exists_insertAt (hid : t.get? id = none) (hkey : t.find? (key row) = none) :
    ∃ t', t.insertAt id row = some t' := by
  have hcond : (t.get? id).isNone = true ∧ (t.find? (key row)).isNone = true := by
    rw [hid, hkey]
    exact ⟨rfl, rfl⟩
  unfold insertAt
  rw [dif_pos hcond]
  exact ⟨_, rfl⟩

lemma insert_eq_some_iff {t' : Table key} : t.insert row = some (id, t') ↔
    id = t.nextId ∧ t.insertAt t.nextId row = some t' := by
  rw [insert, Option.map_eq_some_iff]
  constructor
  · rintro ⟨t'', h, heq⟩
    obtain ⟨rfl, rfl⟩ := Prod.mk.inj heq
    exact ⟨rfl, h⟩
  · rintro ⟨rfl, h⟩
    exact ⟨t', h, rfl⟩

end Table

end TickerWatch
