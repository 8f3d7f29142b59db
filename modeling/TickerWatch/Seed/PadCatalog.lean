import TickerWatch.Foundations.System
import TickerWatch.Foundations.Text
import TickerWatch.PriceService.Listings

/-!
# Padding the catalog

`pad_catalog` of `tools/seed/seed_users.py`, over runs of catalog upserts and paddings.

The rows are loaded with `COPY`, one statement, so a ticker that is taken aborts it and only the id
sequence has moved.  Their numbers start at 1 in every padding: the difference between the target
and the number of rows says how many there are, not where they start.  The first padding that adds
rows therefore takes `SYN00001`, and every later one that would add rows generates it again
(`padOk_iff`).  The users seeded by the same tool are numbered from the count of those that exist.
-/

namespace TickerWatch

namespace Catalog

/-! ## `COPY` into the table -/

/-- Insert one row; `none` is a violation of `UNIQUE (ticker)`. -/
def insertRow (c : Catalog) (row : Security) : Option Catalog :=
  if h : c.findTicker row.ticker = none then
    some {
      rows := c.rows.set c.nextId row
      nextId := c.nextId + 1
      id_lt := c.id_lt_insert row
      ticker_unique := ticker_unique_insert h }
  else none

/-- `copy_records_to_table`: every row, or the exception of the first that is refused. -/
def copyRows (c : Catalog) (rows : List Security) : Option Catalog := rows.foldlM insertRow c

/-- The table after a `COPY` that was aborted when it had drawn `n` ids. -/
def drawIds (c : Catalog) (n : ℕ) : Catalog :=
  { c with
    nextId := c.nextId + n
    id_lt := fun id row h =>
      (c.id_lt id row h).trans_le (le_add_of_nonneg_right (Int.natCast_nonneg n)) }

/-- `c'` is `c` with the given rows appended. -/
structure Copied (c : Catalog) (rows : List Security) (c' : Catalog) : Prop where
  kept : ∀ id row, c.rows.get? id = some row → c'.rows.get? id = some row
  added : ∀ id row, c'.rows.get? id = some row → c.rows.get? id = some row ∨ row ∈ rows
  has : ∀ row ∈ rows, ∃ id, c'.rows.get? id = some row
  size : c'.rows.size = c.rows.size + rows.length

variable {c c' : Catalog} {row : Security} {rows : List Security} {t : Ticker}

lemma insertRow_eq_some (h : c.insertRow row = some c') :
    c.findTicker row.ticker = none ∧ c'.rows = c.rows.set c.nextId row := by
  unfold insertRow at h
  split at h
  case isTrue hfresh =>
    obtain rfl := Option.some.inj h
    exact ⟨hfresh, rfl⟩
  case isFalse => exact absurd h (by simp)

lemma exists_insertRow (h : c.findTicker row.ticker = none) : ∃ c', c.insertRow row = some c' := by
  rw [insertRow, dif_pos h]
  exact ⟨_, rfl⟩

lemma get?_nextId (c : Catalog) : c.rows.get? c.nextId = none := by
  cases hget : c.rows.get? c.nextId with
  | none => rfl
  | some row => exact absurd (c.id_lt _ _ hget) (lt_irrefl _)

lemma Copied.insertRow (h : c.insertRow row = some c') : Copied c [row] c' := by
  obtain ⟨-, hrows⟩ := insertRow_eq_some h
  have hfree := get?_nextId c
  refine ⟨fun id row' hrow' => ?_, fun id row' hrow' => ?_, fun row' hrow' => ?_, ?_⟩
  · rw [hrows, Dict.get?_set_ne _ _ (Dict.ne_of_get? hfree hrow')]
    exact hrow'
  · rw [hrows, Dict.get?_set] at hrow'
    split at hrow'
    · exact Or.inr (List.mem_singleton.2 (Option.some.inj hrow').symm)
    · exact Or.inl hrow'
  · obtain rfl := List.mem_singleton.1 hrow'
    exact ⟨c.nextId, by rw [hrows, Dict.get?_set_self]⟩
  · have hkeys := Dict.keys_set_of_notMem row (Dict.get?_eq_none_iff.1 hfree)
    have hlength := congrArg List.length hkeys
    rw [hrows]
    simpa [Dict.keys, Dict.size] using hlength

lemma Copied.trans {c'' : Catalog} {rows' : List Security} (h : Copied c rows c')
    (h' : Copied c' rows' c'') : Copied c (rows ++ rows') c'' := by
  refine ⟨fun id row hrow => h'.kept _ _ (h.kept _ _ hrow), fun id row hrow => ?_,
    fun row hrow => ?_, ?_⟩
  · rw [List.mem_append, ← or_assoc]
    exact (h'.added id row hrow).imp_left (h.added id row)
  · rcases List.mem_append.1 hrow with hrow | hrow
    · obtain ⟨id, hid⟩ := h.has row hrow
      exact ⟨id, h'.kept _ _ hid⟩
    · exact h'.has row hrow
  · rw [h'.size, h.size, List.length_append]
    omega

lemma Copied.of_copyRows (h : c.copyRows rows = some c') : Copied c rows c' := by
  induction rows generalizing c with
  | nil =>
    obtain rfl := Option.some.inj h
    exact ⟨fun _ _ h => h, fun _ _ h => Or.inl h, fun _ h => absurd h List.not_mem_nil, rfl⟩
  | cons row rows ih =>
    rw [copyRows, List.foldlM_cons] at h
    obtain ⟨mid, hmid, hrest⟩ := Option.bind_eq_some_iff.1 h
    exact (Copied.insertRow hmid).trans (ih hrest)

/-- A ticker is free after an append if it was and is none of the new ones. -/
lemma Copied.findTicker_eq_none (h : Copied c rows c') (hfree : c.findTicker t = none)
    (hrows : ∀ row ∈ rows, row.ticker ≠ t) : c'.findTicker t = none := by
  cases hfind : c'.findTicker t with
  | none => rfl
  | some e =>
    obtain ⟨id, row⟩ := e
    obtain ⟨hrow, ht⟩ := findTicker_some hfind
    rcases h.added id row hrow with hold | hnew
    · exact absurd ⟨row, hold, ht⟩ (findTicker_none hfree)
    · exact absurd ht (hrows row hnew)

/-- Rows with different tickers that are all free can be copied. -/
lemma exists_copyRows (hfresh : ∀ row ∈ rows, c.findTicker row.ticker = none)
    (hnodup : (rows.map Security.ticker).Nodup) : ∃ c', c.copyRows rows = some c' := by
  induction rows generalizing c with
  | nil => exact ⟨c, rfl⟩
  | cons row rows ih =>
    obtain ⟨hrow, hrows⟩ := List.forall_mem_cons.1 hfresh
    rw [List.map_cons, List.nodup_cons] at hnodup
    obtain ⟨mid, hmid⟩ := exists_insertRow hrow
    obtain ⟨c', hc'⟩ := ih (c := mid) (fun row' hrow' =>
      (Copied.insertRow hmid).findTicker_eq_none (hrows row' hrow') fun r hr heq => by
        obtain rfl := List.mem_singleton.1 hr
        exact hnodup.1 (heq ▸ List.mem_map_of_mem hrow')) hnodup.2
    refine ⟨c', ?_⟩
    rw [copyRows, List.foldlM_cons, hmid]
    exact hc'

end Catalog

/-! ## The padding -/

namespace SeedUsers

/-- `(f"SYN{i:05d}", f"Synthetic Holdings {i:05d}", True)`. -/
def synthetic (i : ℕ) : Security :=
  ⟨"SYN" ++ Text.zeroPad 5 i, "Synthetic Holdings " ++ Text.zeroPad 5 i, none, true⟩

/-- `[... for i in range(1, target - existing + 1)]`. -/
def padRows (c : Catalog) (target : ℤ) : List Security :=
  (List.range (target - c.rows.size).toNat).map fun i => synthetic (i + 1)

/-- `pad_catalog`: how many rows were added, and the table; `none` is the exception of `COPY`. -/
def padCatalog (c : Catalog) (target : ℤ) : Option (ℤ × Catalog) :=
  if target ≤ c.rows.size then some (0, c)
  else (c.copyRows (padRows c target)).map fun c' => (((padRows c target).length : ℤ), c')

/-- A ticker that a padding can generate. -/
def SynTicker (t : Ticker) : Prop := ∃ i, t = (synthetic (i + 1)).ticker

/-- The catalog has no such ticker. -/
def Unpadded (c : Catalog) : Prop := ∀ t, SynTicker t → c.findTicker t = none

/-- What changes the catalog between two paddings: an upsert of another ticker, or a padding.  A
padding that is aborted has drawn some ids. -/
inductive SeedCall
  | upsert (t : Ticker) (name : String) (other : ¬ SynTicker t)
  | pad (target : ℤ) (drawn : ℕ)

/-- The catalogs that upserts and paddings make of one without `SYN` tickers. -/
def system : System Catalog SeedCall where
  init := Unpadded
  step c
    | .upsert t name _ => some (c.upsert t name)
    | .pad target drawn => some ((padCatalog c target).elim (c.drawIds drawn) Prod.snd)

/-- The padding generates free tickers only, and leaves the catalog with its rows unchanged and
flagged ones added up to the target. -/
def PadOk (c : Catalog) (target : ℤ) : Prop :=
  (∀ row ∈ padRows c target, c.findTicker row.ticker = none) ∧
  ∃ added c', padCatalog c target = some (added, c') ∧
    (∀ id row, c.rows.get? id = some row → c'.rows.get? id = some row) ∧
    (∀ id row, c'.rows.get? id = some row → c.rows.get? id = none → row.isSynthetic = true) ∧
    (c'.rows.size : ℤ) = max (c.rows.size : ℤ) target

/-- Once a padding has added rows, `SYN00001` is taken. -/
def Numbered (c : Catalog) : Prop := Unpadded c ∨ c.findTicker (synthetic 1).ticker ≠ none

variable {c c' : Catalog} {target : ℤ} {row : Security}

lemma synthetic_ticker_injective : Function.Injective fun i => (synthetic i).ticker := by
  intro i j h
  have hchars : ("SYN" ++ Text.zeroPad 5 i).toList = ("SYN" ++ Text.zeroPad 5 j).toList :=
    congrArg String.toList h
  rw [String.toList_append, String.toList_append] at hchars
  exact Text.zeroPad_injective 5 (String.toList_injective (List.append_cancel_left hchars))

lemma nodup_padRows (c : Catalog) (target : ℤ) :
    ((padRows c target).map Security.ticker).Nodup := by
  rw [padRows, List.map_map]
  refine List.Nodup.map (fun i j h => ?_) List.nodup_range
  have heq := synthetic_ticker_injective h
  omega

lemma length_padRows (c : Catalog) (target : ℤ) :
    (padRows c target).length = (target - c.rows.size).toNat := by
  rw [padRows, List.length_map, List.length_range]

lemma mem_padRows (h : row ∈ padRows c target) : row.isSynthetic = true ∧ SynTicker row.ticker := by
  obtain ⟨i, -, rfl⟩ := List.mem_map.1 h
  exact ⟨rfl, i, rfl⟩

lemma padRows_of_le (h : target ≤ c.rows.size) : padRows c target = [] := by
  rw [← List.length_eq_zero_iff, length_padRows]
  omega

lemma first_mem_padRows (h : ¬ target ≤ c.rows.size) : synthetic 1 ∈ padRows c target :=
  List.mem_map.2 ⟨0, List.mem_range.2 (by omega), rfl⟩

lemma padCatalog_of_le (h : target ≤ c.rows.size) : padCatalog c target = some (0, c) := if_pos h

lemma padCatalog_of_lt (h : ¬ target ≤ c.rows.size) : padCatalog c target =
    (c.copyRows (padRows c target)).map fun c' => (((padRows c target).length : ℤ), c') := if_neg h

lemma padOk_of_fresh (h : ∀ row ∈ padRows c target, c.findTicker row.ticker = none) :
    PadOk c target := by
  refine ⟨h, ?_⟩
  by_cases hle : target ≤ c.rows.size
  · refine ⟨0, c, padCatalog_of_le hle, fun _ _ hrow => hrow, fun id row hrow hnone => ?_, ?_⟩
    · rw [hnone] at hrow
      exact absurd hrow (by simp)
    · rw [max_eq_left hle]
  · obtain ⟨c', hc'⟩ := Catalog.exists_copyRows h (nodup_padRows c target)
    have hcopied := Catalog.Copied.of_copyRows hc'
    have hpad : padCatalog c target = some (((padRows c target).length : ℤ), c') := by
      rw [padCatalog_of_lt hle, hc']
      rfl
    refine ⟨_, c', hpad, hcopied.kept, fun id row hrow hnone => ?_, ?_⟩
    · rcases hcopied.added id row hrow with hold | hnew
      · rw [hnone] at hold
        exact absurd hold (by simp)
      · exact (mem_padRows hnew).1
    · rw [hcopied.size, length_padRows]
      omega

/-- An upsert of another ticker keeps the generated ones as they are. -/
lemma findTicker_upsert {t t' : Ticker} (name : String) (h : t' ≠ t) :
    (c.upsert t name).findTicker t' = none ↔ c.findTicker t' = none := by
  have hflag := Catalog.flag_upsert c t name t'
  rw [if_neg h, Catalog.flag, Catalog.flag] at hflag
  rw [← Option.map_eq_none_iff (f := fun e => e.2.isSynthetic), hflag, Option.map_eq_none_iff]

lemma Numbered.step {e : SeedCall} (hc : Numbered c) (h : system.step c e = some c') :
    Numbered c' := by
  cases e with
  | upsert t name other =>
    obtain rfl := Option.some.inj h
    have hkeep (t' : Ticker) (ht' : SynTicker t') :
        (c.upsert t name).findTicker t' = none ↔ c.findTicker t' = none :=
      findTicker_upsert name fun heq => other (heq ▸ ht')
    refine hc.imp (fun hfree t' ht' => (hkeep t' ht').2 (hfree t' ht')) fun htaken => ?_
    rwa [Ne, hkeep _ ⟨0, rfl⟩]
  | pad target drawn =>
    obtain rfl := Option.some.inj h
    by_cases hle : target ≤ c.rows.size
    · rw [padCatalog_of_le hle]
      exact hc
    · rw [padCatalog_of_lt hle]
      cases hcopy : c.copyRows (padRows c target) with
      | none => exact hc
      | some c' =>
        obtain ⟨id, hid⟩ := (Catalog.Copied.of_copyRows hcopy).has _ (first_mem_padRows hle)
        exact Or.inr fun hnone => Catalog.findTicker_none hnone ⟨_, hid, rfl⟩

/-- **Padding works once.**  In every catalog that upserts of other tickers and paddings make of one
without `SYN` tickers, a padding does what it says exactly if it has nothing to add or the catalog
still has no `SYN` ticker. -/
theorem padOk_iff (h : system.Reachable c) (target : ℤ) :
    PadOk c target ↔ target ≤ c.rows.size ∨ Unpadded c := by
  have hnumbered : Numbered c :=
    h.invariant (fun _ hinit => Or.inl hinit) fun _ _ _ hs hstep => hs.step hstep
  constructor
  · rintro ⟨hfresh, -⟩
    refine or_iff_not_imp_left.2 fun hle => hnumbered.resolve_right fun htaken => htaken ?_
    exact hfresh _ (first_mem_padRows hle)
  · intro hcond
    refine padOk_of_fresh fun row hrow => ?_
    rcases hcond with hle | hfree
    · rw [padRows_of_le hle] at hrow
      exact absurd hrow List.not_mem_nil
    · exact hfree _ (mem_padRows hrow).2

lemma unpadded_empty : Unpadded .empty := fun _ _ => rfl

/-- Three rows can be put into an empty catalog. -/
theorem pads_empty_catalog : PadOk .empty 3 :=
  (padOk_iff ⟨_, unpadded_empty, .refl _⟩ 3).2 (Or.inr unpadded_empty)

/-- **A second padding collides.**  After one padding to 1, a padding to 2 generates `SYN00001`
again. -/
theorem second_padding_collides : ¬ ∀ c target, system.Reachable c → PadOk c target := by
  intro h
  let c : Catalog := (padCatalog .empty 1).elim .empty Prod.snd
  have hreach : system.Reachable c :=
    ⟨_, unpadded_empty, (System.RunWhere.refl _).tail (e := .pad 1 0) trivial rfl⟩
  obtain ⟨-, added, c', hpad, -⟩ := h c 2 hreach
  have hraises : (padCatalog c 2).isNone = true := by decide +kernel
  rw [hpad] at hraises
  exact absurd hraises (by simp)

end SeedUsers
end TickerWatch
