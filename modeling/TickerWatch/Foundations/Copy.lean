import TickerWatch.Foundations.Table

/-!
# `COPY` into a table

`COPY` inserts a list of rows in one statement, each under the next id of the sequence.  It is
refused as a whole if a row breaks the unique key, and otherwise appends: the ids it gives start
where the sequence stood and are without gaps (`copied_of_copy`).
-/

namespace TickerWatch

universe u v

namespace Table

variable {ρ : Type u} {κ : Type v} {key : ρ → κ} [DecidableEq κ]

/-- `COPY`: every row, or a violation. -/
def copy (t : Table key) (rows : List ρ) : Option (Table key) :=
  rows.foldlM (fun t row => (t.insert row).map Prod.snd) t

/-- `t'` is `t` with the given rows appended. -/
structure Copied (t : Table key) (rows : List ρ) (t' : Table key) : Prop where
  nextId_eq : t'.nextId = t.nextId + rows.length
  get?_iff : ∀ id row, t'.get? id = some row ↔
    t.get? id = some row ∨ ∃ k : ℕ, id = t.nextId + k ∧ rows[k]? = some row

variable {t t' : Table key} {row : ρ} {rows : List ρ} {id : ℤ}

omit [DecidableEq κ] in
lemma Copied.nil (t : Table key) : Copied t [] t := ⟨by simp, by simp⟩

/-- One more row goes under the next id. -/
lemma Copied.cons {mid : Table key} (h : t.insert row = some (id, mid)) (hrest : Copied mid rows t') :
    Copied t (row :: rows) t' := by
  obtain ⟨rfl, hinsert⟩ := insert_eq_some_iff.1 h
  obtain ⟨hfree, -, -, hnext⟩ := insertAt_eq_some_iff.1 hinsert
  have hnext' : mid.nextId = t.nextId + 1 := by omega
  refine ⟨?_, fun id row' => ?_⟩
  · rw [hrest.nextId_eq, hnext', List.length_cons]
    push_cast
    omega
  · rw [hrest.get?_iff, get?_insertAt hinsert, hnext']
    constructor
    · rintro (hget | ⟨k, rfl, hk⟩)
      · split at hget
        case isTrue heq =>
          exact Or.inr ⟨0, by simpa using heq, hget⟩
        case isFalse => exact Or.inl hget
      · exact Or.inr ⟨k + 1, by push_cast; omega, hk⟩
    · rintro (hget | ⟨k, rfl, hk⟩)
      · have hne : id ≠ t.nextId := fun heq => by
          rw [heq, hfree] at hget
          exact absurd hget (by simp)
        rw [if_neg hne]
        exact Or.inl hget
      · cases k with
        | zero => exact Or.inl (by simpa using hk)
        | succ k => exact Or.inr ⟨k, by push_cast; omega, hk⟩

/-- **What a `COPY` that returns has done.** -/
theorem copied_of_copy (h : t.copy rows = some t') : Copied t rows t' := by
  induction rows generalizing t with
  | nil =>
    obtain rfl := Option.some.inj h
    exact .nil t
  | cons row rows ih =>
    rw [copy, List.foldlM_cons] at h
    obtain ⟨mid, hmid, hrest⟩ := Option.bind_eq_some_iff.1 h
    obtain ⟨⟨id, mid'⟩, hinsert, rfl⟩ := Option.map_eq_some_iff.1 hmid
    exact .cons hinsert (ih hrest)

/-- **When a `COPY` is not refused.**  New rows whose keys differ and are all free can be copied. -/
theorem exists_copy (hfree : ∀ row ∈ rows, t.find? (key row) = none)
    (hnodup : (rows.map key).Nodup) : ∃ t', t.copy rows = some t' := by
  induction rows generalizing t with
  | nil => exact ⟨t, rfl⟩
  | cons row rows ih =>
    obtain ⟨hrow, hrows⟩ := List.forall_mem_cons.1 hfree
    rw [List.map_cons, List.nodup_cons] at hnodup
    obtain ⟨mid, hmid⟩ := exists_insertAt (get?_eq_none_of_nextId_le le_rfl) hrow
    have hinsert : t.insert row = some (t.nextId, mid) := insert_eq_some_iff.2 ⟨rfl, hmid⟩
    obtain ⟨t', ht'⟩ := ih (t := mid) (fun row' hrow' => by
      refine find?_eq_none_iff.2 fun id r hr hkey => ?_
      rw [get?_insertAt hmid] at hr
      split at hr
      · obtain rfl := Option.some.inj hr
        exact hnodup.1 (hkey ▸ List.mem_map_of_mem hrow')
      · exact find?_eq_none_iff.1 (hrows row' hrow') id r hr hkey) hnodup.2
    refine ⟨t', ?_⟩
    rw [copy, List.foldlM_cons, hinsert]
    exact ht'

end Table

end TickerWatch
