import Mathlib.Data.List.Sort

/-!
# Ordered and limited results

`ORDER BY ... LIMIT n` of a query.  `ThenBy` puts a sort key before the keys that follow it, and
`firstN` sorts and cuts.

What such a query promises does not mention sorting: the answer is in order, has `n` rows or all of
them, and what was left out comes after what was not (`IsFirst`).  When rows that are equal in the
order are equal, that determines the answer (`IsFirst.unique`), so nothing depends on the order in
which the table happens to be read.
-/

namespace TickerWatch

universe u v

variable {α : Type u} {κ : Type v}

/-! ## Sort keys -/

section ThenBy

variable [LinearOrder κ]

/-- First by the key, and where the keys are equal by `r`. -/
def ThenBy (f : α → κ) (r : α → α → Prop) (a b : α) : Prop := f a < f b ∨ f a = f b ∧ r a b

variable {f : α → κ} {r : α → α → Prop}

instance [DecidableRel r] : DecidableRel (ThenBy f r) :=
  fun a b => inferInstanceAs (Decidable (f a < f b ∨ f a = f b ∧ r a b))

instance [IsTrans α r] : IsTrans α (ThenBy f r) where
  trans a b c := by
    rintro (hab | ⟨hab, hr⟩) (hbc | ⟨hbc, hr'⟩)
    · exact Or.inl (hab.trans hbc)
    · exact Or.inl (hab.trans_eq hbc)
    · exact Or.inl (hab.trans_lt hbc)
    · exact Or.inr ⟨hab.trans hbc, IsTrans.trans _ _ _ hr hr'⟩

instance [Std.Total r] : Std.Total (ThenBy f r) where
  total a b := by
    rcases lt_trichotomy (f a) (f b) with hlt | heq | hlt
    · exact Or.inl (Or.inl hlt)
    · exact (Std.Total.total (r := r) a b).imp (fun h => Or.inr ⟨heq, h⟩)
        fun h => Or.inr ⟨heq.symm, h⟩
    · exact Or.inr (Or.inl hlt)

lemma ThenBy.le {a b : α} (h : ThenBy f r a b) : f a ≤ f b :=
  h.elim le_of_lt fun h => le_of_eq h.1

/-- What is equal in the order is equal in its last key. -/
lemma ThenBy.both {a b : α} (h : ThenBy f r a b) (h' : ThenBy f r b a) : r a b ∧ r b a := by
  have heq : f a = f b := le_antisymm h.le h'.le
  exact ⟨(h.resolve_left (not_lt.2 heq.ge)).2, (h'.resolve_left (not_lt.2 heq.le)).2⟩

end ThenBy

/-! ## The first of them -/

/-- `ORDER BY r LIMIT n`. -/
def firstN (r : α → α → Prop) [DecidableRel r] (n : ℕ) (l : List α) : List α :=
  (l.insertionSort r).take n

/-- `res` is the first `n` of `l`. -/
structure IsFirst (r : α → α → Prop) (n : ℕ) (l res : List α) : Prop where
  pairwise : res.Pairwise r
  subperm : res.Subperm l
  length_eq : res.length = min n l.length
  before : ∀ a ∈ res, ∀ b ∈ l, b ∉ res → r a b

variable {r : α → α → Prop} {n : ℕ} {l l' res res' : List α}

/-- **What sorting and cutting returns.** -/
theorem isFirst_firstN [DecidableRel r] [IsTrans α r] [Std.Total r] (n : ℕ) (l : List α) :
    IsFirst r n l (firstN r n l) := by
  have hperm : (l.insertionSort r).Perm l := List.perm_insertionSort r l
  have hsorted : (l.insertionSort r).Pairwise r := List.pairwise_insertionSort r l
  refine ⟨hsorted.sublist (List.take_sublist _ _), ?_, ?_, fun a ha b hb hnot => ?_⟩
  · exact (List.take_sublist _ _).subperm.trans hperm.subperm
  · rw [firstN, List.length_take, hperm.length_eq]
  · rw [← List.take_append_drop n (l.insertionSort r), List.pairwise_append] at hsorted
    refine hsorted.2.2 a ha b ?_
    have hmem : b ∈ (l.insertionSort r).take n ++ (l.insertionSort r).drop n := by
      rw [List.take_append_drop]
      exact hperm.mem_iff.2 hb
    exact (List.mem_append.1 hmem).resolve_left hnot

namespace IsFirst

lemma subset (h : IsFirst r n l res) {a : α} (ha : a ∈ res) : a ∈ l := h.subperm.subset ha

lemma nodup (h : IsFirst r n l res) (hl : l.Nodup) : res.Nodup := by
  obtain ⟨part, hperm, hsub⟩ := h.subperm
  exact hperm.nodup_iff.1 (hl.sublist hsub)

lemma of_perm (h : IsFirst r n l res) (hperm : l.Perm l') : IsFirst r n l' res :=
  ⟨h.pairwise, h.subperm.trans hperm.subperm, h.length_eq.trans (by rw [hperm.length_eq]),
    fun a ha b hb => h.before a ha b (hperm.mem_iff.2 hb)⟩

lemma exists_head [Std.Total r] (h : IsFirst r n l res) (hn : 0 < n) (hl : l ≠ []) :
    ∃ a rest, res = a :: rest ∧ a ∈ l ∧ ∀ b ∈ l, r a b := by
  cases hres : res with
  | nil =>
    have hlength := h.length_eq
    have hpos := List.length_pos_iff.2 hl
    rw [hres, List.length_nil] at hlength
    omega
  | cons a rest =>
    have ha : a ∈ res := hres ▸ List.mem_cons_self
    refine ⟨a, rest, rfl, h.subset ha, fun b hb => ?_⟩
    by_cases hmem : b ∈ res
    · rw [hres, List.mem_cons] at hmem
      rcases hmem with rfl | hrest
      · exact (Std.Total.total (r := r) b b).elim id id
      · have hpairwise := h.pairwise
        rw [hres, List.pairwise_cons] at hpairwise
        exact hpairwise.1 b hrest
    · exact h.before a ha b hb hmem

/-- If the answer is shorter than the limit, nothing was left out. -/
lemma mem_of_lt (h : IsFirst r n l res) (hlt : res.length < n) {a : α} (ha : a ∈ l) : a ∈ res := by
  have hlength : l.length ≤ res.length := by
    have := h.length_eq
    omega
  exact (h.subperm.perm_of_length_le hlength).mem_iff.2 ha

/-- **The promise determines the answer**, when no two rows are equal in the order. -/
theorem unique (hl : l.Nodup) (hanti : ∀ a ∈ l, ∀ b ∈ l, r a b → r b a → a = b)
    (h : IsFirst r n l res) (h' : IsFirst r n l res') : res = res' := by
  have hlength : res.length = res'.length := h.length_eq.trans h'.length_eq.symm
  have hnodup := h.nodup hl
  have hnodup' := h'.nodup hl
  have hsub : res ⊆ res' := by
    intro a ha
    by_contra hnot
    -- some row of the other answer is left out here, and it would come before `a` and after it
    obtain ⟨b, hb, hb'⟩ : ∃ b ∈ res', b ∉ res := by
      by_contra hall
      push Not at hall
      have hperm := (List.subperm_of_subset hnodup' hall).perm_of_length_le hlength.le
      exact hnot (hperm.mem_iff.2 ha)
    have hab := h.before a ha b (h'.subset hb) hb'
    have hba := h'.before b hb a (h.subset ha) hnot
    exact hnot (hanti a (h.subset ha) b (h'.subset hb) hab hba ▸ hb)
  have hperm := (List.subperm_of_subset hnodup hsub).perm_of_length_le hlength.ge
  exact hperm.eq_of_pairwise
    (fun a b ha hb => hanti a (h.subset ha) b (h'.subset hb)) h.pairwise h'.pairwise

end IsFirst

end TickerWatch
