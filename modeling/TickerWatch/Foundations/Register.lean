import Mathlib.Order.Basic
import Mathlib.Data.List.Basic
import Mathlib.Order.Lattice

/-!
# Guarded registers

A register holds at most one stamped value and takes a write only if the write is not older
than what it holds.  Implementations differ in what they do with a write that carries the very
stamp already stored: `Ties.accept` rewrites, `Ties.reject` leaves the register alone.

The difference is invisible as long as a stamp determines its value: after any sequence of
writes, in any order and with any repetition, a register that started empty holds the newest of
them (`offerAll_eq_some_iff`), so two registers offered the same writes agree.  `view_foldl` lifts a
keyed store whose single write is such an offer to sequences of writes.
-/

namespace TickerWatch

universe u v

/-- What a register does with a write whose stamp equals the stored one. -/
inductive Ties
  | accept
  | reject
  deriving DecidableEq, Repr

namespace Register

variable {τ : Type u} {ν : Type v} [LinearOrder τ]

/-- The guard: `new` may replace `old`. -/
def Admits : Ties → τ → τ → Prop
  | .accept, old, new => old ≤ new
  | .reject, old, new => old < new

instance (t : Ties) (old new : τ) : Decidable (Admits t old new) :=
  match t with
  | .accept => inferInstanceAs (Decidable (old ≤ new))
  | .reject => inferInstanceAs (Decidable (old < new))

/-- Offer one write to a register. -/
def offer (t : Ties) (r : Option (τ × ν)) (w : τ × ν) : Option (τ × ν) :=
  match r with
  | none => some w
  | some cur => if Admits t cur.1 w.1 then some w else some cur

/-- Offer a sequence of writes. -/
def offerAll (t : Ties) (r : Option (τ × ν)) (ws : List (τ × ν)) : Option (τ × ν) :=
  ws.foldl (offer t) r

variable {t : Ties} {r : Option (τ × ν)} {w cur : τ × ν} {ws : List (τ × ν)}

lemma Admits.le {old new : τ} (h : Admits t old new) : old ≤ new := by
  cases t with
  | accept => exact h
  | reject => exact le_of_lt h

lemma le_of_not_admits {old new : τ} (h : ¬ Admits t old new) : new ≤ old := by
  cases t with
  | accept => exact le_of_lt (not_le.1 h)
  | reject => exact not_lt.1 h

@[simp] lemma offer_none : offer t none w = some w := rfl

lemma offer_some_of_admits (h : Admits t cur.1 w.1) : offer t (some cur) w = some w := if_pos h

lemma offer_some_of_not_admits (h : ¬ Admits t cur.1 w.1) : offer t (some cur) w = some cur :=
  if_neg h

/-- An offer leaves the register with the write or with what it held. -/
lemma offer_cases (t : Ties) (r : Option (τ × ν)) (w : τ × ν) :
    offer t r w = some w ∨ (offer t r w = r ∧ ∃ cur, r = some cur ∧ w.1 ≤ cur.1) := by
  cases r with
  | none => exact Or.inl rfl
  | some cur =>
    by_cases h : Admits t cur.1 w.1
    · exact Or.inl (offer_some_of_admits h)
    · exact Or.inr ⟨offer_some_of_not_admits h, cur, rfl, le_of_not_admits h⟩

/-- **A guarded register never goes back.**  After an offer it holds a value no older than the
one it held, and no older than the one offered. -/
lemma offer_le (t : Ties) (r : Option (τ × ν)) (w : τ × ν) :
    ∃ new, offer t r w = some new ∧ w.1 ≤ new.1 ∧ ∀ cur, r = some cur → cur.1 ≤ new.1 := by
  cases r with
  | none => exact ⟨w, rfl, le_rfl, by simp⟩
  | some cur =>
    by_cases h : Admits t cur.1 w.1
    · refine ⟨w, offer_some_of_admits h, le_rfl, ?_⟩
      rintro cur' ⟨⟩
      exact h.le
    · refine ⟨cur, offer_some_of_not_admits h, le_of_not_admits h, ?_⟩
      rintro cur' ⟨⟩
      exact le_rfl

@[simp] lemma offerAll_nil : offerAll t r [] = r := rfl

@[simp] lemma offerAll_cons : offerAll t r (w :: ws) = offerAll t (offer t r w) ws := rfl

lemma offerAll_append (ws' : List (τ × ν)) :
    offerAll t r (ws ++ ws') = offerAll t (offerAll t r ws) ws' := List.foldl_append

/-- What a register holds after a sequence of writes is one of them or what it held, and none
of these is newer. -/
lemma offerAll_spec (ws : List (τ × ν)) (r : Option (τ × ν)) {out : τ × ν}
    (h : offerAll t r ws = some out) :
    (out ∈ ws ∨ r = some out) ∧ (∀ w ∈ ws, w.1 ≤ out.1) ∧ ∀ cur, r = some cur → cur.1 ≤ out.1 := by
  induction ws generalizing r with
  | nil =>
    obtain rfl : r = some out := h
    exact ⟨Or.inr rfl, by simp, by rintro cur ⟨⟩; exact le_rfl⟩
  | cons w ws ih =>
    obtain ⟨hmem, hall, hcur⟩ := ih (offer t r w) h
    obtain ⟨new, hnew, hw, hr⟩ := offer_le t r w
    have hout := hcur new hnew
    refine ⟨?_, ?_, fun cur hc => (hr cur hc).trans hout⟩
    · rcases hmem with hmem | hoff
      · exact Or.inl (List.mem_cons_of_mem _ hmem)
      · rcases offer_cases t r w with hoff' | ⟨hoff', -⟩
        · rw [hoff'] at hoff
          obtain rfl := Option.some.inj hoff
          exact Or.inl List.mem_cons_self
        · exact Or.inr (hoff' ▸ hoff)
    · intro w' hw'
      rcases List.mem_cons.1 hw' with rfl | hw'
      · exact hw.trans hout
      · exact hall w' hw'

lemma offerAll_isSome (hne : ws ≠ []) : ∃ out, offerAll t r ws = some out := by
  obtain ⟨ws, w, rfl⟩ := List.eq_nil_or_concat' ws |>.resolve_left hne
  obtain ⟨new, hnew, -⟩ := offer_le t (offerAll t r ws) w
  exact ⟨new, by rw [offerAll_append]; exact hnew⟩

/-- **Convergence.**  When a stamp determines its write, a register that started empty ends with
the newest write it was offered, whatever it does with ties. -/
theorem offerAll_eq_some_iff (hstamp : ∀ w ∈ ws, ∀ w' ∈ ws, w.1 = w'.1 → w = w') :
    offerAll t none ws = some w ↔ w ∈ ws ∧ ∀ w' ∈ ws, w'.1 ≤ w.1 := by
  constructor
  · intro h
    obtain ⟨hmem, hall, -⟩ := offerAll_spec ws none h
    exact ⟨hmem.resolve_right (by simp), hall⟩
  · rintro ⟨hmem, hmax⟩
    obtain ⟨out, hout⟩ := offerAll_isSome (t := t) (r := none) (List.ne_nil_of_mem hmem)
    obtain ⟨hmem', hall, -⟩ := offerAll_spec ws none hout
    have hmem' := hmem'.resolve_right (by simp)
    rw [hout, hstamp out hmem' w hmem (le_antisymm (hmax out hmem') (hall w hmem))]

lemma offerAll_eq_none_iff : offerAll t none ws = none ↔ ws = [] := by
  constructor
  · intro h
    by_contra hne
    obtain ⟨out, hout⟩ := offerAll_isSome (t := t) (r := none) hne
    rw [h] at hout
    exact absurd hout (by simp)
  · rintro rfl
    rfl

/-- What was stored is kept or replaced by something no older. -/
def StampLe (before after : Option τ) : Prop := ∀ a, before = some a → ∃ b, after = some b ∧ a ≤ b

lemma stampLe_offerAll (t : Ties) (r : Option (τ × ν)) (ws : List (τ × ν)) :
    StampLe (r.map Prod.fst) ((offerAll t r ws).map Prod.fst) := by
  intro a ha
  obtain ⟨cur, rfl, rfl⟩ := Option.map_eq_some_iff.1 ha
  have hsome : ∃ out, offerAll t (some cur) ws = some out := by
    by_cases hws : ws = []
    · exact ⟨cur, by rw [hws, offerAll_nil]⟩
    · exact offerAll_isSome hws
  obtain ⟨out, hout⟩ := hsome
  refine ⟨out.1, by rw [hout, Option.map_some], ?_⟩
  exact (offerAll_spec ws _ hout).2.2 cur rfl

/-! ## Keyed stores -/

/-- A keyed store whose single write is an offer to one register: a sequence of writes offers to
each register the writes under its key. -/
theorem view_foldl {σ : Type*} {ω : Type*} {κ : Type*} [DecidableEq κ] {put : σ → ω → σ}
    {view : σ → κ → Option (τ × ν)} {key : ω → κ} {val : ω → τ × ν}
    (hput : ∀ s w k, view (put s w) k = if key w = k then offer t (view s k) (val w) else view s k)
    (s : σ) (ws : List ω) (k : κ) :
    view (ws.foldl put s) k =
      offerAll t (view s k) ((ws.filter fun w => decide (key w = k)).map val) := by
  induction ws generalizing s with
  | nil => rfl
  | cons w ws ih =>
    rw [List.foldl_cons, ih, hput]
    by_cases h : key w = k <;> simp [h]

end Register
end TickerWatch
