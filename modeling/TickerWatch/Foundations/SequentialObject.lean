import Mathlib.Logic.Function.Basic
import Mathlib.Data.List.Basic

/-!
# Sequential objects

What a shared object is for, said without its concurrency: how an operation changes the state, and
which results it may have there.  A log of operations with their results is legal when every result
is one the object allows in the state the operations before it lead to.

A program whose operations take effect one at a time is linearizable when the log of these moments
is legal.  For a family of objects (`pointwise`) that is a matter of each member alone
(`legal_pointwise_iff`), so the results of one member do not depend on what is done to the others.
-/

namespace TickerWatch

universe u v w x

/-- How operations `ω` change a state, and which results `ρ` they may have. -/
structure SeqObject (α : Type u) (ω : Type v) (ρ : Type w) where
  apply : α → ω → α
  Allows : α → ω → ρ → Prop

namespace SeqObject

variable {α : Type u} {ω : Type v} {ρ : Type w} (o : SeqObject α ω ρ)

/-- The state after the operations of a log. -/
def after (a : α) (log : List (ω × ρ)) : α := log.foldl (fun a e => o.apply a e.1) a

/-- Every result of the log is allowed where it stands. -/
def Legal : α → List (ω × ρ) → Prop
  | _, [] => True
  | a, e :: log => o.Allows a e.1 e.2 ∧ Legal (o.apply a e.1) log

variable {o} {a : α} {log log' : List (ω × ρ)}

@[simp] lemma after_nil (a : α) : o.after a [] = a := rfl

@[simp] lemma after_cons (a : α) (e : ω × ρ) (log : List (ω × ρ)) :
    o.after a (e :: log) = o.after (o.apply a e.1) log := rfl

lemma after_append (a : α) (log log' : List (ω × ρ)) :
    o.after a (log ++ log') = o.after (o.after a log) log' := List.foldl_append

@[simp] lemma legal_nil (a : α) : o.Legal a [] := trivial

@[simp] lemma legal_cons {e : ω × ρ} :
    o.Legal a (e :: log) ↔ o.Allows a e.1 e.2 ∧ o.Legal (o.apply a e.1) log := Iff.rfl

/-- A log is legal exactly if its first part is, and the rest is from where the first part ends. -/
theorem legal_append_iff :
    o.Legal a (log ++ log') ↔ o.Legal a log ∧ o.Legal (o.after a log) log' := by
  induction log generalizing a with
  | nil => simp
  | cons e log ih => rw [List.cons_append, legal_cons, legal_cons, ih, after_cons, and_assoc]

/-- One more operation keeps a log legal if its result is allowed in the state reached. -/
lemma Legal.concat {e : ω × ρ} (h : o.Legal a log) (he : o.Allows (o.after a log) e.1 e.2) :
    o.Legal a (log ++ [e]) := legal_append_iff.2 ⟨h, he, trivial⟩

/-- In a legal log every result is allowed in the state the operations before it lead to. -/
lemma Legal.allows {e : ω × ρ} (h : o.Legal a (log ++ e :: log')) :
    o.Allows (o.after a log) e.1 e.2 := (legal_append_iff.1 h).2.1

/-! ## Families of objects -/

variable {κ : Type x} [DecidableEq κ]

/-- One object a key: an operation names the key it is for. -/
def pointwise (o : SeqObject α ω ρ) : SeqObject (κ → α) (κ × ω) ρ where
  apply a e := Function.update a e.1 (o.apply (a e.1) e.2)
  Allows a e r := o.Allows (a e.1) e.2 r

@[simp] lemma pointwise_apply_self (a : κ → α) (k : κ) (op : ω) :
    o.pointwise.apply a (k, op) k = o.apply (a k) op := Function.update_self _ _ _

lemma pointwise_apply_ne (a : κ → α) {k k' : κ} (op : ω) (h : k' ≠ k) :
    o.pointwise.apply a (k, op) k' = a k' := Function.update_of_ne h _ _

/-- What a log says of one key. -/
def part (k : κ) (log : List ((κ × ω) × ρ)) : List (ω × ρ) :=
  (log.filter fun e => decide (e.1.1 = k)).map fun e => (e.1.2, e.2)

lemma part_cons_self (k : κ) (op : ω) (r : ρ) (log : List ((κ × ω) × ρ)) :
    part k (((k, op), r) :: log) = (op, r) :: part k log := by
  rw [part, List.filter_cons_of_pos (by simp), List.map_cons, part]

lemma part_cons_ne {k k' : κ} (h : k' ≠ k) (op : ω) (r : ρ) (log : List ((κ × ω) × ρ)) :
    part k (((k', op), r) :: log) = part k log := by
  rw [part, List.filter_cons_of_neg (by simpa using h), part]

/-- The state of one key comes from the operations for it. -/
theorem after_pointwise (a : κ → α) (log : List ((κ × ω) × ρ)) (k : κ) :
    o.pointwise.after a log k = o.after (a k) (part k log) := by
  induction log generalizing a with
  | nil => rfl
  | cons e log ih =>
    obtain ⟨⟨k', op⟩, r⟩ := e
    rw [after_cons, ih]
    by_cases h : k' = k
    · subst h
      rw [part_cons_self, after_cons, pointwise_apply_self]
    · rw [part_cons_ne h, pointwise_apply_ne _ _ (Ne.symm h)]

/-- **Locality.**  A log of a family is legal exactly if it is legal for every key by itself. -/
theorem legal_pointwise_iff {a : κ → α} {log : List ((κ × ω) × ρ)} :
    o.pointwise.Legal a log ↔ ∀ k, o.Legal (a k) (part k log) := by
  induction log generalizing a with
  | nil => simp [part]
  | cons e log ih =>
    obtain ⟨⟨k', op⟩, r⟩ := e
    rw [legal_cons, ih]
    constructor
    · rintro ⟨hr, hlog⟩ k
      by_cases h : k' = k
      · subst h
        rw [part_cons_self, legal_cons]
        have hself := hlog k'
        rw [pointwise_apply_self] at hself
        exact ⟨hr, hself⟩
      · rw [part_cons_ne h]
        have hother := hlog k
        rwa [pointwise_apply_ne _ _ (Ne.symm h)] at hother
    · intro h
      have hself := h k'
      rw [part_cons_self, legal_cons] at hself
      refine ⟨hself.1, fun k => ?_⟩
      by_cases hk : k' = k
      · subst hk
        rw [pointwise_apply_self]
        exact hself.2
      · have hother := h k
        rw [part_cons_ne hk] at hother
        rwa [pointwise_apply_ne _ _ (Ne.symm hk)]

end SeqObject

end TickerWatch
