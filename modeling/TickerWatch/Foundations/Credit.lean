import Mathlib
import TickerWatch.Foundations.Dict
import TickerWatch.Foundations.System

/-!
# Work that is paid for in advance

A system does a bounded amount of work when each step pays for what it does: out of the credit of
the state, or out of what its own label grants.  The credit rule (`exec_credit`) turns what one step
costs into what a run costs.  Where in addition some paying step is enabled as long as there is
something left to do, a run of at most as many steps as there is credit does it (`exec_drain`).

The credit of a dictionary is the total over its values.
-/

namespace TickerWatch

universe u v

namespace System

variable {σ : Type u} {ε : Type v} {S : System σ ε}

/-- The amounts of the labels of a list, added up. -/
def amount (f : ε → ℕ) (es : List ε) : ℕ := (es.map f).sum

@[simp] lemma amount_nil (f : ε → ℕ) : amount f [] = 0 := rfl

@[simp] lemma amount_cons (f : ε → ℕ) (e : ε) (es : List ε) :
    amount f (e :: es) = f e + amount f es := by rw [amount, amount, List.map_cons, List.sum_cons]

/-- Where the labels of a kind count one, they are counted. -/
lemma amount_ite (p : ε → Bool) (n : ℕ) (es : List ε) :
    amount (fun e => if p e = true then n else 0) es = n * es.countP p := by
  induction es with
  | nil => simp
  | cons e es ih =>
    rw [amount_cons, ih, List.countP_cons]
    split
    · rw [Nat.mul_add, Nat.mul_one, Nat.add_comm]
    · rw [Nat.zero_add, Nat.add_zero]

/-- **The credit rule.**  When each step pays for its work, a run does. -/
theorem exec_credit {I : σ → Prop} {credit : σ → ℕ} {work grant : ε → ℕ}
    (hkeep : ∀ s e t, I s → S.step s e = some t → I t)
    (hstep : ∀ s e t, I s → S.step s e = some t → work e + credit t ≤ credit s + grant e)
    {s t : σ} {es : List ε} (h : S.exec s es = some t) (hs : I s) :
    amount work es + credit t ≤ credit s + amount grant es := by
  induction es generalizing s with
  | nil =>
    obtain rfl := Option.some.inj h
    simp
  | cons e es ih =>
    obtain ⟨r, hr, hrest⟩ := exec_cons_eq_some.1 h
    have hone := hstep s e r hs hr
    have hmore := ih hrest (hkeep s e r hs hr)
    rw [amount_cons, amount_cons]
    omega

/-- **The drain rule.**  When a step of the kind `p` that spends credit is enabled until all is done,
as many steps of the kind as there is credit get all done. -/
theorem exec_drain {I done : σ → Prop} {credit : σ → ℕ} {p : ε → Prop}
    (hkeep : ∀ s e t, I s → S.step s e = some t → I t)
    (hnext : ∀ s, I s → ¬ done s → ∃ e t, p e ∧ S.step s e = some t ∧ credit t < credit s)
    {s : σ} (hs : I s) :
    ∃ es t, (∀ e ∈ es, p e) ∧ es.length ≤ credit s ∧ S.exec s es = some t ∧ done t := by
  induction hn : credit s using Nat.strong_induction_on generalizing s with
  | _ n ih =>
    by_cases hdone : done s
    · exact ⟨[], s, by simp, by simp, rfl, hdone⟩
    · obtain ⟨e, r, hp, hr, hlt⟩ := hnext s hs hdone
      obtain ⟨es, t, hes, hlen, hexec, ht⟩ := ih (credit r) (hn ▸ hlt) (hkeep s e r hs hr) rfl
      refine ⟨e :: es, t, ?_, ?_, exec_cons_eq_some.2 ⟨r, hr, hexec⟩, ht⟩
      · intro e' he'
        rcases List.mem_cons.1 he' with rfl | he'
        · exact hp
        · exact hes e' he'
      · rw [List.length_cons]
        omega

end System

namespace Dict

variable {κ : Type u} {ν : Type v}

/-- The sum of `f` over the values. -/
def total (f : ν → ℕ) (d : Dict κ ν) : ℕ := (d.entries.map fun e => f e.2).sum

@[simp] lemma total_empty (f : ν → ℕ) : (empty : Dict κ ν).total f = 0 := rfl

lemma total_eq_zero {f : ν → ℕ} {d : Dict κ ν} (h : ∀ v ∈ d.values, f v = 0) : d.total f = 0 := by
  rw [total, List.sum_eq_zero_iff_forall_eq_nat]
  intro n hn
  obtain ⟨e, he, rfl⟩ := List.mem_map.1 hn
  exact h e.2 (List.mem_map.2 ⟨e, he, rfl⟩)

/-- A function of the values that costs none of them more costs no more in total. -/
lemma total_mapValues_le {f : ν → ℕ} {g : κ → ν → ν} (h : ∀ k v, f (g k v) ≤ f v) (d : Dict κ ν) :
    (d.mapValues g).total f ≤ d.total f := by
  rw [total, total, mapValues, List.map_map]
  exact List.sum_le_sum fun e _ => h e.1 e.2

variable [DecidableEq κ]

lemma total_set_of_get?_none (f : ν → ℕ) {d : Dict κ ν} {k : κ} (v : ν) (h : d.get? k = none) :
    (d.set k v).total f = d.total f + f v := by
  rw [set, dif_neg (get?_eq_none_iff.1 h), total, total, List.map_append, List.sum_append]
  rfl

/-- In a list with distinct keys, replacing the value of one key changes the sum by as much. -/
lemma sum_replace (f : ν → ℕ) {l : List (κ × ν)} {k : κ} {old : ν} (v : ν)
    (hnodup : (l.map Prod.fst).Nodup) (h : (k, old) ∈ l) :
    (l.map fun e => f (if e.1 = k then v else e.2)).sum + f old =
      (l.map fun e => f e.2).sum + f v := by
  induction l with
  | nil => exact absurd h List.not_mem_nil
  | cons e l ih =>
    rw [List.map_cons, List.nodup_cons] at hnodup
    rcases List.mem_cons.1 h with rfl | hmem
    · have hsame : (l.map fun e => f (if e.1 = k then v else e.2)) = l.map fun e => f e.2 := by
        refine List.map_congr_left fun e he => ?_
        have hne : e.1 ≠ k := fun heq => hnodup.1 (List.mem_map.2 ⟨e, he, heq⟩)
        rw [if_neg hne]
      rw [List.map_cons, List.map_cons, hsame, if_pos rfl, List.sum_cons, List.sum_cons]
      show f v + _ + f old = f old + _ + f v
      omega
    · have hne : e.1 ≠ k := fun heq => hnodup.1 (List.mem_map.2 ⟨_, hmem, heq.symm⟩)
      have hrest := ih hnodup.2 hmem
      rw [List.map_cons, List.map_cons, if_neg hne, List.sum_cons, List.sum_cons]
      omega

lemma total_set_of_get? (f : ν → ℕ) {d : Dict κ ν} {k : κ} {old : ν} (v : ν)
    (h : d.get? k = some old) : (d.set k v).total f + f old = d.total f + f v := by
  rw [set, dif_pos (mem_keys_iff.2 ⟨old, h⟩), total, total, mapValues, List.map_map]
  exact sum_replace f v d.nodup_keys (get?_eq_some_iff.1 h)

end Dict

end TickerWatch
