import Mathlib.Logic.Relation
import Mathlib.Data.List.Basic

/-!
# Labelled systems and their runs

A system is a partial step function on states: the label carries everything the environment
chooses, so a label either is disabled in a state or leads to exactly one next state.

Runs are taken under a condition on steps (`RunWhere`), because a property that holds of a
program only as long as some branch is not taken is a property of the runs that avoid the
branch.  The unconditional notions are the instance at the condition that always holds.
-/

namespace TickerWatch

universe u v

/-- A partial, label-deterministic transition system. -/
structure System (σ : Type u) (ε : Type v) where
  init : σ → Prop
  step : σ → ε → Option σ

namespace System

variable {σ : Type u} {ε : Type v} (S : System σ ε)

/-- One step under a label that satisfies `ok` in the state before it. -/
def StepWhere (ok : σ → ε → Prop) (s t : σ) : Prop := ∃ e, ok s e ∧ S.step s e = some t

/-- A finite run each of whose steps satisfies `ok`. -/
def RunWhere (ok : σ → ε → Prop) : σ → σ → Prop := Relation.ReflTransGen (S.StepWhere ok)

/-- A finite run. -/
def Run : σ → σ → Prop := S.RunWhere fun _ _ => True

/-- The states an initial state leads to by steps that satisfy `ok`. -/
def ReachableWhere (ok : σ → ε → Prop) (t : σ) : Prop := ∃ s, S.init s ∧ S.RunWhere ok s t

/-- The states an initial state leads to. -/
def Reachable (t : σ) : Prop := ∃ s, S.init s ∧ S.Run s t

/-- The state a list of labels leads to, when each is enabled in turn and satisfies `ok`. -/
def execWhere (ok : σ → ε → Prop) [∀ s e, Decidable (ok s e)] (s : σ) (es : List ε) : Option σ :=
  es.foldlM (fun s e => if ok s e then S.step s e else none) s

/-- The state a list of labels leads to, when each is enabled in turn. -/
def exec (s : σ) (es : List ε) : Option σ := es.foldlM S.step s

variable {S} {ok : σ → ε → Prop}

lemma RunWhere.refl (s : σ) : S.RunWhere ok s s := Relation.ReflTransGen.refl

lemma RunWhere.trans {s t r : σ} (h₁ : S.RunWhere ok s t) (h₂ : S.RunWhere ok t r) :
    S.RunWhere ok s r := Relation.ReflTransGen.trans h₁ h₂

lemma RunWhere.tail {s t r : σ} {e : ε} (h : S.RunWhere ok s t) (hok : ok t e)
    (hstep : S.step t e = some r) : S.RunWhere ok s r :=
  Relation.ReflTransGen.tail h ⟨e, hok, hstep⟩

/-- **The run rule.**  What each admitted step preserves, a run of admitted steps preserves. -/
theorem RunWhere.invariant {I : σ → Prop} {s t : σ} (h : S.RunWhere ok s t) (hs : I s)
    (hstep : ∀ s e t, ok s e → I s → S.step s e = some t → I t) : I t := by
  induction h with
  | refl => exact hs
  | tail _ hst ih =>
    obtain ⟨e, hok, he⟩ := hst
    exact hstep _ e _ hok ih he

/-- A run whose steps satisfy a stronger condition satisfies a weaker one. -/
lemma RunWhere.mono {ok' : σ → ε → Prop} {s t : σ} (h : S.RunWhere ok s t)
    (himp : ∀ s e, ok s e → ok' s e) : S.RunWhere ok' s t :=
  Relation.ReflTransGen.mono (fun _ _ ⟨e, hok, he⟩ => ⟨e, himp _ _ hok, he⟩) _ _ h

lemma RunWhere.run {s t : σ} (h : S.RunWhere ok s t) : S.Run s t := h.mono fun _ _ _ => trivial

/-- The run rule from the initial states on. -/
theorem ReachableWhere.invariant {I : σ → Prop} {t : σ} (h : S.ReachableWhere ok t)
    (hinit : ∀ s, S.init s → I s)
    (hstep : ∀ s e t, ok s e → I s → S.step s e = some t → I t) : I t := by
  obtain ⟨s, hs, hrun⟩ := h
  exact hrun.invariant (hinit s hs) hstep

/-- The run rule for all reachable states. -/
theorem Reachable.invariant {I : σ → Prop} {t : σ} (h : S.Reachable t)
    (hinit : ∀ s, S.init s → I s) (hstep : ∀ s e t, I s → S.step s e = some t → I t) : I t :=
  have h' : S.ReachableWhere (fun _ _ => True) t := h
  h'.invariant hinit fun s e t _ => hstep s e t

/-- **The exactness rule.**  When an admitted step keeps a state good (`G`) exactly if it satisfies
`cond`, and what is not good stays so, a run ends in a good state exactly if all its steps satisfy
`cond`.  The invariant `I` has to survive good steps only. -/
theorem RunWhere.good_iff {cond : σ → ε → Prop} {G I : σ → Prop} {s t : σ}
    (h : S.RunWhere ok s t) (hs : I s) (hgood : G s)
    (hkeep : ∀ s e t, ok s e → cond s e → I s → G s → S.step s e = some t → I t)
    (hstep : ∀ s e t, ok s e → I s → G s → S.step s e = some t → (G t ↔ cond s e))
    (hback : ∀ s e t, S.step s e = some t → G t → G s) :
    G t ↔ S.RunWhere (fun s e => ok s e ∧ cond s e) s t := by
  have hforward : ∀ t, S.RunWhere (fun s e => ok s e ∧ cond s e) s t → I t ∧ G t := by
    intro t ht
    refine ht.invariant (I := fun t => I t ∧ G t) ⟨hs, hgood⟩ ?_
    rintro r e r' ⟨hok, hcond⟩ ⟨hI, hr⟩ he
    exact ⟨hkeep r e r' hok hcond hI hr he, (hstep r e r' hok hI hr he).2 hcond⟩
  refine ⟨fun ht => ?_, fun ht => (hforward t ht).2⟩
  induction h with
  | refl => exact RunWhere.refl s
  | tail _ hst ih =>
    obtain ⟨e, hok, he⟩ := hst
    have hrun := ih (hback _ e _ he ht)
    obtain ⟨hI, hr⟩ := hforward _ hrun
    exact hrun.tail ⟨hok, (hstep _ e _ hok hI hr he).1 ht⟩ he

/-- Executing a list of labels under a condition gives a run under it. -/
lemma runWhere_of_execWhere [∀ s e, Decidable (ok s e)] {s t : σ} {es : List ε}
    (h : S.execWhere ok s es = some t) : S.RunWhere ok s t := by
  induction es generalizing s with
  | nil =>
    obtain rfl : s = t := by simpa [execWhere] using h
    exact RunWhere.refl _
  | cons e es ih =>
    rw [execWhere, List.foldlM_cons] at h
    obtain ⟨r, hr, hrest⟩ := Option.bind_eq_some_iff.1 h
    by_cases hok : ok s e
    · rw [if_pos hok] at hr
      exact (RunWhere.tail (RunWhere.refl s) hok hr).trans (ih hrest)
    · rw [if_neg hok] at hr
      exact absurd hr (by simp)

/-! ## Runs as lists of labels -/

@[simp] lemma exec_nil (s : σ) : S.exec s [] = some s := rfl

lemma exec_cons_eq_some {s t : σ} {e : ε} {es : List ε} :
    S.exec s (e :: es) = some t ↔ ∃ r, S.step s e = some r ∧ S.exec r es = some t := by
  rw [exec, List.foldlM_cons]
  exact Option.bind_eq_some_iff

lemma exec_append_eq_some {s t : σ} {es es' : List ε} :
    S.exec s (es ++ es') = some t ↔ ∃ r, S.exec s es = some r ∧ S.exec r es' = some t := by
  rw [exec, List.foldlM_append]
  exact Option.bind_eq_some_iff

/-- The run rule for a list of labels. -/
theorem invariant_of_exec {I : σ → Prop} {s t : σ} {es : List ε} (h : S.exec s es = some t)
    (hs : I s) (hstep : ∀ s e t, I s → S.step s e = some t → I t) : I t := by
  induction es generalizing s with
  | nil =>
    obtain rfl := Option.some.inj h
    exact hs
  | cons e es ih =>
    obtain ⟨r, hr, hrest⟩ := exec_cons_eq_some.1 h
    exact ih hrest (hstep s e r hs hr)

/-- A list of labels that are enabled in turn makes a run. -/
lemma run_of_exec {s t : σ} {es : List ε} (h : S.exec s es = some t) : S.Run s t :=
  invariant_of_exec h (RunWhere.refl s) fun _ _ _ hr hstep => hr.tail trivial hstep

/-- **The projection rule.**  When the labels that satisfy `p` can be followed by a related state,
and the others leave the relation alone, the labels that satisfy `p` make a run by themselves. -/
theorem exec_filter {R : σ → σ → Prop} {p : ε → Bool}
    (hin : ∀ s s' e t, R s s' → p e = true → S.step s e = some t →
      ∃ t', S.step s' e = some t' ∧ R t t')
    (hout : ∀ s s' e t, R s s' → p e = false → S.step s e = some t → R t s')
    {s s' t : σ} {es : List ε} (h : S.exec s es = some t) (hR : R s s') :
    ∃ t', S.exec s' (es.filter p) = some t' ∧ R t t' := by
  induction es generalizing s s' with
  | nil =>
    obtain rfl := Option.some.inj h
    exact ⟨s', rfl, hR⟩
  | cons e es ih =>
    obtain ⟨r, hr, hrest⟩ := exec_cons_eq_some.1 h
    cases he : p e with
    | true =>
      obtain ⟨r', hr', hRr⟩ := hin s s' e r hR he hr
      obtain ⟨t', ht', hRt⟩ := ih hrest hRr
      rw [List.filter_cons_of_pos he]
      exact ⟨t', exec_cons_eq_some.2 ⟨r', hr', ht'⟩, hRt⟩
    | false =>
      rw [List.filter_cons_of_neg (by simp [he])]
      exact ih hrest (hout s s' e r hR he hr)

/-! ## What holds along a list of labels -/

/-- Every label of a list satisfies `ok` in the state it comes to. -/
def Along (S : System σ ε) (ok : σ → ε → Prop) : σ → List ε → Prop
  | _, [] => True
  | s, e :: es => ok s e ∧ ∀ t, S.step s e = some t → S.Along ok t es

/-- Along a list, two conditions come to the same if they agree in the states that one of them
leads to. -/
theorem along_iff {cond : σ → ε → Prop} {I : σ → Prop}
    (hkeep : ∀ s e t, I s → cond s e → S.step s e = some t → I t)
    (hiff : ∀ s e, I s → (ok s e ↔ cond s e)) {s : σ} (es : List ε) (hs : I s) :
    S.Along ok s es ↔ S.Along cond s es := by
  induction es generalizing s with
  | nil => exact Iff.rfl
  | cons e es ih =>
    unfold Along
    rw [hiff s e hs]
    exact and_congr_right fun hcond => forall₂_congr fun t ht => ih (hkeep s e t hs hcond ht)

/-- **The exactness rule for a list of labels.**  When a step keeps a state good (`G`) exactly if it
satisfies `cond`, and what is not good stays so, a list leads to a good state exactly if all its
labels satisfy `cond`. -/
theorem good_iff_along {cond : σ → ε → Prop} {G I : σ → Prop}
    (hkeep : ∀ s e t, I s → S.step s e = some t → I t)
    (hstep : ∀ s e t, I s → G s → S.step s e = some t → (G t ↔ cond s e))
    (hback : ∀ s e t, S.step s e = some t → G t → G s) {s t : σ} {es : List ε} (hs : I s)
    (hgood : G s) (h : S.exec s es = some t) : G t ↔ S.Along cond s es := by
  induction es generalizing s with
  | nil =>
    obtain rfl := Option.some.inj h
    exact iff_of_true hgood trivial
  | cons e es ih =>
    obtain ⟨r, hr, hrest⟩ := exec_cons_eq_some.1 h
    have hcond := hstep s e r hs hgood hr
    unfold Along
    constructor
    · intro ht
      have hgoodr : G r := by
        refine invariant_of_exec (I := fun t => G t → G r) hrest id ?_ ht
        exact fun s' e' t' ih hstep' ht' => ih (hback s' e' t' hstep' ht')
      refine ⟨hcond.1 hgoodr, fun r' hr' => ?_⟩
      obtain rfl := Option.some.inj (hr.symm.trans hr')
      exact (ih (hkeep s e r hs hr) hgoodr hrest).1 ht
    · rintro ⟨hok, hall⟩
      exact (ih (hkeep s e r hs hr) (hcond.2 hok) hrest).2 (hall r hr)

lemma along_and {cond : σ → ε → Prop} {s : σ} {es : List ε} :
    S.Along (fun s e => ok s e ∧ cond s e) s es ↔ S.Along ok s es ∧ S.Along cond s es := by
  induction es generalizing s with
  | nil => exact iff_of_true trivial ⟨trivial, trivial⟩
  | cons e es ih =>
    unfold Along
    constructor
    · rintro ⟨⟨hok, hcond⟩, hrest⟩
      exact ⟨⟨hok, fun t ht => (ih.1 (hrest t ht)).1⟩, hcond, fun t ht => (ih.1 (hrest t ht)).2⟩
    · rintro ⟨⟨hok, hrestOk⟩, hcond, hrestCond⟩
      exact ⟨⟨hok, hcond⟩, fun t ht => ih.2 ⟨hrestOk t ht, hrestCond t ht⟩⟩

/-- A list that can be executed under a condition meets it. -/
lemma along_of_execWhere [∀ s e, Decidable (ok s e)] {s t : σ} {es : List ε}
    (h : S.execWhere ok s es = some t) : S.Along ok s es := by
  induction es generalizing s with
  | nil => trivial
  | cons e es ih =>
    rw [execWhere, List.foldlM_cons] at h
    obtain ⟨r, hr, hrest⟩ := Option.bind_eq_some_iff.1 h
    split at hr
    case isTrue hok =>
      refine ⟨hok, fun r' hr' => ?_⟩
      obtain rfl := Option.some.inj (hr.symm.trans hr')
      exact ih hrest
    case isFalse => exact absurd hr (by simp)

/-- What holds along a list holds of the label that comes after a part of it. -/
lemma Along.of_exec {s t : σ} {es : List ε} {e : ε} (h : S.Along ok s (es ++ [e]))
    (hexec : S.exec s es = some t) : ok t e := by
  induction es generalizing s with
  | nil =>
    obtain rfl := Option.some.inj hexec
    exact h.1
  | cons e' es ih =>
    obtain ⟨r, hr, hrest⟩ := exec_cons_eq_some.1 hexec
    exact ih (h.2 r hr) hrest

end System

end TickerWatch
