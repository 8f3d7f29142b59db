import Mathlib.Data.List.Induction
import Mathlib.Data.String.Basic
import Mathlib.Data.Nat.Digits.Defs
import Mathlib.Tactic.IntervalCases

/-!
# Fixed-width numerals

A format made of literal text and zero-padded decimal fields of fixed width compares as text
exactly as its fields compare in order.  Nothing here depends on what the fields mean, and the
only property of the alphabet that is used is that the ten digits are ordered by value.

Such a text has one length, and `parse` reads back exactly what `render` writes
(`parse_eq_some_iff`).
-/

namespace TickerWatch
namespace FixedWidth

/-! ## One padded field -/

/-- The decimal digits of `n`, padded or truncated on the left to `w` characters. -/
def padded : ℕ → ℕ → List Char
  | 0, _ => []
  | w + 1, n => padded w (n / 10) ++ [Nat.digitChar (n % 10)]

@[simp] lemma length_padded (w n : ℕ) : (padded w n).length = w := by
  induction w generalizing n with
  | zero => rfl
  | succ w ih => simp [padded, ih]

lemma digitChar_lt_iff {a b : ℕ} (ha : a < 10) (hb : b < 10) :
    Nat.digitChar a < Nat.digitChar b ↔ a < b := by
  interval_cases a <;> interval_cases b <;> decide

lemma digitChar_inj {a b : ℕ} (ha : a < 10) (hb : b < 10) :
    Nat.digitChar a = Nat.digitChar b ↔ a = b := by
  interval_cases a <;> interval_cases b <;> decide

/-- Prefixes of one length decide a comparison unless they are equal. -/
lemma append_lt_append_iff {α : Type*} [LinearOrder α] {xs ys l₁ l₂ : List α}
    (h : xs.length = ys.length) :
    xs ++ l₁ < ys ++ l₂ ↔ xs < ys ∨ (xs = ys ∧ l₁ < l₂) := by
  induction xs generalizing ys with
  | nil =>
    obtain rfl : ys = [] := by simpa using h.symm
    simp
  | cons x xs ih =>
    obtain ⟨y, ys, rfl⟩ : ∃ y t, ys = y :: t := by
      cases ys with
      | nil => simp at h
      | cons y t => exact ⟨y, t, rfl⟩
    have hlen : xs.length = ys.length := by simpa using h
    simp only [List.cons_append, List.cons_lt_cons_iff, ih hlen, List.cons.injEq]
    constructor
    · rintro (hxy | ⟨rfl, hlt | ⟨rfl, hl⟩⟩)
      · exact Or.inl (Or.inl hxy)
      · exact Or.inl (Or.inr ⟨rfl, hlt⟩)
      · exact Or.inr ⟨⟨rfl, rfl⟩, hl⟩
    · rintro ((hxy | ⟨rfl, hlt⟩) | ⟨⟨rfl, rfl⟩, hl⟩)
      · exact Or.inl hxy
      · exact Or.inr ⟨rfl, Or.inl hlt⟩
      · exact Or.inr ⟨rfl, Or.inr ⟨rfl, hl⟩⟩

lemma padded_inj {w a b : ℕ} (ha : a < 10 ^ w) (hb : b < 10 ^ w) :
    padded w a = padded w b ↔ a = b := by
  induction w generalizing a b with
  | zero =>
    rw [pow_zero] at ha hb
    simp only [padded, true_iff]
    omega
  | succ w ih =>
    rw [pow_succ] at ha hb
    have hlen : (padded w (a / 10)).length = (padded w (b / 10)).length := by simp
    constructor
    · intro h
      obtain ⟨hinit, hlast⟩ := List.append_inj h hlen
      have hq := (ih (by omega) (by omega)).1 hinit
      have hr := (digitChar_inj (by omega) (by omega)).1 (List.cons.inj hlast).1
      omega
    · rintro rfl
      rfl

/-- Padded numerals compare as their values do. -/
theorem padded_lt_iff {w a b : ℕ} (ha : a < 10 ^ w) (hb : b < 10 ^ w) :
    padded w a < padded w b ↔ a < b := by
  induction w generalizing a b with
  | zero =>
    rw [pow_zero] at ha hb
    obtain rfl : a = b := by omega
    simp
  | succ w ih =>
    rw [pow_succ] at ha hb
    have ha' : a / 10 < 10 ^ w := by omega
    have hb' : b / 10 < 10 ^ w := by omega
    have hlen : (padded w (a / 10)).length = (padded w (b / 10)).length := by simp
    have hdig : [Nat.digitChar (a % 10)] < [Nat.digitChar (b % 10)] ↔ a % 10 < b % 10 := by
      rw [List.cons_lt_cons_iff, digitChar_lt_iff (by omega) (by omega)]
      simp
    simp only [padded]
    rw [append_lt_append_iff hlen, ih ha' hb', padded_inj ha' hb', hdig]
    omega

/-! ## Templates -/

/-- A piece of a format: literal text, or a decimal field of fixed width. -/
inductive Piece
  | text (s : List Char)
  | field (w : ℕ)

/-- Write the values into the fields, in order. -/
def render : List Piece → List ℕ → List Char
  | .text s :: ps, vs => s ++ render ps vs
  | .field w :: ps, v :: vs => padded w v ++ render ps vs
  | _, _ => []

/-- One value for each field, none too wide for its field. -/
def Fits : List Piece → List ℕ → Prop
  | [], vs => vs = []
  | .text _ :: ps, vs => Fits ps vs
  | .field w :: ps, v :: vs => v < 10 ^ w ∧ Fits ps vs
  | .field _ :: _, [] => False

/-- **Text order is field order.**  Two fillings of one template compare as strings exactly as
their lists of values compare, first field first. -/
theorem render_lt_iff {ps : List Piece} {vs vs' : List ℕ} (h : Fits ps vs) (h' : Fits ps vs') :
    render ps vs < render ps vs' ↔ vs < vs' := by
  induction ps generalizing vs vs' with
  | nil =>
    obtain rfl : vs = [] := h
    obtain rfl : vs' = [] := h'
    simp [render]
  | cons p ps ih =>
    cases p with
    | text s =>
      simp only [render]
      rw [append_lt_append_iff rfl, ih h h']
      simp
    | field w =>
      cases vs with
      | nil => exact h.elim
      | cons v vs =>
        cases vs' with
        | nil => exact h'.elim
        | cons v' vs' =>
          simp only [render]
          rw [append_lt_append_iff (by simp), padded_lt_iff h.1 h'.1, padded_inj h.1 h'.1,
            ih h.2 h'.2, List.cons_lt_cons_iff]

/-! ## Reading a template back -/

/-- The value of a decimal digit. -/
def digitVal (c : Char) : Option ℕ :=
  if '0'.toNat ≤ c.toNat ∧ c.toNat ≤ '9'.toNat then some (c.toNat - '0'.toNat) else none

/-- The value of a numeral of decimal digits. -/
def unpad (cs : List Char) : Option ℕ :=
  cs.foldlM (fun v c => (digitVal c).map fun d => 10 * v + d) 0

/-- Read the values out of the fields of a text. -/
def parse : List Piece → List Char → Option (List ℕ)
  | [], [] => some []
  | [], _ :: _ => none
  | .text s :: ps, cs => if s.isPrefixOf cs then parse ps (cs.drop s.length) else none
  | .field w :: ps, cs =>
    if cs.length < w then none
    else (unpad (cs.take w)).bind fun v => (parse ps (cs.drop w)).map fun vs => v :: vs

/-- The length of a template's texts. -/
def width : List Piece → ℕ
  | [] => 0
  | .text s :: ps => s.length + width ps
  | .field w :: ps => w + width ps

lemma digitVal_eq_some_iff {c : Char} {d : ℕ} :
    digitVal c = some d ↔ d < 10 ∧ Nat.digitChar d = c := by
  unfold digitVal
  constructor
  · intro h
    split at h
    case isFalse => exact absurd h (by simp)
    case isTrue hc =>
      have hd := Option.some.inj h
      have hlow : 48 ≤ c.toNat := hc.1
      have hhigh : c.toNat ≤ 57 := hc.2
      have hval : c.toNat - 48 = d := hd
      refine ⟨by omega, Char.toNat_inj.1 ?_⟩
      obtain ⟨n, hn⟩ : ∃ n, n = c.toNat := ⟨_, rfl⟩
      rw [← hn] at hlow hhigh hval ⊢
      subst hval
      interval_cases n <;> decide
  · rintro ⟨hd, rfl⟩
    interval_cases d <;> decide

lemma unpad_concat (cs : List Char) (c : Char) :
    unpad (cs ++ [c]) = (unpad cs).bind fun v => (digitVal c).map fun d => 10 * v + d := by
  unfold unpad
  rw [List.foldlM_append]
  show Option.bind _ _ = _
  congr 1
  funext v
  rw [List.foldlM_cons]
  exact Option.bind_fun_some _

/-- Reading a numeral gives the value it is padded from. -/
lemma unpad_eq_some_iff {cs : List Char} {n : ℕ} :
    unpad cs = some n ↔ n < 10 ^ cs.length ∧ padded cs.length n = cs := by
  induction cs using List.reverseRecOn generalizing n with
  | nil =>
    have hnil : unpad [] = some 0 := rfl
    rw [hnil, List.length_nil, pow_zero, padded, Option.some.injEq, Nat.lt_one_iff, eq_comm]
    simp
  | append_singleton cs c ih =>
    have hlen : (cs ++ [c]).length = cs.length + 1 := by simp
    rw [unpad_concat, hlen, padded, pow_succ, Option.bind_eq_some_iff]
    constructor
    · rintro ⟨v, hv, hn⟩
      obtain ⟨d, hd, rfl⟩ := Option.map_eq_some_iff.1 hn
      obtain ⟨hbound, hpad⟩ := ih.1 hv
      obtain ⟨hlt, rfl⟩ := digitVal_eq_some_iff.1 hd
      have hquot : (10 * v + d) / 10 = v := by omega
      have hrem : (10 * v + d) % 10 = d := by omega
      rw [hquot, hrem, hpad]
      exact ⟨by omega, rfl⟩
    · rintro ⟨hbound, hpad⟩
      have hsame : (padded cs.length (n / 10)).length = cs.length := length_padded _ _
      obtain ⟨hinit, hlast⟩ := List.append_inj hpad hsame
      refine ⟨n / 10, ih.2 ⟨by omega, hinit⟩, Option.map_eq_some_iff.2 ⟨n % 10, ?_, by omega⟩⟩
      exact digitVal_eq_some_iff.2 ⟨by omega, (List.cons.inj hlast).1⟩

lemma length_render {ps : List Piece} {vs : List ℕ} (h : Fits ps vs) :
    (render ps vs).length = width ps := by
  induction ps generalizing vs with
  | nil => rfl
  | cons p ps ih =>
    cases p with
    | text s => rw [render, width, List.length_append, ih h]
    | field w =>
      cases vs with
      | nil => exact h.elim
      | cons v vs => rw [render, width, List.length_append, length_padded, ih h.2]

/-- **Parsing is the inverse of rendering.**  A text parses exactly if it was rendered from values
that fit, and to these. -/
theorem parse_eq_some_iff {ps : List Piece} {cs : List Char} {vs : List ℕ} :
    parse ps cs = some vs ↔ Fits ps vs ∧ render ps vs = cs := by
  induction ps generalizing cs vs with
  | nil =>
    cases cs with
    | nil => simp [parse, Fits, render, eq_comm]
    | cons c cs => simp [parse, Fits, render]
  | cons p ps ih =>
    cases p with
    -- a literal is there or it is not
    | text s =>
      rw [parse, Fits, render]
      constructor
      · intro h
        split at h
        case isFalse => exact absurd h (by simp)
        case isTrue hpre =>
          obtain ⟨rest, rfl⟩ := List.isPrefixOf_iff_prefix.1 hpre
          rw [List.drop_left, ih] at h
          exact ⟨h.1, by rw [h.2]⟩
      · rintro ⟨hfit, rfl⟩
        rw [if_pos (List.isPrefixOf_iff_prefix.2 (List.prefix_append _ _)), List.drop_left]
        exact ih.2 ⟨hfit, rfl⟩
    -- a field takes its width, which is what a padded number fills
    | field w =>
      rw [parse]
      constructor
      · intro h
        split at h
        case isTrue => exact absurd h (by simp)
        case isFalse hlong =>
          obtain ⟨v, hv, hrest⟩ := Option.bind_eq_some_iff.1 h
          obtain ⟨vs', hvs, rfl⟩ := Option.map_eq_some_iff.1 hrest
          obtain ⟨hfit, hrender⟩ := ih.1 hvs
          have hlen : (cs.take w).length = w := List.length_take_of_le (by omega)
          obtain ⟨hbound, hpad⟩ := unpad_eq_some_iff.1 hv
          rw [hlen] at hbound hpad
          refine ⟨⟨hbound, hfit⟩, ?_⟩
          rw [render, hpad, hrender, List.take_append_drop]
      · rintro ⟨hfit, hrender⟩
        cases vs with
        | nil => exact hfit.elim
        | cons v vs =>
          obtain ⟨hbound, hrest⟩ := hfit
          rw [render] at hrender
          subst hrender
          have hlen : (padded w v).length = w := length_padded w v
          rw [if_neg (by simp), List.take_left' hlen, List.drop_left' hlen]
          -- a padded number is read back
          have hread : unpad (padded w v) = some v :=
            unpad_eq_some_iff.2 ⟨by rwa [hlen], by rw [hlen]⟩
          rw [hread, Option.bind_some, ih.2 ⟨hrest, rfl⟩, Option.map_some]

end FixedWidth
end TickerWatch
