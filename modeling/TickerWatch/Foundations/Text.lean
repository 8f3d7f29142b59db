import Mathlib.Algebra.Order.Ring.Int
import Mathlib.Data.List.DropRight
import Mathlib.Data.String.Basic

/-!
# Texts and numerals

What a scripting language does with texts: strip white space from both ends, split at a character
and join again, write a number in decimal and read it back.

Two facts are what formats rest on.  A list whose members do not contain the separator survives a
join and a split (`split_join`), and a number survives being written and read (`parseInt_toString`,
`zeroPad_injective`).
-/

namespace TickerWatch
namespace Text

/-! ## White space -/

/-- The characters that Python and JavaScript both take for white space. -/
def space (c : Char) : Bool :=
  (0x09 ≤ c.toNat && c.toNat ≤ 0x0D) || (0x2000 ≤ c.toNat && c.toNat ≤ 0x200A) ||
    c.toNat ∈ [0x20, 0xA0, 0x1680, 0x2028, 0x2029, 0x202F, 0x205F, 0x3000]

/-- `str.isspace` of a character. -/
def pySpace (c : Char) : Bool :=
  space c || (0x1C ≤ c.toNat && c.toNat ≤ 0x1F) || c.toNat == 0x85

/-- What `String.prototype.trim` drops. -/
def jsSpace (c : Char) : Bool := space c || c.toNat == 0xFEFF

/-- Drop the characters of a kind from both ends. -/
def strip (p : Char → Bool) (s : String) : String :=
  String.ofList ((s.toList.dropWhile p).rdropWhile p)

lemma strip_eq_self {p : Char → Bool} {s : String} (h : ∀ c ∈ s.toList, p c = false) :
    strip p s = s := by
  have hfront : s.toList.dropWhile p = s.toList := by
    refine List.dropWhile_eq_self_iff.2 fun hpos => ?_
    rw [h _ (List.getElem_mem hpos)]
    exact Bool.false_ne_true
  have hback : s.toList.rdropWhile p = s.toList := by
    refine List.rdropWhile_eq_self_iff.2 fun hne => ?_
    rw [h _ (List.getLast_mem hne)]
    exact Bool.false_ne_true
  rw [strip, hfront, hback, String.ofList_toList]

lemma mem_of_mem_strip {p : Char → Bool} {s : String} {c : Char} (h : c ∈ (strip p s).toList) :
    c ∈ s.toList := by
  rw [strip, String.toList_ofList] at h
  exact (List.dropWhile_suffix p).subset ((List.rdropWhile_prefix p _).subset h)

/-! ## Separators -/

/-- `sep.join(parts)`. -/
def join (sep : Char) (parts : List String) : String :=
  String.ofList ([sep].intercalate (parts.map String.toList))

/-- `s.split(sep)`. -/
def split (sep : Char) (s : String) : List String := (s.toList.splitOn sep).map String.ofList

/-- **Splitting undoes joining**, when no part contains the separator. -/
theorem split_join {sep : Char} {parts : List String} (hne : parts ≠ [])
    (h : ∀ s ∈ parts, sep ∉ s.toList) : split sep (join sep parts) = parts := by
  have hparts : ∀ l ∈ parts.map String.toList, sep ∉ l := by
    intro l hl
    obtain ⟨s, hs, rfl⟩ := List.mem_map.1 hl
    exact h s hs
  rw [split, join, String.toList_ofList,
    List.splitOn_intercalate sep hparts (by simpa using hne), List.map_map]
  simp [Function.comp_def]

/-! ## Numerals -/

/-- A number in decimal, with zeros before it up to `w` characters. -/
def zeroPad (w n : ℕ) : String :=
  String.ofList (List.replicate (w - (Nat.toDigits 10 n).length) '0' ++ Nat.toDigits 10 n)

lemma zeroPad_injective (w : ℕ) : Function.Injective (zeroPad w) := by
  intro m n h
  have hchars := congrArg (fun s => Nat.ofDigitChars 10 s.toList 0) h
  simpa [zeroPad, Nat.ofDigitChars_append] using hchars

/-- The zeros of the decimal digits of Unicode 15. -/
def decimalZeros : List ℕ :=
  [0x30, 0x660, 0x6F0, 0x7C0, 0x966, 0x9E6, 0xA66, 0xAE6, 0xB66, 0xBE6, 0xC66, 0xCE6, 0xD66, 0xDE6,
    0xE50, 0xED0, 0xF20, 0x1040, 0x1090, 0x17E0, 0x1810, 0x1946, 0x19D0, 0x1A80, 0x1A90, 0x1B50,
    0x1BB0, 0x1C40, 0x1C50, 0xA620, 0xA8D0, 0xA900, 0xA9D0, 0xA9F0, 0xAA50, 0xABF0, 0xFF10,
    0x104A0, 0x10D30, 0x11066, 0x110F0, 0x11136, 0x111D0, 0x112F0, 0x11450, 0x114D0, 0x11650,
    0x116C0, 0x11730, 0x118E0, 0x11950, 0x11C50, 0x11D50, 0x11DA0, 0x11F50, 0x16A60, 0x16AC0,
    0x16B50, 0x1D7CE, 0x1D7D8, 0x1D7E2, 0x1D7EC, 0x1D7F6, 0x1E140, 0x1E2F0, 0x1E4F0, 0x1E950,
    0x1FBF0]

/-- The value of a decimal digit. -/
def digit (c : Char) : Option ℕ :=
  (decimalZeros.find? fun z => z ≤ c.toNat && c.toNat < z + 10).map fun z => c.toNat - z

/-- Digits read onto `n`, with single underscores between them. -/
def numeral : Bool → ℕ → List Char → Option ℕ
  | afterDigit, n, [] => if afterDigit then some n else none
  | afterDigit, n, c :: cs =>
    if c = '_' then if afterDigit then numeral false n cs else none
    else (digit c).bind fun d => numeral true (10 * n + d) cs

/-- `int(s)`.  The limit on the number of digits is left out: it is some thousands. -/
def parseInt (s : String) : Option ℤ :=
  let cs := (strip pySpace s).toList
  if cs.head? = some '-' then (numeral false 0 cs.tail).map fun n : ℕ => -(n : ℤ)
  else if cs.head? = some '+' then (numeral false 0 cs.tail).map fun n : ℕ => (n : ℤ)
  else (numeral false 0 cs).map fun n : ℕ => (n : ℤ)

lemma toNat_of_isDigit {c : Char} (h : c.isDigit = true) : 48 ≤ c.toNat ∧ c.toNat ≤ 57 := by
  obtain ⟨hlow, hhigh⟩ := Bool.and_eq_true_iff.1 h
  exact ⟨of_decide_eq_true hlow, of_decide_eq_true hhigh⟩

lemma digit_of_isDigit {c : Char} (h : c.isDigit = true) : digit c = some (c.toNat - 48) := by
  obtain ⟨hlow, hhigh⟩ := toNat_of_isDigit h
  have hzero : (decide (48 ≤ c.toNat) && decide (c.toNat < 48 + 10)) = true := by
    simp only [Bool.and_eq_true, decide_eq_true_eq]
    omega
  obtain ⟨rest, hrest⟩ : ∃ rest, decimalZeros = 48 :: rest := ⟨_, rfl⟩
  rw [digit, hrest, List.find?_cons, hzero]
  rfl

lemma not_pySpace_of_isDigit {c : Char} (h : c.isDigit = true) : pySpace c = false := by
  obtain ⟨hlow, hhigh⟩ := toNat_of_isDigit h
  simp only [pySpace, space, List.mem_cons, List.not_mem_nil, or_false, not_or,
    Bool.or_eq_false_iff, Bool.and_eq_false_iff, decide_eq_false_iff_not, beq_eq_false_iff_ne]
  omega

lemma numeral_eq (cs : List Char) (hdigits : ∀ c ∈ cs, c.isDigit = true) (afterDigit : Bool) (n : ℕ)
    (h : afterDigit = true ∨ cs ≠ []) :
    numeral afterDigit n cs = some (Nat.ofDigitChars 10 cs n) := by
  induction cs generalizing afterDigit n with
  | nil =>
    obtain rfl := h.resolve_right (by simp)
    rfl
  | cons c cs ih =>
    obtain ⟨hc, hcs⟩ := List.forall_mem_cons.1 hdigits
    have hunderscore : c ≠ '_' := by
      rintro rfl
      exact absurd hc (by decide)
    rw [numeral, if_neg hunderscore, digit_of_isDigit hc, Option.bind_some, ih hcs _ _ (Or.inl rfl),
      Nat.ofDigitChars_cons]
    rfl

/-- A number is read back from its own text. -/
theorem parseInt_toString (n : ℤ) : parseInt (toString n) = some n := by
  have hread (m : ℕ) : numeral false 0 (Nat.toDigits 10 m) = some m := by
    rw [numeral_eq _ (fun c => Nat.isDigit_of_mem_toDigits (by omega) (by omega)) _ _
      (Or.inr Nat.toDigits_ne_nil), Nat.ofDigitChars_ten_toDigits]
  have hhead (m : ℕ) (sign : Char) (hsign : sign.isDigit = false) :
      (Nat.toDigits 10 m).head? ≠ some sign := by
    intro h
    have hdigit := Nat.isDigit_of_mem_toDigits (by omega) (by omega) (List.mem_of_head? h)
    rw [hsign] at hdigit
    exact absurd hdigit (by simp)
  rw [Int.toString_eq_repr, Int.repr_eq_if]
  split
  case isTrue hpos =>
    have hstrip : strip pySpace n.toNat.repr = n.toNat.repr := by
      refine strip_eq_self fun c hc => not_pySpace_of_isDigit ?_
      rw [Nat.toList_repr] at hc
      exact Nat.isDigit_of_mem_toDigits (by omega) (by omega) hc
    rw [parseInt, hstrip, Nat.toList_repr, if_neg (hhead _ _ rfl), if_neg (hhead _ _ rfl), hread,
      Option.map_some, Int.toNat_of_nonneg hpos]
  case isFalse hneg =>
    have hchars : ("-" ++ (-n).toNat.repr).toList = '-' :: Nat.toDigits 10 (-n).toNat := by
      rw [String.toList_append, Nat.toList_repr]
      rfl
    have hstrip : strip pySpace ("-" ++ (-n).toNat.repr) = "-" ++ (-n).toNat.repr := by
      refine strip_eq_self fun c hc => ?_
      rcases List.mem_cons.1 (hchars ▸ hc) with rfl | hc
      · rfl
      · exact not_pySpace_of_isDigit (Nat.isDigit_of_mem_toDigits (by omega) (by omega) hc)
    rw [parseInt, hstrip, hchars, List.head?_cons, if_pos rfl, List.tail_cons, hread,
      Option.map_some, Int.toNat_of_nonneg (by omega), neg_neg]

end Text
end TickerWatch
