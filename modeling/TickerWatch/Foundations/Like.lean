import Mathlib.Computability.Language

/-!
# Patterns of `LIKE`

SQL's pattern matching: `%` stands for any text, `_` for any character, and a backslash takes the
character after it literally.  Postgres refuses a pattern that ends in a backslash, but only when
the comparison gets there; here such a pattern is refused as a whole.

A pattern denotes a language, the product of the languages of its pieces (`accepts_iff`).  What
follows about prefixes, infixes and patterns that are put together is read off that product.
-/

namespace TickerWatch
namespace Like

/-- A piece of a pattern. -/
inductive Piece
  | any
  | one
  | char (c : Char)
  deriving DecidableEq, Repr

/-- The piece that a character outside an escape stands for. -/
def Piece.ofChar (c : Char) : Piece := if c = '%' then .any else if c = '_' then .one else .char c

/-- The pieces of a pattern; `none` if it ends in an escape character. -/
def parse : List Char → Option (List Piece)
  | [] => some []
  | c :: cs =>
    if c = '\\' then
      match cs with
      | [] => none
      | c' :: cs => (parse cs).map (Piece.char c' :: ·)
    else (parse cs).map (Piece.ofChar c :: ·)

/-- Whether a text matches. -/
def accepts : List Piece → List Char → Bool
  | [], text => text.isEmpty
  | .any :: ps, text => text.tails.any (accepts ps)
  | .one :: _, [] => false
  | .one :: ps, _ :: text => accepts ps text
  | .char _ :: _, [] => false
  | .char c :: ps, d :: text => c == d && accepts ps text

/-! ## What a pattern denotes -/

/-- The texts that match a piece. -/
def Piece.language : Piece → Language Char
  | .any => (Set.univ : Set (List Char))
  | .one => {text | ∃ c, text = [c]}
  | .char c => {[c]}

/-- The texts that match a pattern. -/
def language (ps : List Piece) : Language Char := (ps.map Piece.language).prod

variable {ps qs : List Piece} {p q text : List Char} {c : Char}

@[simp] lemma mem_language_any : text ∈ Piece.any.language := Set.mem_univ text

@[simp] lemma mem_language_one : text ∈ Piece.one.language ↔ ∃ c, text = [c] := Iff.rfl

@[simp] lemma mem_language_char : text ∈ (Piece.char c).language ↔ text = [c] := Iff.rfl

@[simp] lemma mem_language_nil : text ∈ language [] ↔ text = [] := Language.mem_one text

lemma mem_language_cons {piece : Piece} : text ∈ language (piece :: ps) ↔
    ∃ a ∈ piece.language, ∃ b ∈ language ps, a ++ b = text := by
  rw [language, List.map_cons, List.prod_cons]
  exact Language.mem_mul

lemma mem_language_append : text ∈ language (ps ++ qs) ↔
    ∃ a ∈ language ps, ∃ b ∈ language qs, a ++ b = text := by
  rw [language, List.map_append, List.prod_append]
  exact Language.mem_mul

/-- **The matcher decides the language.** -/
theorem accepts_iff : accepts ps text = true ↔ text ∈ language ps := by
  induction ps generalizing text with
  | nil => simp [accepts, List.isEmpty_iff]
  | cons piece ps ih =>
    rw [mem_language_cons]
    cases piece with
    | any =>
      -- what `%` stands for is the part of the text before some tail of it
      simp only [accepts, List.any_eq_true, List.mem_tails, ih, mem_language_any, true_and]
      constructor
      · rintro ⟨b, ⟨a, rfl⟩, hb⟩
        exact ⟨a, b, hb, rfl⟩
      · rintro ⟨a, b, hb, rfl⟩
        exact ⟨b, List.suffix_append a b, hb⟩
    | one =>
      cases text with
      | nil =>
        simp only [accepts, Bool.false_eq_true, mem_language_one, false_iff]
        rintro ⟨a, ⟨c, rfl⟩, b, -, h⟩
        exact absurd h (by simp)
      | cons d text =>
        simp only [accepts, ih, mem_language_one]
        constructor
        · intro h
          exact ⟨[d], ⟨d, rfl⟩, text, h, rfl⟩
        · rintro ⟨a, ⟨c, rfl⟩, b, hb, h⟩
          obtain ⟨-, rfl⟩ := List.cons.inj h
          exact hb
    | char c =>
      cases text with
      | nil =>
        simp only [accepts, Bool.false_eq_true, mem_language_char, false_iff]
        rintro ⟨a, rfl, b, -, h⟩
        exact absurd h (by simp)
      | cons d text =>
        simp only [accepts, Bool.and_eq_true, beq_iff_eq, ih, mem_language_char]
        constructor
        · rintro ⟨rfl, h⟩
          exact ⟨[c], rfl, text, h, rfl⟩
        · rintro ⟨a, rfl, b, hb, h⟩
          obtain ⟨rfl, rfl⟩ := List.cons.inj h
          exact ⟨rfl, hb⟩

/-- A pattern followed by `%` matches what has a matching prefix. -/
lemma mem_language_append_any :
    text ∈ language (ps ++ [.any]) ↔ ∃ a ∈ language ps, a <+: text := by
  rw [mem_language_append]
  constructor
  · rintro ⟨a, ha, b, -, rfl⟩
    exact ⟨a, ha, List.prefix_append a b⟩
  · rintro ⟨a, ha, b, rfl⟩
    exact ⟨a, ha, b, mem_language_cons.2 ⟨b, mem_language_any, [], rfl, List.append_nil b⟩, rfl⟩

/-- A pattern between two `%` matches what has a matching part. -/
lemma mem_language_any_append_any :
    text ∈ language (.any :: ps ++ [.any]) ↔ ∃ a ∈ language ps, a <:+: text := by
  rw [mem_language_append_any]
  constructor
  · rintro ⟨ab, hab, c, rfl⟩
    obtain ⟨a, -, b, hb, rfl⟩ := mem_language_cons.1 hab
    exact ⟨b, hb, a, c, rfl⟩
  · rintro ⟨b, hb, a, c, rfl⟩
    exact ⟨a ++ b, mem_language_cons.2 ⟨a, mem_language_any, b, hb, rfl⟩, c, rfl⟩

lemma mem_language_map_char : text ∈ language (p.map .char) ↔ text = p := by
  induction p generalizing text with
  | nil => exact mem_language_nil
  | cons c p ih =>
    rw [List.map_cons, mem_language_cons]
    constructor
    · rintro ⟨a, rfl, b, hb, rfl⟩
      rw [ih.1 hb]
      rfl
    · rintro rfl
      exact ⟨[c], rfl, p, ih.2 rfl, rfl⟩

/-! ## Reading a pattern -/

lemma parse_cons_of_ne (h : c ≠ '\\') : parse (c :: p) = (parse p).map (Piece.ofChar c :: ·) := by
  rw [parse.eq_def]
  exact if_neg h

@[simp] lemma parse_escape : parse ('\\' :: c :: p) = (parse p).map (Piece.char c :: ·) := by
  rw [parse.eq_def]
  rfl

/-- A pattern that does not end in an escape is read before what follows it. -/
lemma parse_append (h : parse p = some ps) : parse (p ++ q) = (parse q).map (ps ++ ·) := by
  fun_induction parse p generalizing ps with
  | case1 =>
    obtain rfl := Option.some.inj h
    simp
  | case2 => exact absurd h (by simp)
  | case3 c' cs ih =>
    obtain ⟨ps', hps', rfl⟩ := Option.map_eq_some_iff.1 h
    rw [List.cons_append, List.cons_append, parse_escape, ih hps', Option.map_map]
    rfl
  | case4 c cs hc ih =>
    obtain ⟨ps', hps', rfl⟩ := Option.map_eq_some_iff.1 h
    rw [List.cons_append, parse_cons_of_ne hc, ih hps', Option.map_map]
    rfl

/-- A pattern that is refused ends in an escape character, and is fine up to it. -/
lemma exists_of_parse_eq_none (h : parse p = none) :
    ∃ p' ps, p = p' ++ ['\\'] ∧ parse p' = some ps := by
  fun_induction parse p with
  | case1 => exact absurd h (by simp)
  | case2 => exact ⟨[], [], rfl, rfl⟩
  | case3 c' cs ih =>
    obtain ⟨p', ps, rfl, hp'⟩ := ih (Option.map_eq_none_iff.1 h)
    exact ⟨'\\' :: c' :: p', .char c' :: ps, rfl, by rw [parse_escape, hp']; rfl⟩
  | case4 c cs hc ih =>
    obtain ⟨p', ps, rfl, hp'⟩ := ih (Option.map_eq_none_iff.1 h)
    exact ⟨c :: p', Piece.ofChar c :: ps, rfl, by rw [parse_cons_of_ne hc, hp']; rfl⟩

/-- A piece whose character is replaced. -/
def Piece.map (f : Char → Char) : Piece → Piece
  | .any => .any
  | .one => .one
  | .char c => .char (f c)

/-- Replacing characters that mean nothing in a pattern by others that do not is the same before
and after it is read. -/
lemma parse_map {f : Char → Char}
    (hf : ∀ c m, m = '%' ∨ m = '_' ∨ m = '\\' → (f c = m ↔ c = m)) (p : List Char) :
    parse (p.map f) = (parse p).map (List.map (Piece.map f)) := by
  have hesc (c : Char) : f c = '\\' ↔ c = '\\' := hf c _ (Or.inr (Or.inr rfl))
  fun_induction parse p with
  | case1 => rfl
  | case2 =>
    rw [List.map_singleton, (hesc _).2 rfl]
    rfl
  | case3 c' cs ih =>
    rw [List.map_cons, List.map_cons, (hesc _).2 rfl, parse_escape, ih, Option.map_map,
      Option.map_map]
    rfl
  | case4 c cs hc ih =>
    have hpiece : Piece.ofChar (f c) = (Piece.ofChar c).map f := by
      unfold Piece.ofChar
      rw [ite_congr (propext (hf c '%' (Or.inl rfl))) (fun _ => rfl) (fun _ => rfl),
        ite_congr (propext (hf c '_' (Or.inr (Or.inl rfl)))) (fun _ => rfl) (fun _ => rfl)]
      split
      · rfl
      · split
        · rfl
        · rfl
    rw [List.map_cons, parse_cons_of_ne (mt (hesc c).1 hc), ih, Option.map_map, Option.map_map,
      hpiece]
    rfl

/-- **A pattern that ends in `%` is never refused**: an escape takes the `%`. -/
theorem exists_parse_percent (p : List Char) : ∃ ps, parse (p ++ ['%']) = some ps := by
  cases h : parse p with
  | some ps => exact ⟨ps ++ [.any], parse_append h⟩
  | none =>
    obtain ⟨p', ps, rfl, hp'⟩ := exists_of_parse_eq_none h
    rw [List.append_assoc, parse_append hp']
    exact ⟨ps ++ [.char '%'], rfl⟩

/-- A text without wildcards and escapes. -/
def Plain (p : List Char) : Prop := ∀ c ∈ p, c ≠ '%' ∧ c ≠ '_' ∧ c ≠ '\\'

-- Along the list: an instance for all characters would try every one of them.
instance (p : List Char) : Decidable (Plain p) := List.decidableBAll _ p

lemma Plain.parse (h : Plain p) : parse p = some (p.map .char) := by
  induction p with
  | nil => rfl
  | cons c p ih =>
    obtain ⟨⟨hany, hone, hesc⟩, hrest⟩ := List.forall_mem_cons.1 h
    rw [parse_cons_of_ne hesc, ih hrest, Piece.ofChar, if_neg hany, if_neg hone]
    rfl

/-- **A text without escapes matches itself**, read as a pattern. -/
theorem exists_parse_self (h : '\\' ∉ p) : ∃ ps, parse p = some ps ∧ p ∈ language ps := by
  induction p with
  | nil => exact ⟨[], rfl, mem_language_nil.2 rfl⟩
  | cons c p ih =>
    obtain ⟨hc, hrest⟩ := not_or.1 (mt List.mem_cons.2 h)
    obtain ⟨ps, hps, hmem⟩ := ih hrest
    refine ⟨Piece.ofChar c :: ps, by rw [parse_cons_of_ne (Ne.symm hc), hps]; rfl, ?_⟩
    refine mem_language_cons.2 ⟨[c], ?_, p, hmem, rfl⟩
    unfold Piece.ofChar
    split
    · exact mem_language_any
    · split
      · exact ⟨c, rfl⟩
      · exact rfl

end Like
end TickerWatch
