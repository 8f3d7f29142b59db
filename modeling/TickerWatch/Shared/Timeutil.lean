import TickerWatch.Foundations.Calendar
import TickerWatch.Foundations.FixedWidth

/-!
# Timestamps as text

`shared/timeutil.py` is the one place that turns an `effective_at` into text.  Every guard that
compares stamps outside Postgres (the Lua script, the browser) compares that text, so the whole
development rests on `toIso_lt_iff`: text order is time order.
-/

namespace TickerWatch

/-- A `dt.datetime` in UTC: microseconds since 1 January of year 1.  The bound is the end of
year 9999, past which `datetime` has no value. -/
@[ext] structure Instant where
  micros : ℕ
  in_range : micros < 3652059 * 86400000000

namespace Instant

/-- 1 January of year 1. -/
def first : Instant := ⟨0, by decide⟩

instance : DecidableEq Instant := fun _ _ => decidable_of_iff _ Instant.ext_iff.symm

instance : LinearOrder Instant := LinearOrder.lift' Instant.micros fun _ _ h => Instant.ext h

lemma lt_iff {a b : Instant} : a < b ↔ a.micros < b.micros := Iff.rfl

/-- The calendar day of an instant. -/
def date (a : Instant) : Date := Date.ofOrdinal (a.micros / 86400000000 + 1)

def hour (a : Instant) : ℕ := a.micros / 3600000000 % 24

def minute (a : Instant) : ℕ := a.micros / 60000000 % 60

def second (a : Instant) : ℕ := a.micros / 1000000 % 60

def microsecond (a : Instant) : ℕ := a.micros % 1000000

/-- The fields `isoformat` writes, most significant first. -/
def fields (a : Instant) : List ℕ :=
  [a.date.year, a.date.month, a.date.day, a.hour, a.minute, a.second, a.microsecond]

end Instant

open FixedWidth in
/-- `isoformat(timespec="microseconds")` of a UTC value.  Its `+00:00` suffix, the only place a
`+` occurs in the text, is already replaced by `Z`. -/
def isoTemplate : List Piece :=
  [.field 4, .text ['-'], .field 2, .text ['-'], .field 2, .text ['T'], .field 2, .text [':'],
    .field 2, .text [':'], .field 2, .text ['.'], .field 6, .text ['Z']]

/-- `to_iso` on a value that is already in UTC. -/
def toIso (a : Instant) : String := String.ofList (FixedWidth.render isoTemplate a.fields)

/-! ## Field order is time order -/

namespace Instant

lemma ordinal_pos (a : Instant) : 1 ≤ a.micros / 86400000000 + 1 := by omega

lemma date_valid (a : Instant) : a.date.Valid := Date.ofOrdinal_valid a.ordinal_pos

/-- The day number of an instant in range is at most that of 31 December 9999. -/
lemma year_lt (a : Instant) : a.date.year < 10000 := by
  have hrange := a.in_range
  have hcount := Date.toOrdinal_ofOrdinal a.ordinal_pos
  by_contra hyear
  have hbefore : Date.daysBeforeYear 10000 ≤ Date.daysBeforeYear a.date.year :=
    Date.daysBeforeYear_mono (by omega) (by omega)
  have hday := a.date_valid.2.2.2.1
  have hend : Date.daysBeforeYear 10000 = 3652059 := by decide
  rw [Date.toOrdinal] at hcount
  unfold date at *
  omega

lemma daysInMonth_le (leap : Bool) (m : ℕ) : Date.daysInMonth leap m ≤ 31 := by
  unfold Date.daysInMonth
  split
  · split <;> omega
  all_goals omega

lemma fields_fit (a : Instant) : FixedWidth.Fits isoTemplate a.fields := by
  have hyear := a.year_lt
  obtain ⟨-, -, hmonth, -, hday⟩ := a.date_valid
  have hlong := daysInMonth_le (Date.isLeap a.date.year) a.date.month
  simp only [isoTemplate, fields, FixedWidth.Fits, and_true]
  refine ⟨by omega, by omega, by omega, ?_, ?_, ?_, ?_⟩
  · unfold hour; omega
  · unfold minute; omega
  · unfold second; omega
  · unfold microsecond; omega

lemma mod_lt_mod {x y k : ℕ} (h : x < y) (hq : x / k = y / k) : x % k < y % k := by
  have hx := Nat.div_add_mod x k
  have hy := Nat.div_add_mod y k
  rw [hq] at hx
  omega

lemma clock_lt {a b : Instant} (h : a.micros < b.micros)
    (hday : a.micros / 86400000000 = b.micros / 86400000000) :
    a.hour < b.hour ∨ (a.hour = b.hour ∧ (a.minute < b.minute ∨
      (a.minute = b.minute ∧ (a.second < b.second ∨
        (a.second = b.second ∧ a.microsecond < b.microsecond))))) := by
  unfold hour minute second microsecond
  rcases Nat.lt_or_eq_of_le (Nat.div_le_div_right (c := 3600000000) h.le) with hh | hh
  · exact Or.inl (mod_lt_mod hh (by simpa [Nat.div_div_eq_div_mul] using hday))
  refine Or.inr ⟨by rw [hh], ?_⟩
  rcases Nat.lt_or_eq_of_le (Nat.div_le_div_right (c := 60000000) h.le) with hm | hm
  · exact Or.inl (mod_lt_mod hm (by simpa [Nat.div_div_eq_div_mul] using hh))
  refine Or.inr ⟨by rw [hm], ?_⟩
  rcases Nat.lt_or_eq_of_le (Nat.div_le_div_right (c := 1000000) h.le) with hs | hs
  · exact Or.inl (mod_lt_mod hs (by simpa [Nat.div_div_eq_div_mul] using hm))
  exact Or.inr ⟨by rw [hs], mod_lt_mod h hs⟩

lemma fields_lt {a b : Instant} (h : a < b) : a.fields < b.fields := by
  rw [lt_iff] at h
  simp only [fields, List.cons_lt_cons_iff]
  by_cases hday : a.micros / 86400000000 = b.micros / 86400000000
  · have hdate : a.date = b.date := by unfold date; rw [hday]
    simpa [hdate] using clock_lt h hday
  · have hle := Nat.div_le_div_right (c := 86400000000) h.le
    have hbefore : a.date.Before b.date := Date.ofOrdinal_before a.ordinal_pos (by omega)
    rcases hbefore with hy | ⟨hy, hm | ⟨hm, hd⟩⟩
    · exact Or.inl hy
    · exact Or.inr ⟨hy, Or.inl hm⟩
    · exact Or.inr ⟨hy, Or.inr ⟨hm, Or.inl hd⟩⟩

end Instant

lemma toIso_lt {a b : Instant} (h : a < b) : toIso a < toIso b := by
  rw [String.lt_iff_toList_lt, toIso, toIso, String.toList_ofList, String.toList_ofList,
    FixedWidth.render_lt_iff a.fields_fit b.fields_fit]
  exact Instant.fields_lt h

/-- **Text order is time order.** -/
theorem toIso_lt_iff {a b : Instant} : toIso a < toIso b ↔ a < b := by
  constructor
  · intro h
    rcases lt_trichotomy a b with hlt | rfl | hgt
    · exact hlt
    · exact absurd h (lt_irrefl _)
    · exact absurd (h.trans (toIso_lt hgt)) (lt_irrefl _)
  · exact toIso_lt

theorem toIso_inj {a b : Instant} : toIso a = toIso b ↔ a = b := by
  constructor
  · intro h
    rcases lt_trichotomy a b with hlt | heq | hgt
    · exact absurd (h ▸ toIso_lt hlt) (lt_irrefl _)
    · exact heq
    · exact absurd (h ▸ toIso_lt hgt) (lt_irrefl _)
  · rintro rfl
    rfl

theorem toIso_le_iff {a b : Instant} : toIso a ≤ toIso b ↔ a ≤ b := by
  rw [← not_lt, toIso_lt_iff, not_lt]

lemma toIso_ne_empty (a : Instant) : toIso a ≠ "" := by
  intro h
  have hlist := congrArg String.toList h
  simp [toIso, isoTemplate, Instant.fields, FixedWidth.render] at hlist

end TickerWatch
