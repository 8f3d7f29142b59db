import Mathlib.Data.List.Lex
import Mathlib.Tactic.IntervalCases
import Mathlib.Tactic.Linarith

/-!
# The proleptic Gregorian calendar

Days are numbered from 1 January of year 1, which is day 1.  `ofOrdinal` splits a day number
along the 400-, 100-, 4- and 1-year cycles; `toOrdinal` counts the days before a date.  They are
inverse to each other on valid dates (`toOrdinal_ofOrdinal`), and `toOrdinal` is increasing in
the lexicographic order of year, month, day (`toOrdinal_lt`), so a date compares field by field
as its day number does (`ofOrdinal_before`).
-/

namespace TickerWatch

/-- A calendar date by its three fields. -/
@[ext] structure Date where
  year : ℕ
  month : ℕ
  day : ℕ
  deriving DecidableEq, Repr

namespace Date

/-- Whether a year has 366 days. -/
def isLeap (y : ℕ) : Bool := y % 4 == 0 && (y % 100 != 0 || y % 400 == 0)

/-- Days before 1 January of a year. -/
def daysBeforeYear (y : ℕ) : ℕ := (y - 1) * 365 + (y - 1) / 4 - (y - 1) / 100 + (y - 1) / 400

/-- Days in a month, of a leap year or not. -/
def daysInMonth (leap : Bool) : ℕ → ℕ
  | 2 => if leap then 29 else 28
  | 4 | 6 | 9 | 11 => 30
  | _ => 31

/-- Days of the year before a month. -/
def daysBeforeMonth (leap : Bool) (m : ℕ) : ℕ :=
  [0, 0, 31, 59, 90, 120, 151, 181, 212, 243, 273, 304, 334].getD m 0 +
    if 2 < m ∧ leap then 1 else 0

/-- The three fields name a day of the calendar. -/
def Valid (d : Date) : Prop :=
  1 ≤ d.year ∧ 1 ≤ d.month ∧ d.month ≤ 12 ∧ 1 ≤ d.day ∧
    d.day ≤ daysInMonth (isLeap d.year) d.month

instance (d : Date) : Decidable d.Valid := inferInstanceAs (Decidable (_ ∧ _ ∧ _ ∧ _ ∧ _))

/-- The number of a day, counting 1 January of year 1 as day 1. -/
def toOrdinal (d : Date) : ℕ :=
  daysBeforeYear d.year + daysBeforeMonth (isLeap d.year) d.month + d.day

/-- The month a zero-based day of the year falls in.  The estimate is at most one too large. -/
def monthOfDay (leap : Bool) (n : ℕ) : ℕ :=
  let m := (n + 50) / 32
  if n < daysBeforeMonth leap m then m - 1 else m

/-- The date of a day number. -/
def ofOrdinal (n : ℕ) : Date :=
  let n₀ := n - 1
  let n400 := n₀ / 146097
  let r400 := n₀ % 146097
  let n100 := r400 / 36524
  let r100 := r400 % 36524
  let n4 := r100 / 1461
  let r4 := r100 % 1461
  let n1 := r4 / 365
  let r1 := r4 % 365
  let year := n400 * 400 + n100 * 100 + n4 * 4 + n1 + 1
  -- the last day of a 4-year or 400-year cycle falls off the end of the quotient
  if n1 = 4 ∨ n100 = 4 then ⟨year - 1, 12, 31⟩
  else
    let leap := n1 == 3 && (n4 != 24 || n100 == 3)
    let month := monthOfDay leap r1
    ⟨year, month, r1 - daysBeforeMonth leap month + 1⟩

/-! ## Months within a year -/

/-- Every day of a year lies in exactly the month `monthOfDay` names. -/
lemma monthOfDay_spec : ∀ leap : Bool, ∀ n < if leap then 366 else 365,
    1 ≤ monthOfDay leap n ∧ monthOfDay leap n ≤ 12 ∧
      daysBeforeMonth leap (monthOfDay leap n) ≤ n ∧
      n < daysBeforeMonth leap (monthOfDay leap n) + daysInMonth leap (monthOfDay leap n) := by
  decide +kernel

/-- A month begins where the one before it ends, or later. -/
lemma daysBeforeMonth_add_le : ∀ leap : Bool, ∀ m < 13, ∀ m' < 13, 1 ≤ m → m < m' →
    daysBeforeMonth leap m + daysInMonth leap m ≤ daysBeforeMonth leap m' := by
  decide

lemma daysBeforeMonth_le_year : ∀ leap : Bool, ∀ m < 13, 1 ≤ m →
    daysBeforeMonth leap m + daysInMonth leap m ≤ if leap then 366 else 365 := by
  decide

/-! ## Years -/

lemma isLeap_iff {y : ℕ} : isLeap y = true ↔ 4 ∣ y ∧ (¬ 100 ∣ y ∨ 400 ∣ y) := by
  simp [isLeap, Nat.dvd_iff_mod_eq_zero]

lemma daysBeforeYear_succ {y : ℕ} (hy : 1 ≤ y) :
    daysBeforeYear (y + 1) = daysBeforeYear y + if isLeap y then 366 else 365 := by
  obtain ⟨k, rfl⟩ : ∃ k, y = k + 1 := ⟨y - 1, by omega⟩
  have hcentury : k / 100 ≤ k / 4 := Nat.div_le_div_left (by omega) (by omega)
  have hdvd : 100 ∣ k + 1 → 4 ∣ k + 1 := fun h => Nat.dvd_trans (by decide) h
  have hdvd' : 400 ∣ k + 1 → 100 ∣ k + 1 := fun h => Nat.dvd_trans (by decide) h
  simp only [daysBeforeYear, Nat.add_sub_cancel, Nat.succ_div, isLeap_iff]
  by_cases h4 : 4 ∣ k + 1 <;> by_cases h100 : 100 ∣ k + 1 <;> by_cases h400 : 400 ∣ k + 1 <;>
    simp only [h4, h100, h400, if_true, if_false, not_true_eq_false, not_false_eq_true, and_true,
      and_false, or_true, or_false, true_implies, false_implies] at hdvd hdvd' ⊢ <;> omega

lemma daysBeforeYear_mono {y y' : ℕ} (hy : 1 ≤ y) (h : y ≤ y') :
    daysBeforeYear y ≤ daysBeforeYear y' := by
  induction y', h using Nat.le_induction with
  | base => exact le_rfl
  | succ n hn ih =>
    rw [daysBeforeYear_succ (hy.trans hn)]
    omega

/-- No day of a valid date's year lies beyond the year. -/
lemma toOrdinal_le_year {d : Date} (h : d.Valid) :
    toOrdinal d ≤ daysBeforeYear (d.year + 1) := by
  obtain ⟨hy, hm, hm', hd, hd'⟩ := h
  have hyear := daysBeforeMonth_le_year (isLeap d.year) d.month (by omega) hm
  rw [daysBeforeYear_succ hy]
  unfold toOrdinal
  omega

/-- The lexicographic order of year, month, day. -/
def Before (d d' : Date) : Prop :=
  d.year < d'.year ∨ (d.year = d'.year ∧
    (d.month < d'.month ∨ (d.month = d'.month ∧ d.day < d'.day)))

/-- Later dates have larger day numbers. -/
theorem toOrdinal_lt {d d' : Date} (h : d.Valid) (h' : d'.Valid) (hlt : d.Before d') :
    toOrdinal d < toOrdinal d' := by
  obtain ⟨hy', hm1', hm2', hd1', hd2'⟩ := h'
  rcases hlt with hyear | ⟨hyear, hmonth | ⟨hmonth, hday⟩⟩
  · -- the year ends before the later year begins
    have hend := toOrdinal_le_year h
    have hmono : daysBeforeYear (d.year + 1) ≤ daysBeforeYear d'.year :=
      daysBeforeYear_mono (by omega) hyear
    unfold toOrdinal at *
    omega
  · have hstep := daysBeforeMonth_add_le (isLeap d'.year) d.month (by have := h.2.2.1; omega)
      d'.month (by omega) h.2.1 hmonth
    have hd := h.2.2.2.2
    unfold toOrdinal
    rw [hyear] at hd ⊢
    omega
  · unfold toOrdinal
    rw [hyear, hmonth]
    omega

/-! ## Splitting a day number -/

section Cycles

variable {a b c d : ℕ}

/-- Days before a year given by its place in the 400-, 100-, 4- and 1-year cycles. -/
lemma daysBeforeYear_cycles (hb : b ≤ 3) (hc : c ≤ 24) (hd : d ≤ 3) :
    daysBeforeYear (a * 400 + b * 100 + c * 4 + d + 1) =
      a * 146097 + b * 36524 + c * 1461 + d * 365 := by
  have h4 : (a * 400 + b * 100 + c * 4 + d) / 4 = a * 100 + b * 25 + c := by omega
  have h100 : (a * 400 + b * 100 + c * 4 + d) / 100 = a * 4 + b := by omega
  have h400 : (a * 400 + b * 100 + c * 4 + d) / 400 = a := by omega
  simp only [daysBeforeYear, Nat.add_sub_cancel, h4, h100, h400]
  omega

lemma isLeap_cycles (hb : b ≤ 3) (hc : c ≤ 24) (hd : d ≤ 3) :
    isLeap (a * 400 + b * 100 + c * 4 + d + 1) = (d == 3 && (c != 24 || b == 3)) := by
  rw [Bool.eq_iff_iff, isLeap_iff]
  simp only [Nat.dvd_iff_mod_eq_zero, Bool.and_eq_true, Bool.or_eq_true, beq_iff_eq, bne_iff_ne]
  omega

end Cycles

/-- What a day number is made of: full cycles, and the day of the year. -/
lemma ofOrdinal_cases (m : ℕ) :
    ∃ a b c d r, b ≤ 3 ∧ c ≤ 24 ∧ d ≤ 3 ∧
      m = a * 146097 + b * 36524 + c * 1461 + d * 365 + r ∧
      (r < if (d == 3 && (c != 24 || b == 3)) then 366 else 365) ∧
      ofOrdinal (m + 1) = ⟨a * 400 + b * 100 + c * 4 + d + 1,
        monthOfDay (d == 3 && (c != 24 || b == 3)) r,
        r - daysBeforeMonth (d == 3 && (c != 24 || b == 3))
          (monthOfDay (d == 3 && (c != 24 || b == 3)) r) + 1⟩ := by
  have hr400 := Nat.mod_lt m (show 0 < 146097 by omega)
  have hr100 := Nat.mod_lt (m % 146097) (show 0 < 36524 by omega)
  have hr4 := Nat.mod_lt (m % 146097 % 36524) (show 0 < 1461 by omega)
  have hr1 := Nat.mod_lt (m % 146097 % 36524 % 1461) (show 0 < 365 by omega)
  have ha := Nat.div_add_mod m 146097
  have hb := Nat.div_add_mod (m % 146097) 36524
  have hc := Nat.div_add_mod (m % 146097 % 36524) 1461
  have hd := Nat.div_add_mod (m % 146097 % 36524 % 1461) 365
  have hlast : monthOfDay true 365 = 12 := by decide
  have hday : 365 - daysBeforeMonth true 12 + 1 = 31 := by decide
  simp only [ofOrdinal, Nat.add_sub_cancel]
  -- the quotients are kept as variables, as omega is to see no division
  generalize m / 146097 = a at *
  generalize m % 146097 = r400 at *
  generalize r400 / 36524 = b at *
  generalize r400 % 36524 = r100 at *
  generalize r100 / 1461 = c at *
  generalize r100 % 1461 = r4 at *
  generalize r4 / 365 = d at *
  generalize r4 % 365 = r at *
  -- the last day of a cycle of 400 years
  by_cases hb4 : b = 4
  · refine ⟨a, 3, 24, 3, 365, by omega, by omega, by omega, by omega, by simp, ?_⟩
    rw [if_pos (Or.inr hb4)]
    simp only [beq_self_eq_true, Bool.or_true, Bool.and_true, hlast, hday, Date.mk.injEq, and_true]
    omega
  -- the last day of a cycle of four years
  · by_cases hd4 : d = 4
    · have hc23 : c ≤ 23 := by omega
      have hleap : ((3 : ℕ) == 3 && (c != 24 || b == 3)) = true := by
        have : c ≠ 24 := by omega
        simp [this]
      refine ⟨a, b, c, 3, 365, by omega, by omega, by omega, by omega, by rw [hleap]; simp, ?_⟩
      rw [if_pos (Or.inl hd4), hleap, hlast, hday]
      simp only [Date.mk.injEq, and_true]
      omega
    · refine ⟨a, b, c, d, r, by omega, by omega, by omega, by omega, ?_, ?_⟩
      · split <;> omega
      · rw [if_neg (by omega)]

/-- Splitting a day number names a day of the calendar, and counting its days gives the number
back. -/
theorem ofOrdinal_spec {n : ℕ} (hn : 1 ≤ n) :
    (ofOrdinal n).Valid ∧ toOrdinal (ofOrdinal n) = n := by
  obtain ⟨m, rfl⟩ : ∃ m, n = m + 1 := ⟨n - 1, by omega⟩
  obtain ⟨a, b, c, d, r, hb, hc, hd, hm, hr, hdate⟩ := ofOrdinal_cases m
  rw [hdate]
  rw [← isLeap_cycles (a := a) hb hc hd] at hr ⊢
  obtain ⟨h1, h12, hle, hlt⟩ := monthOfDay_spec _ r hr
  constructor
  · exact ⟨by simp, h1, h12, by simp, by simp only; omega⟩
  · simp only [toOrdinal, daysBeforeYear_cycles hb hc hd]
    omega

theorem ofOrdinal_valid {n : ℕ} (hn : 1 ≤ n) : (ofOrdinal n).Valid := (ofOrdinal_spec hn).1

theorem toOrdinal_ofOrdinal {n : ℕ} (hn : 1 ≤ n) : toOrdinal (ofOrdinal n) = n :=
  (ofOrdinal_spec hn).2

/-- Dates compare field by field as their day numbers do. -/
theorem ofOrdinal_before {n n' : ℕ} (hn : 1 ≤ n) (h : n < n') :
    (ofOrdinal n).Before (ofOrdinal n') := by
  have hn' : 1 ≤ n' := by omega
  by_contra hnot
  -- the other order, or equality, would give the day numbers the other order
  have hcases : ofOrdinal n = ofOrdinal n' ∨ (ofOrdinal n').Before (ofOrdinal n) := by
    simp only [Before] at hnot ⊢
    rw [Date.ext_iff]
    omega
  rcases hcases with heq | hbefore
  · have := congrArg toOrdinal heq
    rw [toOrdinal_ofOrdinal hn, toOrdinal_ofOrdinal hn'] at this
    omega
  · have := toOrdinal_lt (ofOrdinal_valid hn') (ofOrdinal_valid hn) hbefore
    rw [toOrdinal_ofOrdinal hn, toOrdinal_ofOrdinal hn'] at this
    omega

/-- Counting the days of a valid date and splitting the number gives the date back. -/
theorem ofOrdinal_toOrdinal {d : Date} (h : d.Valid) : ofOrdinal (toOrdinal d) = d := by
  have hpos : 1 ≤ toOrdinal d := by
    have hday := h.2.2.2.1
    unfold toOrdinal
    omega
  have hback := toOrdinal_ofOrdinal hpos
  have hvalid := ofOrdinal_valid hpos
  by_contra hne
  have hcases : (ofOrdinal (toOrdinal d)).Before d ∨ d.Before (ofOrdinal (toOrdinal d)) := by
    rw [Date.ext_iff] at hne
    simp only [Before]
    omega
  rcases hcases with hbefore | hafter
  · have hlt := toOrdinal_lt hvalid h hbefore
    omega
  · have hlt := toOrdinal_lt h hvalid hafter
    omega

end Date
end TickerWatch
