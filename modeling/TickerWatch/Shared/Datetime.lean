import TickerWatch.Shared.Timeutil

/-!
# Aware datetimes

`to_iso` takes a `dt.datetime` with any UTC offset: local calendar fields and how far they are ahead
of UTC.  `astimezone` counts the local fields as an instant and takes the offset off; past the ends
of the calendar it raises `OverflowError`.  From there on it is the text of the instant, so what is
known of `toIso` holds of datetimes through the instants they name.

The text of an instant reads back as that instant (`fromIso_toIso`), and no other text is accepted
(`toIso_of_fromIso`).
-/

namespace TickerWatch

/-- A timezone-aware `dt.datetime`.  Its offset is what its `tzinfo` answers for it, in microseconds
east of UTC, less than a day either way. -/
structure Datetime where
  date : Date
  hour : ℕ
  minute : ℕ
  second : ℕ
  microsecond : ℕ
  utcoffset : ℤ
  date_valid : date.Valid
  year_le : date.year ≤ 9999
  hour_lt : hour < 24
  minute_lt : minute < 60
  second_lt : second < 60
  microsecond_lt : microsecond < 1000000
  utcoffset_bound : -86400000000 < utcoffset ∧ utcoffset < 86400000000

namespace Datetime

/-- The local fields as microseconds since 1 January of year 1. -/
def localMicros (d : Datetime) : ℕ :=
  (d.date.toOrdinal - 1) * 86400000000 + d.hour * 3600000000 + d.minute * 60000000 +
    d.second * 1000000 + d.microsecond

/-- The UTC instant a datetime names, as microseconds since 1 January of year 1. -/
def utcMicros (d : Datetime) : ℤ := d.localMicros - d.utcoffset

/-- The UTC instant lies in years 1 to 9999. -/
def InRange (d : Datetime) : Prop := 0 ≤ d.utcMicros ∧ d.utcMicros < 3652059 * 86400000000

instance (d : Datetime) : Decidable d.InRange := inferInstanceAs (Decidable (_ ∧ _))

/-- `astimezone(dt.UTC)`; none when the instant is past the ends of the calendar. -/
def astimezoneUtc (d : Datetime) : Option Instant :=
  if h : d.InRange then some ⟨d.utcMicros.toNat, by
    have hend := h.2
    omega⟩
  else none

/-- `to_iso`. -/
def toIso (d : Datetime) : Option String := d.astimezoneUtc.map TickerWatch.toIso

/-- The UTC datetime with the given fields, if they are fields of one. -/
def ofFields : List ℕ → Option Datetime
  | [year, month, day, hour, minute, second, microsecond] =>
    if h : (⟨year, month, day⟩ : Date).Valid ∧ year ≤ 9999 ∧ hour < 24 ∧ minute < 60 ∧
        second < 60 ∧ microsecond < 1000000 then
      some {
        date := ⟨year, month, day⟩
        hour := hour
        minute := minute
        second := second
        microsecond := microsecond
        utcoffset := 0
        date_valid := h.1
        year_le := h.2.1
        hour_lt := h.2.2.1
        minute_lt := h.2.2.2.1
        second_lt := h.2.2.2.2.1
        microsecond_lt := h.2.2.2.2.2
        utcoffset_bound := by decide }
    else none
  | _ => none

/-- `dt.datetime.fromisoformat`, on texts of the format `to_iso` writes. -/
def fromIso (s : String) : Option Datetime :=
  (FixedWidth.parse isoTemplate s.toList).bind ofFields

variable {a b d : Datetime} {i : Instant} {s : String}

/-! ## The instant of a datetime -/

lemma astimezoneUtc_eq_some_iff : d.astimezoneUtc = some i ↔ d.utcMicros = i.micros := by
  have hi := i.in_range
  unfold astimezoneUtc
  constructor
  · intro h
    split at h
    case isFalse => exact absurd h (by simp)
    case isTrue hrange =>
      obtain rfl := Option.some.inj h
      have hpos := hrange.1
      show d.utcMicros = ((d.utcMicros.toNat : ℕ) : ℤ)
      omega
  · intro h
    have hrange : d.InRange := by
      unfold InRange
      omega
    rw [dif_pos hrange, Option.some.injEq]
    apply Instant.ext
    show d.utcMicros.toNat = i.micros
    omega

lemma exists_instant (h : d.InRange) : ∃ i, d.astimezoneUtc = some i ∧ d.utcMicros = i.micros := by
  have hsome : d.astimezoneUtc.isSome = true := by
    rw [astimezoneUtc, dif_pos h]
    rfl
  obtain ⟨i, hi⟩ := Option.isSome_iff_exists.1 hsome
  exact ⟨i, hi, astimezoneUtc_eq_some_iff.1 hi⟩

/-! ## Reading a text back -/

/-- The fields of an instant are those of a UTC datetime that names it. -/
lemma ofFields_fields (i : Instant) :
    ∃ d, ofFields i.fields = some d ∧ d.utcMicros = i.micros := by
  have hyear := i.year_lt
  have hvalid : (⟨i.date.year, i.date.month, i.date.day⟩ : Date).Valid := i.date_valid
  have hcount : i.date.toOrdinal = i.micros / 86400000000 + 1 := Date.toOrdinal_ofOrdinal i.ordinal_pos
  have hfields : (⟨i.date.year, i.date.month, i.date.day⟩ : Date).Valid ∧ i.date.year ≤ 9999 ∧
      i.hour < 24 ∧ i.minute < 60 ∧ i.second < 60 ∧ i.microsecond < 1000000 := by
    refine ⟨hvalid, by omega, ?_, ?_, ?_, ?_⟩
    · unfold Instant.hour; omega
    · unfold Instant.minute; omega
    · unfold Instant.second; omega
    · unfold Instant.microsecond; omega
  refine ⟨_, dif_pos hfields, ?_⟩
  show ((((⟨i.date.year, i.date.month, i.date.day⟩ : Date).toOrdinal - 1) * 86400000000 +
    i.hour * 3600000000 + i.minute * 60000000 + i.second * 1000000 + i.microsecond : ℕ) : ℤ) - 0 =
    i.micros
  have hdate : (⟨i.date.year, i.date.month, i.date.day⟩ : Date).toOrdinal =
      i.micros / 86400000000 + 1 := hcount
  rw [hdate]
  unfold Instant.hour Instant.minute Instant.second Instant.microsecond
  omega

/-- **Parsing a text gives the instant it was written from.** -/
theorem fromIso_toIso (i : Instant) :
    ∃ d, fromIso (TickerWatch.toIso i) = some d ∧ d.utcMicros = i.micros := by
  obtain ⟨d, hd, hmicros⟩ := ofFields_fields i
  have hparse : FixedWidth.parse isoTemplate (TickerWatch.toIso i).toList = some i.fields := by
    rw [FixedWidth.parse_eq_some_iff, TickerWatch.toIso, String.toList_ofList]
    exact ⟨i.fields_fit, rfl⟩
  refine ⟨d, ?_, hmicros⟩
  rw [fromIso, hparse]
  exact hd

lemma toOrdinal_bounds (d : Datetime) : 1 ≤ d.date.toOrdinal ∧ d.date.toOrdinal ≤ 3652059 := by
  have hyear := Date.toOrdinal_le_year d.date_valid
  have hmono : Date.daysBeforeYear (d.date.year + 1) ≤ Date.daysBeforeYear 10000 :=
    Date.daysBeforeYear_mono (by omega) (by have := d.year_le; omega)
  have hend : Date.daysBeforeYear 10000 = 3652059 := by decide
  have hday := d.date_valid.2.2.2.1
  refine ⟨?_, by omega⟩
  unfold Date.toOrdinal
  omega

/-- The fields of a UTC datetime are those of its instant. -/
lemma fields_of_utc (hutc : d.utcoffset = 0) : ∃ i : Instant, d.utcMicros = i.micros ∧
    i.fields = [d.date.year, d.date.month, d.date.day, d.hour, d.minute, d.second,
      d.microsecond] := by
  obtain ⟨hfirst, hlast⟩ := d.toOrdinal_bounds
  have hhour := d.hour_lt
  have hminute := d.minute_lt
  have hsecond := d.second_lt
  have hmicro := d.microsecond_lt
  have hlocal : d.localMicros < 3652059 * 86400000000 := by
    unfold localMicros
    omega
  have hday : d.localMicros / 86400000000 + 1 = d.date.toOrdinal := by
    unfold localMicros
    omega
  have hdate : (⟨d.localMicros, hlocal⟩ : Instant).date = d.date := by
    show Date.ofOrdinal (d.localMicros / 86400000000 + 1) = d.date
    rw [hday, Date.ofOrdinal_toOrdinal d.date_valid]
  have hclock : (⟨d.localMicros, hlocal⟩ : Instant).hour = d.hour ∧
      (⟨d.localMicros, hlocal⟩ : Instant).minute = d.minute ∧
      (⟨d.localMicros, hlocal⟩ : Instant).second = d.second ∧
      (⟨d.localMicros, hlocal⟩ : Instant).microsecond = d.microsecond := by
    simp only [Instant.hour, Instant.minute, Instant.second, Instant.microsecond]
    unfold localMicros
    omega
  obtain ⟨hh, hm, hs, hu⟩ := hclock
  refine ⟨⟨d.localMicros, hlocal⟩, ?_, ?_⟩
  · rw [utcMicros, hutc]
    simp
  · rw [Instant.fields, hdate, hh, hm, hs, hu]

lemma of_ofFields {vs : List ℕ} (h : ofFields vs = some d) :
    d.utcoffset = 0 ∧ vs = [d.date.year, d.date.month, d.date.day, d.hour, d.minute, d.second,
      d.microsecond] := by
  unfold ofFields at h
  split at h
  · split at h
    · obtain rfl := Option.some.inj h
      exact ⟨rfl, rfl⟩
    · exact absurd h (by simp)
  · exact absurd h (by simp)

/-- **Only what `to_iso` writes is read**, and it is what `to_iso` writes of what was read. -/
theorem toIso_of_fromIso (h : fromIso s = some d) : d.toIso = some s := by
  obtain ⟨vs, hparse, hfields⟩ := Option.bind_eq_some_iff.1 h
  obtain ⟨-, hrender⟩ := FixedWidth.parse_eq_some_iff.1 hparse
  obtain ⟨hutc, rfl⟩ := of_ofFields hfields
  obtain ⟨i, hmicros, hi⟩ := fields_of_utc hutc
  rw [toIso, astimezoneUtc_eq_some_iff.2 hmicros, Option.map_some, TickerWatch.toIso, hi, hrender,
    String.ofList_toList]

/-! ## Text order -/

lemma length_toIso (i : Instant) : (TickerWatch.toIso i).toList.length = 27 := by
  rw [TickerWatch.toIso, String.toList_ofList, FixedWidth.length_render i.fields_fit]
  rfl

lemma getLast?_toIso (i : Instant) : (TickerWatch.toIso i).toList.getLast? = some 'Z' := by
  rw [TickerWatch.toIso, String.toList_ofList]
  simp [isoTemplate, Instant.fields, FixedWidth.render, List.getLast?_cons, List.getLast?_append]

/-- **Text order is time order**, whatever the offsets.  The texts of two datetimes whose instants
lie in the calendar compare as the instants do and are equal for equal instants; each is 27
characters long, ends in `Z` and reads back as a datetime of the same instant. -/
theorem text_order_is_time_order (a b : Datetime) (ha : a.InRange) (hb : b.InRange) :
    ∃ textA textB, a.toIso = some textA ∧ b.toIso = some textB ∧
      (textA < textB ↔ a.utcMicros < b.utcMicros) ∧ (textA = textB ↔ a.utcMicros = b.utcMicros) ∧
      textA.toList.length = 27 ∧ textB.toList.length = 27 ∧
      textA.toList.getLast? = some 'Z' ∧
      ∃ d, fromIso textA = some d ∧ d.utcMicros = a.utcMicros := by
  obtain ⟨i, hi, hmicros⟩ := exists_instant ha
  obtain ⟨j, hj, hmicros'⟩ := exists_instant hb
  obtain ⟨d, hd, hback⟩ := fromIso_toIso i
  refine ⟨TickerWatch.toIso i, TickerWatch.toIso j, ?_, ?_, ?_, ?_, length_toIso i, length_toIso j,
    getLast?_toIso i, d, hd, hback.trans hmicros.symm⟩
  · rw [toIso, hi, Option.map_some]
  · rw [toIso, hj, Option.map_some]
  · rw [toIso_lt_iff, Instant.lt_iff, hmicros, hmicros', Int.ofNat_lt]
  · rw [toIso_inj, Instant.ext_iff, hmicros, hmicros', Int.ofNat_inj]

/-- Noon in Berlin, on a whole second. -/
def noonBerlin : Datetime :=
  ⟨⟨2026, 9, 21⟩, 12, 0, 20, 0, 7200000000, by decide, by decide, by decide, by decide, by decide,
    by decide, by decide⟩

/-- Half a second later, in New York. -/
def morningNewYork : Datetime :=
  ⟨⟨2026, 9, 21⟩, 6, 0, 20, 500000, -14400000000, by decide, by decide, by decide, by decide,
    by decide, by decide, by decide⟩

example : noonBerlin.toIso = some "2026-09-21T10:00:20.000000Z" := by decide +kernel

/-- The local clock reads earlier and the text compares as later. -/
theorem berlin_before_newYork : ∃ textA textB, noonBerlin.toIso = some textA ∧
    morningNewYork.toIso = some textB ∧ textA < textB := by
  obtain ⟨textA, textB, hA, hB, hlt, -⟩ :=
    text_order_is_time_order noonBerlin morningNewYork (by decide) (by decide)
  exact ⟨textA, textB, hA, hB, hlt.2 (by decide)⟩

end Datetime
end TickerWatch
