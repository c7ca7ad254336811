import Mathlib.Data.List.Lex
import RinhaBackend.SummaryWindow

/-!
# The order of timestamps

Chronological order compares the fields of two timestamps from the year down to
the milliseconds.  `parse_timestamp_ms` counts milliseconds from 1970 in an
unsigned number, so the order survives on each side of 1970 and is turned around
across it.
-/

namespace RinhaBackend

open Foundation Calendar

variable {α : Type} [Double α]

/-- A well-formed `YYYY-MM-DDTHH:MM:SS.mmmZ`, before or after 1970. -/
structure Timestamp where
  date : DateTime
  millis : Nat
  year_le : date.year ≤ 9999
  millis_lt : millis < 1000

def Instant.timestamp (instant : Instant) : Timestamp :=
  ⟨instant.date, instant.millis, instant.year_le, instant.millis_lt⟩

namespace Timestamp

def text (timestamp : Timestamp) : Bytes := timestamp.date.render timestamp.millis

def fields (timestamp : Timestamp) : List Nat :=
  [timestamp.date.year, timestamp.date.month, timestamp.date.day, timestamp.date.hour,
    timestamp.date.minute, timestamp.date.second, timestamp.millis]

/-- Chronological order: lists of fields compare from the year down. -/
def Before (first second : Timestamp) : Prop := first.fields < second.fields

instance (first second : Timestamp) : Decidable (first.Before second) :=
  inferInstanceAs (Decidable (first.fields < second.fields))

/-- Milliseconds since 1970, negative before. -/
def ms (timestamp : Timestamp) : Int := timestamp.date.epochMillis timestamp.millis

/-! ## Chronological order and milliseconds -/

def dayNumber (timestamp : Timestamp) : Int :=
  Calendar.dayNumber timestamp.date.year (timestamp.date.month - 1) timestamp.date.day

theorem validDay (timestamp : Timestamp) :
    ValidDay (leapDay timestamp.date.year) (timestamp.date.month - 1)
      timestamp.date.day where
  month_le := by
    have hmonth := timestamp.date.month_valid
    omega
  day_pos := by exact_mod_cast timestamp.date.day_valid.1
  day_le := timestamp.date.day_valid.2

theorem dayNumber_lt {first second : Timestamp}
    (h : first.date.year < second.date.year ∨ first.date.year = second.date.year ∧
      (first.date.month < second.date.month ∨ first.date.month = second.date.month ∧
        first.date.day < second.date.day)) :
    first.dayNumber < second.dayNumber := by
  have hmonth := first.date.month_valid
  have hmonth' := second.date.month_valid
  refine (dayNumber_lt_iff first.validDay second.validDay).mpr ?_
  omega

theorem dayNumber_congr {first second : Timestamp}
    (hyear : first.date.year = second.date.year)
    (hmonth : first.date.month = second.date.month)
    (hday : first.date.day = second.date.day) : first.dayNumber = second.dayNumber := by
  unfold dayNumber
  rw [hyear, hmonth, hday]

theorem ms_eq (timestamp : Timestamp) :
    timestamp.ms =
      1000 * (60 * (60 * (24 * timestamp.dayNumber + timestamp.date.hour) +
        timestamp.date.minute) + timestamp.date.second) + timestamp.millis := by
  unfold ms dayNumber DateTime.epochMillis DateTime.epochSecond
  ring

theorem ms_lt_of_before {first second : Timestamp} (h : first.Before second) :
    first.ms < second.ms := by
  have hhour := first.date.hour_valid
  have hminute := first.date.minute_valid
  have hsecond := first.date.second_valid
  have hmillis := first.millis_lt
  rw [ms_eq, ms_eq]
  unfold Before fields at h
  simp only [List.cons_lt_cons_iff, List.not_lt_nil, and_false, or_false] at h
  rcases h with hlt | ⟨hyear, hlt | ⟨hmonth, hlt | ⟨hday, h⟩⟩⟩
  · have hdays := dayNumber_lt (Or.inl hlt)
    omega
  · have hdays := dayNumber_lt (Or.inr ⟨hyear, Or.inl hlt⟩)
    omega
  · have hdays := dayNumber_lt (Or.inr ⟨hyear, Or.inr ⟨hmonth, hlt⟩⟩)
    omega
  · have hdays := dayNumber_congr hyear hmonth hday
    omega

theorem ms_congr {first second : Timestamp} (h : first.fields = second.fields) :
    first.ms = second.ms := by
  simp only [fields, List.cons.injEq] at h
  obtain ⟨hyear, hmonth, hday, hhour, hminute, hsecond, hmillis, -⟩ := h
  rw [ms_eq, ms_eq, dayNumber_congr hyear hmonth hday, hhour, hminute, hsecond, hmillis]

theorem before_iff (first second : Timestamp) :
    first.Before second ↔ first.ms < second.ms := by
  constructor
  · exact ms_lt_of_before
  · intro hlt
    rcases lt_trichotomy first.fields second.fields with h | h | h
    · exact h
    · exact absurd (ms_congr h) hlt.ne
    · exact absurd (ms_lt_of_before h) hlt.asymm

/-! ## The two sides of 1970 -/

theorem before_epoch_iff (timestamp : Timestamp) :
    timestamp.ms < 0 ↔ timestamp.date.year < 1970 := by
  have hepoch : Ledger.unixEpoch.timestamp.ms = 0 := by decide
  have hmonth := timestamp.date.month_valid
  have hday := timestamp.date.day_valid
  rw [← hepoch, ← before_iff]
  simp only [Before, fields, Instant.timestamp, Ledger.unixEpoch, List.cons_lt_cons_iff,
    List.not_lt_nil, Nat.not_lt_zero, and_false, or_false]
  omega

theorem ms_bounds (timestamp : Timestamp) :
    -2 ^ 62 < timestamp.ms ∧ timestamp.ms < 2 ^ 62 := by
  have hday := timestamp.validDay.dayOfYear (leapDay_bounds timestamp.date.year).1
  have hupper := timestamp.date.epochSecond_lt timestamp.year_le
  have hmillis := timestamp.millis_lt
  constructor
  · rw [ms_eq]
    unfold dayNumber Calendar.dayNumber daysBeforeYear
    omega
  · unfold ms DateTime.epochMillis
    omega

theorem parseTimestampMs_text (timestamp : Timestamp) :
    ((parseTimestampMs timestamp.text).toNat : Int) =
      if timestamp.date.year < 1970 then timestamp.ms + 2 ^ 64 else timestamp.ms := by
  obtain ⟨hlower, hupper⟩ := timestamp.ms_bounds
  have hside := timestamp.before_epoch_iff
  have hparse : ((parseTimestampMs timestamp.text).toNat : Int) = timestamp.ms % 2 ^ 64 := by
    rw [text, timestamp.date.parseTimestampMs_render timestamp.year_le timestamp.millis_lt,
      UInt64.ofInt, UInt64.toNat_ofNat']
    unfold ms
    omega
  rw [hparse]
  split_ifs <;> omega

theorem parse_lt_iff (first second : Timestamp) :
    (first.Before second ↔
        parseTimestampMs first.text < parseTimestampMs second.text) ↔
      (first.date.year < 1970 ↔ second.date.year < 1970) := by
  have hfirst := first.parseTimestampMs_text
  have hsecond := second.parseTimestampMs_text
  have hbounds := first.ms_bounds
  have hbounds' := second.ms_bounds
  have hside := first.before_epoch_iff
  have hside' := second.before_epoch_iff
  rw [before_iff, UInt64.lt_iff_toNat_lt]
  by_cases hyear : first.date.year < 1970 <;> by_cases hyear' : second.date.year < 1970
  · rw [if_pos hyear] at hfirst
    rw [if_pos hyear'] at hsecond
    omega
  · rw [if_pos hyear] at hfirst
    rw [if_neg hyear'] at hsecond
    omega
  · rw [if_neg hyear] at hfirst
    rw [if_pos hyear'] at hsecond
    omega
  · rw [if_neg hyear] at hfirst
    rw [if_neg hyear'] at hsecond
    omega

theorem start_eq_none_iff (processedStart : UInt64) (fromText toText : Bytes) :
    Query.start (α := α) processedStart fromText toText = none ↔
      parseTimestampMs toText < parseTimestampMs fromText := by
  unfold Query.start
  dsimp only
  split_ifs with h <;> simp [h]

/--
The order of two timestamps survives parsing, and `query` rejects exactly the
reversed windows between them, when both lie on the same side of 1970.
-/
theorem order_preserved_iff (first second : Timestamp) (processedStart : UInt64) :
    ((first.Before second ↔
        parseTimestampMs first.text < parseTimestampMs second.text) ↔
      (first.date.year < 1970 ↔ second.date.year < 1970)) ∧
    ((Query.start (α := α) processedStart first.text second.text = none ↔
        second.Before first) ↔
      (first.date.year < 1970 ↔ second.date.year < 1970)) := by
  constructor
  · exact parse_lt_iff first second
  · rw [start_eq_none_iff, @iff_comm (parseTimestampMs _ < _), parse_lt_iff]
    exact iff_comm

def beforeEpoch : Timestamp where
  date := ⟨1969, 12, 31, 23, 59, 59, by decide, by decide, by decide, by decide, by decide⟩
  millis := 500
  year_le := by decide
  millis_lt := by decide

theorem order_lost_across_epoch :
    beforeEpoch.text = ascii "1969-12-31T23:59:59.500Z" ∧
      Ledger.unixEpoch.timestamp.text = ascii "1970-01-01T00:00:00.000Z" ∧
      beforeEpoch.Before Ledger.unixEpoch.timestamp ∧
      ¬ parseTimestampMs beforeEpoch.text <
        parseTimestampMs Ledger.unixEpoch.timestamp.text ∧
      ¬ Ledger.unixEpoch.timestamp.Before beforeEpoch ∧
      Query.start (α := Float) 0 beforeEpoch.text
        Ledger.unixEpoch.timestamp.text = none := by
  refine ⟨by decide, by decide, by decide, by decide, by decide, ?_⟩
  exact (start_eq_none_iff 0 _ _).mpr (by decide)

end Timestamp

end RinhaBackend
