import RinhaBackend.Query

/-!
# Which seconds a summary reports

The window asked for is closed: a payment stamped on the second `s` belongs to it
when `from ≤ 1000 * s ≤ to`.  `query` computes its first index as
`(from + 1000) / 1000`, one second late when `from` falls exactly on a second.
-/

namespace RinhaBackend

open Foundation

variable {α : Type} [Double α]

/-- The parsed milliseconds as a signed number: dates before 1970 are negative. -/
def epochMs (text : Bytes) : Int := (parseTimestampMs text).toInt64.toInt

theorem parseTimestampMs_of_nonneg {text : Bytes} (h : 0 ≤ epochMs text) :
    ((parseTimestampMs text).toNat : Int) = epochMs text ∧
      (parseTimestampMs text).toNat < 2 ^ 63 := by
  have hsigned : epochMs text = Int.bmod (parseTimestampMs text).toNat (2 ^ 64) :=
    BitVec.toInt_eq_toNat_bmod _
  have hmax := (parseTimestampMs text).toNat_lt
  simp only [Int.bmod] at hsigned
  omega

theorem Instant.epochMs_text (instant : Instant) :
    epochMs instant.text = instant.ms := by
  have hsigned : epochMs instant.text =
      Int.bmod (parseTimestampMs instant.text).toNat (2 ^ 64) :=
    BitVec.toInt_eq_toNat_bmod _
  have hmax := instant.ms_lt
  rw [instant.parseTimestampMs_text] at hsigned
  simp only [Int.bmod] at hsigned
  omega

namespace Query

theorem start_texts {fromText toText : Bytes} (hfrom : 0 ≤ epochMs fromText)
    (hle : epochMs fromText ≤ epochMs toText) (processedStart : UInt64) :
    ∃ q : Query α, start processedStart fromText toText = some q ∧
      (q.index.toNat : Int) =
        (if (epochMs fromText / 1000 + 1 - processedStart.toNat) % 2 ^ 64 < 2 ^ 63 then
          (epochMs fromText / 1000 + 1 - processedStart.toNat) % 2 ^ 64 else 0) ∧
      (q.toSec.toNat : Int) =
        min ((epochMs toText / 1000 - processedStart.toNat) % 2 ^ 64)
          ((processedCapacity - 1 : Nat) : Int) := by
  obtain ⟨hfromMs, hfromMax⟩ := parseTimestampMs_of_nonneg hfrom
  obtain ⟨htoMs, htoMax⟩ := parseTimestampMs_of_nonneg (hfrom.trans hle)
  have hstart := processedStart.toNat_lt
  have hnot : ¬ parseTimestampMs toText < parseTimestampMs fromText := by
    rw [UInt64.lt_iff_toNat_lt]
    omega
  refine ⟨_, if_neg hnot, ?_, ?_⟩
  · rw [clampFrom_toNat]
    simp only [UInt64.toNat_sub, UInt64.toNat_div, UInt64.toNat_add, UInt64.reduceToNat]
    split_ifs <;> omega
  · rw [clampTo_toNat]
    simp only [UInt64.toNat_sub, UInt64.toNat_div, UInt64.reduceToNat]
    omega

end Query

namespace Ledger

def secondsWithin (ledger : Ledger α) (fromMs toMs : Nat) :
    List (Fin processedCapacity) :=
  (List.finRange processedCapacity).filter fun slot =>
    fromMs ≤ 1000 * (ledger.processedStart.toNat + slot.val) ∧
      1000 * (ledger.processedStart.toNat + slot.val) ≤ toMs

/-- Nothing is stored on a second that `fromMs` falls on exactly. -/
def StartClear (ledger : Ledger α) (fromMs : Nat) : Prop :=
  ∀ slot : Fin processedCapacity,
    1000 * (ledger.processedStart.toNat + slot.val) = fromMs →
      ledger.processedDefault slot = .zero ∧ ledger.processedFallback slot = .zero

omit [Double α] in
theorem secondsWithin_eq (ledger : Ledger α) {fromMs toMs : Nat}
    (hstart : 1000 * ledger.processedStart.toNat ≤ toMs) :
    ledger.secondsWithin fromMs toMs =
      between ((fromMs + 999) / 1000 - ledger.processedStart.toNat)
        (toMs / 1000 - ledger.processedStart.toNat) := by
  unfold secondsWithin between
  apply List.filter_congr
  intro slot _
  rw [decide_eq_decide]
  omega

/-- With the upper bound after the start, the wrapped indices are the seconds asked for. -/
theorem window_indices {start first last index stop slot : Nat} (hle : first ≤ last)
    (hstart : start ≤ last) (hmax : last < 2 ^ 62)
    (hindex : (index : Int) =
      if ((first : Int) + 1 - start) % 2 ^ 64 < 2 ^ 63 then
        ((first : Int) + 1 - start) % 2 ^ 64 else 0)
    (hstop : (stop : Int) =
      min (((last : Int) - start) % 2 ^ 64) ((processedCapacity - 1 : Nat) : Int))
    (hslot : slot < processedCapacity) :
    (index ≤ slot ∧ slot ≤ stop) ↔ (first + 1 - start ≤ slot ∧ slot ≤ last - start) := by
  split_ifs at hindex <;> omega

theorem query_texts (ledger : Ledger α) {fromText toText : Bytes}
    (hfrom : 0 ≤ epochMs fromText) (hle : epochMs fromText ≤ epochMs toText)
    (hstart : 1000 * (ledger.processedStart.toNat : Int) ≤ epochMs toText) :
    ledger.query fromText toText =
      some (ledger.totals
        (between ((epochMs fromText).toNat / 1000 + 1 - ledger.processedStart.toNat)
          ((epochMs toText).toNat / 1000 - ledger.processedStart.toNat))) := by
  obtain ⟨q, hq, hindex, hto⟩ :=
    Query.start_texts (α := α) hfrom hle ledger.processedStart
  obtain ⟨hms, hmax⟩ := parseTimestampMs_of_nonneg (hfrom.trans hle)
  have hfirst : epochMs fromText / 1000 = ((epochMs fromText).toNat / 1000 : Nat) := by
    omega
  have hlast : epochMs toText / 1000 = ((epochMs toText).toNat / 1000 : Nat) := by omega
  rw [hfirst] at hindex
  rw [hlast] at hto
  rw [query_eq, hq]
  simp only
  rw [between_congr]
  intro slot hslot
  exact window_indices (by omega) (by omega) (by omega) hindex hto hslot

theorem query_instants (ledger : Ledger α) {fromInstant toInstant : Instant}
    (hle : fromInstant.ms ≤ toInstant.ms)
    (hstart : 1000 * ledger.processedStart.toNat ≤ toInstant.ms) :
    ledger.query fromInstant.text toInstant.text =
      some (ledger.totals
        (between (fromInstant.ms / 1000 + 1 - ledger.processedStart.toNat)
          (toInstant.ms / 1000 - ledger.processedStart.toNat))) := by
  have hfromMs := fromInstant.epochMs_text
  have htoMs := toInstant.epochMs_text
  rw [query_texts ledger (by omega) (by omega) (by omega), hfromMs, htoMs,
    Int.toNat_natCast, Int.toNat_natCast]

omit [Double α] in
theorem secondsWithin_cases (ledger : Ledger α) {fromMs toMs : Nat}
    (hle : fromMs ≤ toMs) (hstart : 1000 * ledger.processedStart.toNat ≤ toMs) :
    (∃ slot : Fin processedCapacity,
      1000 * (ledger.processedStart.toNat + slot.val) = fromMs ∧
        ledger.secondsWithin fromMs toMs =
          slot :: between (fromMs / 1000 + 1 - ledger.processedStart.toNat)
            (toMs / 1000 - ledger.processedStart.toNat)) ∨
    ((∀ slot : Fin processedCapacity,
      1000 * (ledger.processedStart.toNat + slot.val) ≠ fromMs) ∧
        ledger.secondsWithin fromMs toMs =
          between (fromMs / 1000 + 1 - ledger.processedStart.toNat)
            (toMs / 1000 - ledger.processedStart.toNat)) := by
  rw [secondsWithin_eq ledger hstart]
  by_cases hslot : ∃ slot : Fin processedCapacity,
      1000 * (ledger.processedStart.toNat + slot.val) = fromMs
  · obtain ⟨slot, hslot⟩ := hslot
    refine Or.inl ⟨slot, hslot, ?_⟩
    have hfirst : (fromMs + 999) / 1000 - ledger.processedStart.toNat = slot.val := by
      omega
    have hnext : fromMs / 1000 + 1 - ledger.processedStart.toNat = slot.val + 1 := by
      omega
    rw [hfirst, hnext, between_cons (by omega) slot.isLt]
  · simp only [not_exists] at hslot
    refine Or.inr ⟨hslot, between_congr fun slot hlt => ?_⟩
    have hne : 1000 * (ledger.processedStart.toNat + slot) ≠ fromMs := hslot ⟨slot, hlt⟩
    omega

end Ledger

/-! ## Sums with and without a first bucket -/

theorem Summary.total_zero_cons (summaries : List (Summary α)) :
    Summary.total (.zero :: summaries) = Summary.total summaries := by
  simp [total, zero, Double.sum, Double.zero_add_zero]

theorem Summary.totalRequests_zero_of_total_cons {summary : Summary α}
    {summaries : List (Summary α)}
    (h : Summary.total (summary :: summaries) = Summary.total summaries) :
    summary.totalRequests = 0 := by
  have hrequests := congrArg Summary.totalRequests h
  simpa [total] using hrequests

theorem Summary.eq_zero_of_total_cons {summary : Summary ℚ}
    {summaries : List (Summary ℚ)}
    (h : Summary.total (summary :: summaries) = Summary.total summaries) :
    summary = .zero := by
  have hrequests := totalRequests_zero_of_total_cons h
  have hamount := congrArg Summary.totalAmount h
  simp only [total, Double.sum_rat, List.map_cons, List.sum_cons, add_eq_right] at hamount
  obtain ⟨totalRequests, totalAmount⟩ := summary
  simp only at hrequests hamount
  rw [hrequests, hamount]
  rfl

/-! ## Exactness -/

namespace Ledger

/-- The answer to a query is the sum of the seconds in the closed window. -/
def QueryExact (ledger : Ledger α) (fromInstant toInstant : Instant) : Prop :=
  ledger.query fromInstant.text toInstant.text =
    some (ledger.totals (ledger.secondsWithin fromInstant.ms toInstant.ms))

variable {fromInstant toInstant : Instant}

theorem queryExact_of_startClear {ledger : Ledger α}
    (hle : fromInstant.ms ≤ toInstant.ms)
    (hstart : 1000 * ledger.processedStart.toNat ≤ toInstant.ms)
    (hclear : ledger.StartClear fromInstant.ms) :
    ledger.QueryExact fromInstant toInstant := by
  rw [QueryExact, query_instants ledger hle hstart]
  rcases ledger.secondsWithin_cases hle hstart with ⟨slot, hslot, hwithin⟩ | ⟨-, hwithin⟩
  · obtain ⟨hdefault, hfallback⟩ := hclear slot hslot
    rw [hwithin]
    simp only [totals, List.map_cons, hdefault, hfallback, Summary.total_zero_cons]
  · rw [hwithin]

theorem totals_of_queryExact {ledger : Ledger α} (hle : fromInstant.ms ≤ toInstant.ms)
    (hstart : 1000 * ledger.processedStart.toNat ≤ toInstant.ms)
    (hexact : ledger.QueryExact fromInstant toInstant) {slot : Fin processedCapacity}
    (hslot : 1000 * (ledger.processedStart.toNat + slot.val) = fromInstant.ms) :
    ∃ slots : List (Fin processedCapacity),
      Summary.total (ledger.processedDefault slot :: slots.map ledger.processedDefault) =
        Summary.total (slots.map ledger.processedDefault) ∧
      Summary.total (ledger.processedFallback slot :: slots.map ledger.processedFallback) =
        Summary.total (slots.map ledger.processedFallback) := by
  rw [QueryExact, query_instants ledger hle hstart, Option.some.injEq] at hexact
  rcases ledger.secondsWithin_cases hle hstart with ⟨slot', hslot', hwithin⟩ | ⟨hnone, -⟩
  · obtain rfl : slot' = slot := Fin.ext (by omega)
    rw [hwithin] at hexact
    simp only [totals, List.map_cons, SummaryPair.mk.injEq] at hexact
    exact ⟨_, hexact.1.symm, hexact.2.symm⟩
  · exact absurd hslot (hnone slot)

/--
When a summary reports exactly the closed window asked for.  With exact amounts
this is so if and only if nothing is stored on a second that the window starts
on.  With binary64 amounts the condition is sufficient too, and it is necessary
for stores whose empty buckets hold no amount.
-/
theorem query_window_exact_iff (fromInstant toInstant : Instant)
    (hle : fromInstant.ms ≤ toInstant.ms) (processedStart : UInt64)
    (hstart : 1000 * processedStart.toNat ≤ toInstant.ms) :
    (∀ ledger : Ledger ℚ, ledger.processedStart = processedStart →
      (ledger.QueryExact fromInstant toInstant ↔ ledger.StartClear fromInstant.ms)) ∧
    (∀ ledger : Ledger Float, ledger.processedStart = processedStart →
      (ledger.StartClear fromInstant.ms → ledger.QueryExact fromInstant toInstant) ∧
      ((∀ processor slot, (ledger.bucket processor slot).totalRequests = 0 →
          ledger.bucket processor slot = .zero) →
        ledger.QueryExact fromInstant toInstant → ledger.StartClear fromInstant.ms)) := by
  refine ⟨?_, ?_⟩
  · rintro ledger rfl
    refine ⟨fun hexact slot hslot => ?_, queryExact_of_startClear hle hstart⟩
    obtain ⟨slots, hdefault, hfallback⟩ := totals_of_queryExact hle hstart hexact hslot
    exact ⟨Summary.eq_zero_of_total_cons hdefault, Summary.eq_zero_of_total_cons hfallback⟩
  · rintro ledger rfl
    refine ⟨queryExact_of_startClear hle hstart, fun hempty hexact slot hslot => ?_⟩
    obtain ⟨slots, hdefault, hfallback⟩ := totals_of_queryExact hle hstart hexact hslot
    exact ⟨hempty .default slot (Summary.totalRequests_zero_of_total_cons hdefault),
      hempty .fallback slot (Summary.totalRequests_zero_of_total_cons hfallback)⟩

def onSecond : Instant where
  date := ⟨2025, 7, 1, 0, 0, 10, by decide, by decide, by decide, by decide, by decide⟩
  millis := 0
  year_le := by decide
  millis_lt := by decide
  after_epoch := by decide

def beforeSecond : Instant where
  date := ⟨2025, 7, 1, 0, 0, 9, by decide, by decide, by decide, by decide, by decide⟩
  millis := 999
  year_le := by decide
  millis_lt := by decide
  after_epoch := by decide

def nextSecond : Instant where
  date := ⟨2025, 7, 1, 0, 0, 11, by decide, by decide, by decide, by decide, by decide⟩
  millis := 0
  year_le := by decide
  millis_lt := by decide
  after_epoch := by decide

def unixEpoch : Instant where
  date := ⟨1970, 1, 1, 0, 0, 0, by decide, by decide, by decide, by decide, by decide⟩
  millis := 0
  year_le := by decide
  millis_lt := by decide
  after_epoch := by decide

theorem ten_lt_processedCapacity : 10 < processedCapacity := by decide

def onePayment : Ledger Float :=
  (initial 1751328000).addAt .default ⟨10, ten_lt_processedCapacity⟩ (20 : Float)

theorem query_window_exact_before_second :
    onePayment.QueryExact beforeSecond onSecond := by
  have hms : beforeSecond.ms % 1000 = 999 := by decide
  exact ((query_window_exact_iff beforeSecond onSecond (by decide) 1751328000
    (by decide)).2 onePayment rfl).1 fun slot hslot => by omega

/-- The payment stamped on the second that is asked for is not reported. -/
theorem query_misses_second_on_start :
    1000 * onePayment.processedStart.toNat ≤ onSecond.ms ∧
      onePayment.query onSecond.text onSecond.text = some Query.zero ∧
      ¬ onePayment.QueryExact onSecond onSecond := by
  have hstart : 1000 * onePayment.processedStart.toNat ≤ onSecond.ms := by decide
  have hslot : 1000 * (onePayment.processedStart.toNat +
      (⟨10, by decide⟩ : Fin processedCapacity).val) = onSecond.ms := by decide
  refine ⟨hstart, ?_, fun hexact => ?_⟩
  · rw [query_instants onePayment le_rfl hstart, between_of_lt (by decide)]
    rfl
  · obtain ⟨slots, hdefault, -⟩ := totals_of_queryExact le_rfl hstart hexact hslot
    exact absurd (Summary.totalRequests_zero_of_total_cons hdefault) (by decide)

end Ledger

end RinhaBackend
