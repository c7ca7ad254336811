import Mathlib.Algebra.Order.BigOperators.Group.List
import RinhaBackend.Cluster
import RinhaBackend.SummaryWindow

/-!
# Laws of summary windows

Two windows that share a bound add up, and a wider window reports at least as
much, as long as the windows end at or after `processed_start`.  The lower bound
is clamped as a signed number and the upper bound as an unsigned one, so a window
that ends earlier is not empty: its upper bound wraps to the last bucket.
-/

namespace RinhaBackend

open Foundation

variable {α : Type} [Double α]

namespace Ledger

/-! ## Requests of a list of buckets -/

omit [Double α] in
theorem requests_eq_zero_iff {buckets : Fin processedCapacity → Summary α}
    {slots : List (Fin processedCapacity)} :
    requests buckets slots = 0 ↔ ∀ slot ∈ slots, (buckets slot).totalRequests = 0 := by
  simp [requests, List.sum_eq_zero_iff, ← UInt64.toNat_inj]

theorem totals_requests_mono {ledger : Ledger α} (hfit : ledger.CountsFit)
    {narrow wide : List (Fin processedCapacity)} (h : narrow.Sublist wide)
    (hwide : wide.Sublist (List.finRange processedCapacity)) :
    (ledger.totals narrow).default.totalRequests ≤
        (ledger.totals wide).default.totalRequests ∧
      (ledger.totals narrow).fallback.totalRequests ≤
        (ledger.totals wide).fallback.totalRequests := by
  obtain ⟨hdefault, hfallback⟩ := totals_requests hfit (h.trans hwide)
  obtain ⟨hdefault', hfallback'⟩ := totals_requests hfit hwide
  rw [UInt64.le_iff_toNat_le, UInt64.le_iff_toNat_le, hdefault, hfallback, hdefault',
    hfallback']
  exact ⟨requests_le_of_sublist h, requests_le_of_sublist h⟩

theorem totals_requests_eq_zero_iff {ledger : Ledger α} (hfit : ledger.CountsFit)
    {slots : List (Fin processedCapacity)}
    (hslots : slots.Sublist (List.finRange processedCapacity)) :
    ((ledger.totals slots).default.totalRequests = 0 ∧
        (ledger.totals slots).fallback.totalRequests = 0) ↔
      ∀ slot ∈ slots, (ledger.processedDefault slot).totalRequests = 0 ∧
        (ledger.processedFallback slot).totalRequests = 0 := by
  obtain ⟨hdefault, hfallback⟩ := totals_requests hfit hslots
  have hzero : ∀ count : UInt64, count = 0 ↔ count.toNat = 0 := fun count =>
    (UInt64.toNat_inj (b := 0)).symm
  rw [hzero, hzero, hdefault, hfallback, requests_eq_zero_iff, requests_eq_zero_iff]
  exact ⟨fun h slot hslot => ⟨h.1 slot hslot, h.2 slot hslot⟩,
    fun h => ⟨fun slot hslot => (h slot hslot).1, fun slot hslot => (h slot hslot).2⟩⟩

/-! ## Windows that end before the store starts -/

/--
The buckets that a window ending before `processed_start` is answered with.  For
every start below `2 ^ 63` these are all buckets.  Above it the start wraps too,
and the buckets are those whose wrapped seconds lie in the window.
-/
def Reached (processedStart : UInt64) (fromText toText : Bytes)
    (slot : Fin processedCapacity) : Prop :=
  (processedStart.toNat : Int) ≤ 2 ^ 63 + (epochMs fromText / 1000 + 1) ∨
    2 ^ 64 + (epochMs fromText / 1000 + 1) ≤ processedStart.toNat + slot.val ∧
      (processedStart.toNat + slot.val : Int) ≤ 2 ^ 64 + epochMs toText / 1000

instance (processedStart : UInt64) (fromText toText : Bytes) :
    DecidablePred (Reached processedStart fromText toText) :=
  fun _ => inferInstanceAs (Decidable (_ ∨ _))

theorem query_before_start (ledger : Ledger α) {fromText toText : Bytes}
    (hfrom : 0 ≤ epochMs fromText) (hle : epochMs fromText ≤ epochMs toText)
    (hbefore : epochMs toText < 1000 * (ledger.processedStart.toNat : Int)) :
    ledger.query fromText toText =
      some (ledger.totals ((List.finRange processedCapacity).filter
        (Reached ledger.processedStart fromText toText))) := by
  obtain ⟨q, hq, hindex, hto⟩ :=
    Query.start_texts (α := α) hfrom hle ledger.processedStart
  have hmax := (parseTimestampMs_of_nonneg (hfrom.trans hle)).2
  have hms := (parseTimestampMs_of_nonneg (hfrom.trans hle)).1
  have hstart := ledger.processedStart.toNat_lt
  have hcapacity : processedCapacity = 3000 := rfl
  have hslots : (between q.index.toNat q.toSec.toNat : List (Fin processedCapacity)) =
      (List.finRange processedCapacity).filter
        (Reached ledger.processedStart fromText toText) := by
    unfold between
    apply List.filter_congr
    intro slot _
    have hslot := slot.isLt
    rw [decide_eq_decide, Reached]
    split_ifs at hindex <;> omega
  rw [query_eq, hq, ← hslots]

/-! ## Wider windows -/

/--
The wider window reports no fewer requests than the narrower one, which reports
none at all when it ends before the store starts.
-/
def WidensSafely (ledger : Ledger α) (fromWide fromText toText toWide : Bytes) : Prop :=
  ∃ wide narrow, ledger.query fromWide toWide = some wide ∧
    ledger.query fromText toText = some narrow ∧
    narrow.default.totalRequests ≤ wide.default.totalRequests ∧
    narrow.fallback.totalRequests ≤ wide.fallback.totalRequests ∧
    (epochMs toText < 1000 * (ledger.processedStart.toNat : Int) →
      narrow.default.totalRequests = 0 ∧ narrow.fallback.totalRequests = 0)

section Widening

variable {fromWide fromText toText toWide : Bytes} (hfrom : 0 ≤ epochMs fromWide)
variable (hlower : epochMs fromWide ≤ epochMs fromText)
variable (hle : epochMs fromText ≤ epochMs toText)
variable (hupper : epochMs toText ≤ epochMs toWide)

include hfrom hlower hle hupper

theorem widensSafely_of_started {ledger : Ledger α} (hfit : ledger.CountsFit)
    (hstart : 1000 * (ledger.processedStart.toNat : Int) ≤ epochMs toText) :
    ledger.WidensSafely fromWide fromText toText toWide := by
  refine ⟨_, _, ledger.query_texts hfrom (by omega) (hstart.trans hupper),
    ledger.query_texts (hfrom.trans hlower) hle hstart, ?_⟩
  have hwider := totals_requests_mono hfit
    (between_sublist
      (show (epochMs fromWide).toNat / 1000 + 1 - ledger.processedStart.toNat ≤
        (epochMs fromText).toNat / 1000 + 1 - ledger.processedStart.toNat by omega)
      (show (epochMs toText).toNat / 1000 - ledger.processedStart.toNat ≤
        (epochMs toWide).toNat / 1000 - ledger.processedStart.toNat by omega))
    List.filter_sublist
  exact ⟨hwider.1, hwider.2, fun hbefore => absurd hstart (by omega)⟩

end Widening

theorem onePayment_fits : onePayment.CountsFit := by decide +kernel

theorem totals_append (ledger : Ledger ℚ) (first second : List (Fin processedCapacity)) :
    (ledger.totals (first ++ second)).IsSum (ledger.totals first) (ledger.totals second) := by
  have hamounts : ∀ numbers numbers' : List ℚ, Double.sum (numbers ++ numbers') =
      Double.add (Double.sum numbers) (Double.sum numbers') := by
    intro numbers numbers'
    rw [Double.sum_rat, Double.sum_rat, Double.sum_rat, List.sum_append]
    rfl
  have hcounts : ∀ counts counts' : List UInt64,
      (counts ++ counts').sum = counts.sum + counts'.sum := fun _ _ => List.sum_append
  constructor <;>
    simp only [totals, Summary.total, List.map_append, hcounts, hamounts]

/-- The buckets of the seconds after the first bound and up to the last. -/
theorem mem_between_seconds {start first last : Nat} (hstart : start ≤ last)
    (slot : Fin processedCapacity) :
    slot ∈ (between (first + 1 - start) (last - start) : List (Fin processedCapacity)) ↔
      first < start + slot.val ∧ start + slot.val ≤ last := by
  rw [mem_between]
  omega

theorem seconds_append {start : Nat} {first middle last : Int} (hmiddle : first ≤ middle)
    (hlast : middle ≤ last) (hstart : 1000 * (start : Int) ≤ middle) :
    (between (first.toNat / 1000 + 1 - start) (middle.toNat / 1000 - start) ++
        between (middle.toNat / 1000 + 1 - start) (last.toNat / 1000 - start) :
      List (Fin processedCapacity)) =
      between (first.toNat / 1000 + 1 - start) (last.toNat / 1000 - start) := by
  have hnext : middle.toNat / 1000 + 1 - start = middle.toNat / 1000 - start + 1 := by omega
  rw [hnext, between_append (by omega) (by omega)]

/--
Two windows that share the bound `middle`, at or after `processed_start`, split the
buckets of the window between the outer bounds into two lists, and each number of the
outer window is the sum of those of the two, with exact amounts and any content of the
buckets.
-/
theorem adjacent_windows_add (ledger : Ledger ℚ) {first middle last : Bytes}
    (hfirst : 0 ≤ epochMs first) (hmiddle : epochMs first ≤ epochMs middle)
    (hlast : epochMs middle ≤ epochMs last)
    (hstart : 1000 * (ledger.processedStart.toNat : Int) ≤ epochMs middle) :
    ∃ early late : List (Fin processedCapacity),
      ledger.query first middle = some (ledger.totals early) ∧
      ledger.query middle last = some (ledger.totals late) ∧
      ledger.query first last = some (ledger.totals (early ++ late)) ∧
      (ledger.totals (early ++ late)).IsSum (ledger.totals early) (ledger.totals late) ∧
      (early ++ late).Nodup ∧
      ∀ slot, slot ∈ early ++ late ↔
        (epochMs first).toNat / 1000 < ledger.processedStart.toNat + slot.val ∧
          ledger.processedStart.toNat + slot.val ≤ (epochMs last).toNat / 1000 := by
  refine ⟨_, _, ledger.query_texts hfirst hmiddle hstart,
    ledger.query_texts (hfirst.trans hmiddle) hlast (hstart.trans hlast), ?_,
    ledger.totals_append _ _, ?_⟩
  · rw [ledger.query_texts hfirst (hmiddle.trans hlast) (hstart.trans hlast)]
    rw [seconds_append hmiddle hlast hstart]
  · rw [seconds_append hmiddle hlast hstart]
    exact ⟨between_nodup _ _, mem_between_seconds (by omega)⟩

/-- The first bound lies in 1970, the payment in the later of the two windows. -/
theorem adjacent_windows_add_on_second :
    let ledger : Ledger ℚ :=
      (initial 1751328000).addAt .default ⟨10, ten_lt_processedCapacity⟩ 20
    ∃ early late, ledger.query unixEpoch.text beforeSecond.text = some (ledger.totals early) ∧
      ledger.query beforeSecond.text onSecond.text = some (ledger.totals late) ∧
      (ledger.totals (early ++ late)).IsSum (ledger.totals early) (ledger.totals late) ∧
      (early ++ late).Nodup ∧ ⟨10, ten_lt_processedCapacity⟩ ∈ early ++ late ∧
      ledger.query unixEpoch.text onSecond.text = some ⟨⟨1, 20⟩, ⟨0, 0⟩⟩ := by
  intro ledger
  have hepoch := unixEpoch.epochMs_text
  have hbefore := beforeSecond.epochMs_text
  have hon := onSecond.epochMs_text
  have horder : unixEpoch.ms ≤ beforeSecond.ms ∧ beforeSecond.ms ≤ onSecond.ms := by
    decide
  have hledger : ledger.processedStart.toNat = 1751328000 := rfl
  have hstart : 1000 * 1751328000 ≤ beforeSecond.ms := by decide
  have hsecond : unixEpoch.ms / 1000 < 1751328010 ∧ 1751328010 ≤ onSecond.ms / 1000 := by
    decide
  obtain ⟨early, late, hearly, hlate, -, hsum, hnodup, hmem⟩ :=
    @adjacent_windows_add ledger unixEpoch.text beforeSecond.text onSecond.text (by omega)
      (by omega) (by omega) (by omega)
  refine ⟨early, late, hearly, hlate, hsum, hnodup, (hmem _).mpr ?_, by decide +kernel⟩
  dsimp only
  omega

end Ledger

end RinhaBackend
