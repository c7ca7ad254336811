import Mathlib.Algebra.Order.BigOperators.Group.List
import RinhaBackend.Foundation.Execution
import RinhaBackend.Foundation.Window
import RinhaBackend.Ledger

/-!
# The summary query

`query` turns two millisecond timestamps into bucket indices, shifts them by
`processed_start` in mixed signed and unsigned arithmetic, clamps both ends and
adds the buckets in between.  The loop is a machine that reads one bucket at a
time, so that other threads may store between two reads; `query` runs it without
interruption.
-/

namespace RinhaBackend

open Foundation

variable {α : Type} [Double α]

def Summary.plus (first second : Summary α) : Summary α :=
  ⟨first.totalRequests + second.totalRequests,
    Double.add first.totalAmount second.totalAmount⟩

/-- The loop of `query`: the next bucket to read, and the sums so far. -/
structure Query (α : Type) where
  index : UInt64
  toSec : UInt64
  atFallback : Bool
  result : SummaryPair α

def readBucket (buckets : Fin processedCapacity → Summary α) (index : UInt64) :
    Option (Summary α) :=
  if h : index.toNat < processedCapacity then some (buckets ⟨index.toNat, h⟩) else none

namespace Query

def zero : SummaryPair α := ⟨.zero, .zero⟩

def clampFrom (fromSec : Int64) : UInt64 :=
  (if fromSec < 0 then 0 else fromSec).toUInt64

def clampTo (toSec : UInt64) : UInt64 :=
  let capacity := UInt64.ofNat processedCapacity
  if toSec ≥ capacity then capacity - 1 else toSec

/-- The loop as `query` enters it; `none` when the window is reversed. -/
def start (processedStart : UInt64) (fromText toText : Bytes) : Option (Query α) :=
  let fromMs := parseTimestampMs fromText
  let toMs := parseTimestampMs toText
  if toMs < fromMs then none
  else
    let fromSec := ((fromMs + 1000) / 1000 - processedStart).toInt64
    let toSec := toMs / 1000 - processedStart
    some
      { index := clampFrom fromSec, toSec := clampTo toSec
        atFallback := false, result := zero }

def finished (q : Query α) : Bool := !q.atFallback && !decide (q.index ≤ q.toSec)

/-- One read of the loop; `none` when it is finished or the read is out of bounds. -/
def step (ledger : Ledger α) (q : Query α) : Option (Query α) :=
  if q.atFallback then
    match readBucket ledger.processedFallback q.index with
    | none => none
    | some fb =>
        some { q with
          index := q.index + 1
          atFallback := false
          result := { q.result with fallback := q.result.fallback.plus fb } }
  else if q.index ≤ q.toSec then
    match readBucket ledger.processedDefault q.index with
    | none => none
    | some default =>
        some { q with
          atFallback := true
          result := { q.result with default := q.result.default.plus default } }
  else none

def run (ledger : Ledger α) : Nat → Query α → Option (SummaryPair α)
  | 0, _ => none
  | fuel + 1, q =>
      if q.finished then some q.result
      else
        match q.step ledger with
        | none => none
        | some q => run ledger fuel q

end Query

/-- `query`, with fuel for two reads of every bucket. -/
def Ledger.query (ledger : Ledger α) (fromText toText : Bytes) :
    Option (SummaryPair α) :=
  match Query.start ledger.processedStart fromText toText with
  | none => some Query.zero
  | some q => q.run ledger (2 * processedCapacity + 1)

/-! ## The sums of a window -/

def Ledger.totals (ledger : Ledger α) (slots : List (Fin processedCapacity)) :
    SummaryPair α :=
  ⟨.total (slots.map ledger.processedDefault), .total (slots.map ledger.processedFallback)⟩

theorem foldl_plus (summaries : List (Summary α)) (start : Summary α) :
    summaries.foldl Summary.plus start =
      ⟨start.totalRequests + (summaries.map Summary.totalRequests).sum,
        (summaries.map Summary.totalAmount).foldl Double.add start.totalAmount⟩ := by
  induction summaries generalizing start with
  | nil => simp
  | cons summary summaries ih =>
      rw [List.foldl_cons, ih]
      simp [Summary.plus, UInt64.add_assoc]

theorem foldl_plus_zero (summaries : List (Summary α)) :
    summaries.foldl Summary.plus Summary.zero = Summary.total summaries := by
  rw [foldl_plus]
  simp [Summary.zero, Summary.total, Double.sum]

/-! ## Counters that do not wrap -/

/-- The requests of the buckets as a number, which a 64-bit counter may not hold. -/
def requests (buckets : Fin processedCapacity → Summary α)
    (slots : List (Fin processedCapacity)) : Nat :=
  (slots.map fun slot => (buckets slot).totalRequests.toNat).sum

/-- The requests that a processor's buckets have counted together. -/
def Ledger.counted (ledger : Ledger α) (processor : ProcessorResult) : Nat :=
  requests (ledger.bucket processor) (List.finRange processedCapacity)

/-- The requests of all buckets of a processor fit into 64 bits. -/
structure Ledger.CountsFit (ledger : Ledger α) : Prop where
  default : ledger.counted .default < 2 ^ 64
  fallback : ledger.counted .fallback < 2 ^ 64

section

omit [Double α]

instance (ledger : Ledger α) : Decidable ledger.CountsFit :=
  decidable_of_iff (ledger.counted .default < 2 ^ 64 ∧ ledger.counted .fallback < 2 ^ 64)
    ⟨fun h => ⟨h.1, h.2⟩, fun h => ⟨h.default, h.fallback⟩⟩

theorem Ledger.counted_default (ledger : Ledger α) :
    ledger.counted .default =
      requests ledger.processedDefault (List.finRange processedCapacity) := rfl

theorem Ledger.counted_fallback (ledger : Ledger α) :
    ledger.counted .fallback =
      requests ledger.processedFallback (List.finRange processedCapacity) := rfl

theorem toNat_sum (counts : List UInt64) :
    counts.sum.toNat = (counts.map UInt64.toNat).sum % 2 ^ 64 := by
  induction counts with
  | nil => rfl
  | cons count counts ih =>
      rw [List.sum_cons, UInt64.toNat_add, ih, List.map_cons, List.sum_cons, Nat.add_mod_mod]

theorem requests_le_of_sublist {buckets : Fin processedCapacity → Summary α}
    {narrow wide : List (Fin processedCapacity)} (h : narrow.Sublist wide) :
    requests buckets narrow ≤ requests buckets wide :=
  (h.map _).sum_le_sum fun _ _ => Nat.zero_le _

end

theorem Summary.total_requests {buckets : Fin processedCapacity → Summary α}
    {slots : List (Fin processedCapacity)}
    (hfit : requests buckets (List.finRange processedCapacity) < 2 ^ 64)
    (hslots : slots.Sublist (List.finRange processedCapacity)) :
    (Summary.total (slots.map buckets)).totalRequests.toNat = requests buckets slots := by
  have hlt : requests buckets slots < 2 ^ 64 :=
    (requests_le_of_sublist hslots).trans_lt hfit
  have hsum : (Summary.total (slots.map buckets)).totalRequests.toNat =
      requests buckets slots % 2 ^ 64 := by
    simp [Summary.total, toNat_sum, requests, Function.comp_def]
  rw [hsum, Nat.mod_eq_of_lt hlt]

theorem Ledger.totals_requests {ledger : Ledger α} (hfit : ledger.CountsFit)
    {slots : List (Fin processedCapacity)}
    (hslots : slots.Sublist (List.finRange processedCapacity)) :
    (ledger.totals slots).default.totalRequests.toNat =
        requests ledger.processedDefault slots ∧
      (ledger.totals slots).fallback.totalRequests.toNat =
        requests ledger.processedFallback slots :=
  ⟨Summary.total_requests hfit.default hslots, Summary.total_requests hfit.fallback hslots⟩

/-! ## The loop without interruption -/

namespace Query

omit [Double α] in
theorem index_succ {index : UInt64} (h : index.toNat < processedCapacity) :
    (index + 1).toNat = index.toNat + 1 := by
  have hcapacity : processedCapacity = 3000 := rfl
  simp only [UInt64.toNat_add, UInt64.reduceToNat]
  omega

theorem step_twice {ledger : Ledger α} {q : Query α} (hat : q.atFallback = false)
    (hle : q.index ≤ q.toSec) (hslot : q.index.toNat < processedCapacity) (fuel : Nat) :
    q.run ledger (fuel + 2) =
      run ledger fuel
        { q with
          index := q.index + 1
          result :=
            ⟨q.result.default.plus (ledger.processedDefault ⟨q.index.toNat, hslot⟩),
              q.result.fallback.plus
                (ledger.processedFallback ⟨q.index.toNat, hslot⟩)⟩ } := by
  simp [run, finished, step, readBucket, hat, hle, hslot]

theorem run_eq {ledger : Ledger α} {q : Query α} (hat : q.atFallback = false)
    (hto : q.toSec.toNat < processedCapacity) {fuel : Nat}
    (hfuel : 2 * (q.toSec.toNat + 1 - q.index.toNat) < fuel) :
    q.run ledger fuel =
      some
        ⟨((between q.index.toNat q.toSec.toNat).map ledger.processedDefault).foldl
            Summary.plus q.result.default,
          ((between q.index.toNat q.toSec.toNat).map ledger.processedFallback).foldl
            Summary.plus q.result.fallback⟩ := by
  generalize hcount : q.toSec.toNat + 1 - q.index.toNat = count at hfuel
  induction count generalizing q fuel with
  | zero =>
      have hlt : ¬ q.index ≤ q.toSec := by
        rw [UInt64.le_iff_toNat_le]
        omega
      obtain ⟨fuel, rfl⟩ := Nat.exists_eq_succ_of_ne_zero (by omega : fuel ≠ 0)
      rw [between_of_lt (by omega)]
      simp [run, finished, hat, hlt]
  | succ count ih =>
      have hle : q.index ≤ q.toSec := by
        rw [UInt64.le_iff_toNat_le]
        omega
      have hslot : q.index.toNat < processedCapacity := by omega
      have hnext := index_succ hslot
      obtain ⟨fuel, rfl⟩ := Nat.exists_eq_add_of_le' (by omega : 2 ≤ fuel)
      rw [step_twice hat hle hslot, between_cons (by omega) hslot]
      refine Eq.trans (ih ?_ ?_ ?_ ?_) ?_
      · exact hat
      · exact hto
      · simp only [hnext]
        omega
      · omega
      · simp [hnext]

theorem clampTo_toNat (toSec : UInt64) :
    (clampTo toSec).toNat = min toSec.toNat (processedCapacity - 1) := by
  have hcapacity : (UInt64.ofNat processedCapacity).toNat = 3000 := by decide
  have hlast : (UInt64.ofNat processedCapacity - 1).toNat = 2999 := by decide
  have hminus : processedCapacity - 1 = 2999 := rfl
  unfold clampTo
  dsimp only
  split_ifs with h
  · rw [ge_iff_le, UInt64.le_iff_toNat_le, hcapacity] at h
    omega
  · rw [ge_iff_le, UInt64.le_iff_toNat_le, hcapacity] at h
    omega

theorem clampFrom_toNat (fromSec : UInt64) :
    (clampFrom fromSec.toInt64).toNat =
      if fromSec.toNat < 2 ^ 63 then fromSec.toNat else 0 := by
  have hsign : fromSec.toInt64 < 0 ↔ ¬ fromSec.toNat < 2 ^ 63 := by
    have htoInt : fromSec.toInt64.toInt = Int.bmod fromSec.toNat (2 ^ 64) :=
      BitVec.toInt_eq_toNat_bmod _
    have hmax := fromSec.toNat_lt
    rw [Int64.lt_iff_toInt_lt, htoInt, Int64.toInt_zero]
    simp only [Int.bmod]
    omega
  unfold clampFrom
  by_cases hsmall : fromSec.toNat < 2 ^ 63
  · rw [if_neg (fun hneg => hsign.mp hneg hsmall), if_pos hsmall,
      UInt64.toUInt64_toInt64]
  · rw [if_pos (hsign.mpr hsmall), if_neg hsmall]
    rfl

theorem start_spec {processedStart : UInt64} {fromText toText : Bytes} {q : Query α}
    (h : start processedStart fromText toText = some q) :
    q.atFallback = false ∧ q.result = zero ∧ q.toSec.toNat < processedCapacity := by
  simp only [start] at h
  split_ifs at h
  cases h
  refine ⟨rfl, rfl, ?_⟩
  rw [clampTo_toNat]
  exact (min_le_right _ _).trans_lt (by decide)

end Query

theorem Query.step_eq_some {ledger : Ledger α} {q q' : Query α}
    (h : q.step ledger = some q') :
    ∃ hslot : q.index.toNat < processedCapacity,
      (q.atFallback = false ∧ q.index ≤ q.toSec ∧
        q' = { q with
          atFallback := true
          result := { q.result with
            default := q.result.default.plus
              (ledger.processedDefault ⟨q.index.toNat, hslot⟩) } }) ∨
      (q.atFallback = true ∧
        q' = { q with
          index := q.index + 1
          atFallback := false
          result := { q.result with
            fallback := q.result.fallback.plus
              (ledger.processedFallback ⟨q.index.toNat, hslot⟩) } }) := by
  unfold step readBucket at h
  by_cases hslot : q.index.toNat < processedCapacity
  · refine ⟨hslot, ?_⟩
    by_cases hat : q.atFallback = true
    · simp only [hat, hslot, if_true, dif_pos, Option.some.injEq] at h
      exact Or.inr ⟨hat, h.symm⟩
    · by_cases hle : q.index ≤ q.toSec
      · simp only [hat, hle, hslot, if_true, dif_pos, Bool.false_eq_true, if_false,
          Option.some.injEq] at h
        exact Or.inl ⟨by simpa using hat, hle, h.symm⟩
      · simp [hat, hle] at h
  · by_cases hat : q.atFallback = true <;> simp [hat, hslot] at h

theorem Ledger.query_eq (ledger : Ledger α) (fromText toText : Bytes) :
    ledger.query fromText toText =
      match Query.start (α := α) ledger.processedStart fromText toText with
      | none => some Query.zero
      | some q => some (ledger.totals (between q.index.toNat q.toSec.toNat)) := by
  unfold query
  split
  · rfl
  · rename_i q hstart
    obtain ⟨hat, hresult, hto⟩ := Query.start_spec hstart
    rw [Query.run_eq hat hto (by omega), hresult]
    simp only [Query.zero, foldl_plus_zero, totals]

theorem Ledger.query_isSome (ledger : Ledger α) (fromText toText : Bytes) :
    ∃ pair, ledger.query fromText toText = some pair := by
  rw [query_eq]
  split <;> exact ⟨_, rfl⟩

/-! ## The loop on arbitrary texts -/

namespace Query

/-- The next read of the loop, with the buckets as they are at that moment. -/
def read (q : Query α) (ledger : Ledger α) : Option (Query α) := q.step ledger

structure InBounds (q : Query α) : Prop where
  toSec_lt : q.toSec.toNat < processedCapacity
  atFallback_le : q.atFallback = true → q.index ≤ q.toSec

/-- The reads until the loop ends. -/
def remaining (q : Query α) : Nat :=
  2 * (q.toSec.toNat + 1 - q.index.toNat) - if q.atFallback then 1 else 0

theorem start_inBounds {processedStart : UInt64} {fromText toText : Bytes} {q : Query α}
    (h : start processedStart fromText toText = some q) : q.InBounds := by
  obtain ⟨hat, -, hto⟩ := start_spec h
  exact ⟨hto, fun htrue => absurd htrue (by simp [hat])⟩

theorem start_remaining {processedStart : UInt64} {fromText toText : Bytes} {q : Query α}
    (h : start processedStart fromText toText = some q) :
    q.remaining = 2 * (q.toSec.toNat + 1 - q.index.toNat) := by
  obtain ⟨hat, -, -⟩ := start_spec h
  simp [remaining, hat]

namespace InBounds

variable {ledger : Ledger α} {q q' : Query α}

omit [Double α] in
theorem index_lt (h : q.InBounds) (hrunning : q.finished = false) :
    q.index.toNat < processedCapacity := by
  have hle : q.index ≤ q.toSec := by
    cases hat : q.atFallback with
    | true => exact h.atFallback_le hat
    | false => simpa [finished, hat] using hrunning
  exact (UInt64.le_iff_toNat_le.mp hle).trans_lt h.toSec_lt

theorem enabled (h : q.InBounds) (hrunning : q.finished = false) (ledger : Ledger α) :
    ∃ q', q.step ledger = some q' := by
  have hslot := h.index_lt hrunning
  cases hat : q.atFallback with
  | true => exact ⟨_, by simp only [step, readBucket, hat, hslot, if_true, dif_pos]; rfl⟩
  | false =>
      have hle : q.index ≤ q.toSec := by simpa [finished, hat] using hrunning
      exact ⟨_, by
        simp only [step, readBucket, hat, hle, hslot, if_true, dif_pos,
          Bool.false_eq_true, if_false]
        rfl⟩

theorem step (h : q.InBounds) (hstep : q.step ledger = some q') : q'.InBounds := by
  obtain ⟨-, ⟨-, hle, rfl⟩ | ⟨-, rfl⟩⟩ := step_eq_some hstep
  · exact ⟨h.toSec_lt, fun _ => hle⟩
  · exact ⟨h.toSec_lt, fun htrue => absurd htrue (by simp)⟩

theorem remaining_step (h : q.InBounds) (hstep : q.step ledger = some q') :
    q'.remaining + 1 = q.remaining := by
  obtain ⟨hslot, ⟨hat, hle, rfl⟩ | ⟨hat, rfl⟩⟩ := step_eq_some hstep
  · rw [UInt64.le_iff_toNat_le] at hle
    simp only [remaining, hat, if_true, Bool.false_eq_true, if_false]
    omega
  · have hle := UInt64.le_iff_toNat_le.mp (h.atFallback_le hat)
    simp only [remaining, hat, if_true, Bool.false_eq_true, if_false, index_succ hslot]
    omega

omit [Double α] in
theorem finished_iff (h : q.InBounds) : q.finished = true ↔ q.remaining = 0 := by
  cases hat : q.atFallback with
  | true =>
      have hle := UInt64.le_iff_toNat_le.mp (h.atFallback_le hat)
      simp only [finished, remaining, hat, if_true, Bool.not_true, Bool.false_and,
        Bool.false_eq_true, false_iff]
      omega
  | false =>
      simp only [finished, remaining, hat, Bool.not_false, Bool.true_and, Bool.not_eq_true',
        decide_eq_false_iff_not, UInt64.le_iff_toNat_le, Bool.false_eq_true, if_false]
      omega

theorem execute_remaining (h : q.InBounds) {ledgers : List (Ledger α)}
    (hrun : execute read q ledgers = some q') :
    q'.InBounds ∧ q'.remaining + ledgers.length = q.remaining := by
  induction ledgers generalizing q with
  | nil =>
      simp only [execute_nil, Option.some.injEq] at hrun
      subst hrun
      exact ⟨h, rfl⟩
  | cons ledger ledgers ih =>
      obtain ⟨next, hstep, hrun⟩ := exists_step_of_execute hrun
      obtain ⟨hbounds, hcount⟩ := ih (h.step hstep) hrun
      have hone := h.remaining_step hstep
      refine ⟨hbounds, ?_⟩
      rw [List.length_cons]
      omega

theorem execute_isSome (h : q.InBounds) {ledgers : List (Ledger α)}
    (hlength : ledgers.length ≤ q.remaining) : ∃ q', execute read q ledgers = some q' := by
  induction ledgers generalizing q with
  | nil => exact ⟨q, rfl⟩
  | cons ledger ledgers ih =>
      have hrunning : q.finished = false := by
        by_contra hfinished
        have hzero := h.finished_iff.mp (by simpa using hfinished)
        simp [hzero] at hlength
      obtain ⟨next, hstep⟩ := h.enabled hrunning ledger
      have hread : q.read ledger = some next := hstep
      have hone := h.remaining_step hstep
      rw [List.length_cons] at hlength
      obtain ⟨q', hrun⟩ := ih (h.step hstep) (by omega)
      exact ⟨q', by rw [execute_cons_of_step hread, hrun]⟩

end InBounds

/--
Whatever the two texts are and whatever the buckets hold at each read, the loop
makes some number of iterations, at most one for every bucket, with two reads in
each; before it ends, the next read is in bounds.
-/
theorem loop_in_bounds_and_ends (ledger : Ledger α) (fromText toText : Bytes) :
    (∃ pair, ledger.query fromText toText = some pair) ∧
      ∀ q, start ledger.processedStart fromText toText = some q →
        ∃ iterations ≤ processedCapacity,
          (∀ ledgers : List (Ledger α), ledgers.length = 2 * iterations →
            ∃ q', execute read q ledgers = some q' ∧ q'.finished = true) ∧
          ∀ (ledgers : List (Ledger α)) (q' : Query α), ledgers.length < 2 * iterations →
            execute read q ledgers = some q' →
              q'.finished = false ∧ q'.index.toNat < processedCapacity := by
  refine ⟨ledger.query_isSome fromText toText, fun q hstart => ?_⟩
  have hbounds := start_inBounds hstart
  have hreads := start_remaining hstart
  have hto := hbounds.toSec_lt
  refine ⟨q.toSec.toNat + 1 - q.index.toNat, by omega, ?_, ?_⟩
  · intro ledgers hlength
    have hle : ledgers.length ≤ q.remaining := by omega
    obtain ⟨q', hrun⟩ := hbounds.execute_isSome hle
    obtain ⟨hbounds', hcount⟩ := hbounds.execute_remaining hrun
    exact ⟨q', hrun, hbounds'.finished_iff.mpr (by omega)⟩
  · intro ledgers q' hlength hrun
    obtain ⟨hbounds', hcount⟩ := hbounds.execute_remaining hrun
    have hrunning : q'.finished = false := by
      by_contra hfinished
      have hzero := hbounds'.finished_iff.mp (by simpa using hfinished)
      omega
    exact ⟨hrunning, hbounds'.index_lt hrunning⟩

theorem loop_ends_from_text_that_is_no_date :
    ∃ q : Query ℚ,
      start 1751328000 (ascii "yesterday") (ascii "9999-12-31T23:59:59.999Z") = some q ∧
        q.index = 0 ∧ q.toSec = 2999 ∧
        ∃ iterations ≤ processedCapacity,
          (∀ ledgers : List (Ledger ℚ), ledgers.length = 2 * iterations →
            ∃ q', execute read q ledgers = some q' ∧ q'.finished = true) ∧
          ∀ (ledgers : List (Ledger ℚ)) (q' : Query ℚ), ledgers.length < 2 * iterations →
            execute read q ledgers = some q' →
              q'.finished = false ∧ q'.index.toNat < processedCapacity :=
  ⟨_, rfl, by decide, by decide,
    (loop_in_bounds_and_ends (.initial 1751328000) (ascii "yesterday")
      (ascii "9999-12-31T23:59:59.999Z")).2 _ rfl⟩

end Query

end RinhaBackend
