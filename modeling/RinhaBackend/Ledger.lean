import Mathlib.Data.UInt
import RinhaBackend.Failover
import RinhaBackend.Payment

/-!
# The processed store

One summary per processor and second, in two vectors of fixed length indexed by
the seconds since `processed_start`.  `store_processed` does not check its index:
a second past the end is written outside the vectors, which has no defined result.
-/

namespace RinhaBackend

open Foundation

structure Summary (α : Type) where
  totalRequests : UInt64
  totalAmount : α
  deriving DecidableEq

structure SummaryPair (α : Type) where
  default : Summary α
  fallback : Summary α
  deriving DecidableEq

def processedCapacity : Nat := 3000

structure Ledger (α : Type) where
  processedDefault : Fin processedCapacity → Summary α
  processedFallback : Fin processedCapacity → Summary α
  processedStart : UInt64

variable {α : Type} [Double α]

namespace Summary

def zero : Summary α := ⟨0, Double.zero⟩

def add (amount : α) (summary : Summary α) : Summary α :=
  ⟨summary.totalRequests + 1, Double.add summary.totalAmount amount⟩

def total (summaries : List (Summary α)) : Summary α :=
  ⟨(summaries.map totalRequests).sum, Double.sum (summaries.map totalAmount)⟩

def ofAmounts (amounts : List α) : Summary α :=
  ⟨UInt64.ofNat amounts.length, Double.sum amounts⟩

theorem ofAmounts_append_singleton (amounts : List α) (amount : α) :
    ofAmounts (amounts ++ [amount]) = (ofAmounts amounts).add amount := by
  simp [ofAmounts, add, UInt64.ofNat_add]

end Summary

namespace Ledger

def initial (processedStart : UInt64) : Ledger α :=
  ⟨fun _ => .zero, fun _ => .zero, processedStart⟩

/-- The buckets that `store_processed` adds a processor's payments to. -/
def side (config : Config α) (processor : ProcessorResult) : ProcessorResult :=
  if config.fallbackEnabled then
    if processor = .fallback then .fallback else .default
  else .default

def bucket (ledger : Ledger α) (processor : ProcessorResult) :
    Fin processedCapacity → Summary α :=
  if processor = .fallback then ledger.processedFallback else ledger.processedDefault

def addAt (side : ProcessorResult) (slot : Fin processedCapacity) (amount : α)
    (ledger : Ledger α) : Ledger α :=
  let s := (ledger.bucket side slot).add amount
  if side = .fallback then
    { ledger with processedFallback := Function.update ledger.processedFallback slot s }
  else { ledger with processedDefault := Function.update ledger.processedDefault slot s }

/-- `none` past the end of the vectors, where the write has no defined result. -/
def add (side : ProcessorResult) (index : Nat) (amount : α) (ledger : Ledger α) :
    Option (Ledger α) :=
  if h : index < processedCapacity then some (ledger.addAt side ⟨index, h⟩ amount) else none

def storeIndex (ledger : Ledger α) (timestamp : UInt64) : Nat :=
  (timestamp - ledger.processedStart).toNat

/-- A call of `store_processed`: it throws where `stod` does. -/
inductive StoreOutcome (α : Type) where
  | stored (amount : α) (ledger : Ledger α)
  | thrown
  | undefined

def storeProcessed (config : Config α) (json : Bytes) (processor : ProcessorResult)
    (timestamp : UInt64) (ledger : Ledger α) : StoreOutcome α :=
  match extractAmount json with
  | none => .thrown
  | some amount =>
      match ledger.add (side config processor) (ledger.storeIndex timestamp) amount with
      | none => .undefined
      | some ledger => .stored amount ledger

/-! ## Buckets after a store -/

omit [Double α] in
theorem bucket_fallback (ledger : Ledger α) :
    ledger.bucket .fallback = ledger.processedFallback := rfl

omit [Double α] in
theorem bucket_of_ne {processor : ProcessorResult} (h : processor ≠ .fallback)
    (ledger : Ledger α) : ledger.bucket processor = ledger.processedDefault := by
  simp [bucket, h]

omit [Double α] in
theorem side_eq (config : Config α) (processor : ProcessorResult) :
    side config processor = .default ∨ side config processor = .fallback := by
  unfold side
  split_ifs
  · exact Or.inr rfl
  · exact Or.inl rfl
  · exact Or.inl rfl

theorem add_eq_some {ledger ledger' : Ledger α} {side : ProcessorResult} {index : Nat}
    {amount : α} (h : ledger.add side index amount = some ledger') :
    ∃ hindex : index < processedCapacity, ledger' = ledger.addAt side ⟨index, hindex⟩ amount := by
  unfold add at h
  split_ifs at h with hindex
  exact ⟨hindex, (Option.some.inj h).symm⟩

theorem add_of_lt {index : Nat} (h : index < processedCapacity) (ledger : Ledger α)
    (side : ProcessorResult) (amount : α) :
    ledger.add side index amount = some (ledger.addAt side ⟨index, h⟩ amount) :=
  dif_pos h

theorem add_eq_none {index : Nat} (h : processedCapacity ≤ index) (ledger : Ledger α)
    (side : ProcessorResult) (amount : α) : ledger.add side index amount = none :=
  dif_neg h.not_gt

theorem storeProcessed_eq_stored {config : Config α} {json : Bytes}
    {processor : ProcessorResult} {timestamp : UInt64} {ledger ledger' : Ledger α}
    {amount : α}
    (h : ledger.storeProcessed config json processor timestamp = .stored amount ledger') :
    extractAmount json = some amount ∧
      ledger.add (side config processor) (ledger.storeIndex timestamp) amount =
        some ledger' := by
  unfold storeProcessed at h
  cases hamount : (extractAmount json : Option α) with
  | none => simp [hamount] at h
  | some found =>
      cases hadd : ledger.add (side config processor) (ledger.storeIndex timestamp)
          found with
      | none => simp [hamount, hadd] at h
      | some stored =>
          simp only [hamount, hadd, StoreOutcome.stored.injEq] at h
          obtain ⟨rfl, rfl⟩ := h
          exact ⟨rfl, hadd⟩

theorem storeProcessed_eq_thrown {config : Config α} {json : Bytes}
    {processor : ProcessorResult} {timestamp : UInt64} {ledger : Ledger α}
    (h : ledger.storeProcessed config json processor timestamp = .thrown) :
    (extractAmount json : Option α) = none := by
  unfold storeProcessed at h
  cases hamount : (extractAmount json : Option α) with
  | none => rfl
  | some amount =>
      simp only [hamount] at h
      split at h <;> simp at h

@[simp] theorem addAt_processedStart (ledger : Ledger α) (side : ProcessorResult)
    (slot : Fin processedCapacity) (amount : α) :
    (ledger.addAt side slot amount).processedStart = ledger.processedStart := by
  unfold addAt
  dsimp only
  split_ifs <;> rfl

theorem bucket_addAt {ledger : Ledger α} {side processor : ProcessorResult}
    (hside : side = .default ∨ side = .fallback)
    (hprocessor : processor = .default ∨ processor = .fallback)
    (place slot : Fin processedCapacity) (amount : α) :
    (ledger.addAt side place amount).bucket processor slot =
      if side = processor ∧ place = slot then (ledger.bucket processor slot).add amount
      else ledger.bucket processor slot := by
  unfold addAt
  by_cases hslot : place = slot
  · subst hslot
    rcases hside with rfl | rfl <;> rcases hprocessor with rfl | rfl <;> simp [bucket]
  · have hne : slot ≠ place := fun h => hslot h.symm
    rcases hside with rfl | rfl <;> rcases hprocessor with rfl | rfl <;>
      simp [bucket, hslot, Function.update_of_ne hne]

end Ledger

end RinhaBackend
