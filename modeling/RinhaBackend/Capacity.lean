import RinhaBackend.Conservation
import RinhaBackend.SummaryWindow

/-!
# The end of the processed store

The writer of the store uses the seconds since the start as an index and never
checks it, while the reader clamps its window to the last bucket.  The two agree
for as long as the clock stays below `processed_start + PROCESSED_CAPACITY` and the
window starts no earlier than 1970: an earlier bound is read as a huge number.
-/

namespace RinhaBackend

open Foundation

variable {α : Type} [Double α]

namespace Service

variable {config : Config α} {processedStart : UInt64} {state : Service α}

theorem StampedWithin.exists_slot {draft : Draft} (h : StampedWithin processedStart draft) :
    ∃ slot : Fin processedCapacity, (draft.ts - processedStart).toNat = slot.val ∧
      draft.ts = UInt64.ofNat (processedStart.toNat + slot.val) := by
  obtain ⟨now, hts, hstart, hend⟩ := h
  refine ⟨⟨now - processedStart.toNat, by omega⟩, ?_, ?_⟩
  · rw [hts, storeIndex_ofNat hstart hend]
  · rw [hts, Nat.add_sub_cancel' hstart]

theorem mem_window (ledger : Ledger α) {slot : Fin processedCapacity}
    {fromInstant toInstant : Instant}
    (hfrom : fromInstant.ms < 1000 * (ledger.processedStart.toNat + slot.val))
    (hto : 1000 * (ledger.processedStart.toNat + slot.val) < toInstant.ms) :
    ∃ slots : List (Fin processedCapacity), slots.Nodup ∧ slot ∈ slots ∧
      ledger.query fromInstant.text toInstant.text = some (ledger.totals slots) := by
  refine ⟨_, between_nodup _ _, ?_, ledger.query_instants (by omega) (by omega)⟩
  rw [mem_between]
  omega

/--
In every run whose clock readings stay below `processed_start` plus the capacity,
each store that is next and each payment stored so far has an index inside the
buckets.  The bucket of a stored payment is the summary of a list of stored payments
that it belongs to, and a query whose window has bounds not before 1970 and strictly
contains its second adds that bucket, once, to its answer.
-/
theorem stores_indexed_and_reported {actions : List (Action α)}
    (hrun : execute (step config) (initial config processedStart) actions = some state)
    (hclock : Along (step config) (fun _ action => ClockWithin processedStart action)
      (initial config processedStart) actions) :
    state.StoresWithin ∧ ∀ entry ∈ state.history.stored, ∃ slot : Fin processedCapacity,
      state.ledger.storeIndex entry.draft.ts = slot.val ∧
      entry.draft.ts = UInt64.ofNat (processedStart.toNat + slot.val) ∧
      (let processor := Ledger.side config entry.processor
        let entries := entriesAt config processedStart state.history.stored processor slot
        entry ∈ entries ∧ state.ledger.bucket processor slot =
          .ofAmounts (entries.map StoreEntry.amount)) ∧
      ∀ fromInstant toInstant : Instant,
        fromInstant.ms < 1000 * (processedStart.toNat + slot.val) →
        1000 * (processedStart.toNat + slot.val) < toInstant.ms →
        ∃ slots : List (Fin processedCapacity), slots.Nodup ∧ slot ∈ slots ∧
          state.ledger.query fromInstant.text toInstant.text =
            some (state.ledger.totals slots) := by
  have hregular := execute_regular hrun
  have hstamped := execute_stamped hrun hclock
  refine ⟨hstamped.storesWithin hregular.start_eq, fun entry hentry => ?_⟩
  obtain ⟨slot, hindex, hts⟩ := (hstamped.stored entry hentry).exists_slot
  refine ⟨slot, ?_, hts, ⟨?_, hregular.buckets _ (Ledger.side_eq _ _) slot⟩, ?_⟩
  · rw [Ledger.storeIndex, hregular.start_eq, hindex]
  · simp [entriesAt, hentry, hindex]
  · intro fromInstant toInstant hfrom hto
    rw [← hregular.start_eq] at hfrom hto
    exact mem_window state.ledger hfrom hto

theorem stores_indexed_and_reported_settled :
    let state := (settled 1751328010).get settled_in_time
    ∃ entry ∈ state.history.stored, ∃ slot : Fin processedCapacity,
      slot.val = 10 ∧ state.ledger.storeIndex entry.draft.ts = slot.val ∧
      (state.ledger.bucket .default slot).totalRequests = 1 ∧
      ∃ slots : List (Fin processedCapacity), slots.Nodup ∧ slot ∈ slots ∧
        state.ledger.query Ledger.beforeSecond.text Ledger.nextSecond.text =
          some (state.ledger.totals slots) := by
  intro state
  obtain ⟨entry, hentry, hten⟩ : ∃ entry ∈ state.history.stored,
      state.ledger.storeIndex entry.draft.ts = 10 := by decide +kernel
  obtain ⟨slot, hindex, -, -, hreported⟩ := (stores_indexed_and_reported
    (Option.some_get settled_in_time).symm (by decide +kernel)).2 entry hentry
  obtain rfl : slot = ⟨10, by decide⟩ := Fin.ext (hindex.symm.trans hten)
  exact ⟨entry, hentry, _, rfl, hindex, by decide +kernel,
    hreported Ledger.beforeSecond Ledger.nextSecond (by decide) (by decide)⟩

/--
A payment answered fifty minutes after the start has an index past the last bucket, and
a window that starts before 1970 reports none of the payments it contains.
-/
theorem late_store_out_of_bounds :
    (let state := (returned 1751331000).get returned_late
     ∃ thread payment draft sent, state.threads[0]? = some thread ∧
      thread.pc = .processing payment (.returned draft .default) sent ∧
      state.ledger.storeIndex draft.ts = processedCapacity) ∧
    (let state := (settled 1751328010).get settled_in_time
     (state.ledger.bucket .default ⟨10, by decide⟩).totalRequests = 1 ∧
      state.ledger.query (ascii "1969-12-31T23:59:59.500Z")
        (ascii "2025-07-01T00:01:00.000Z") = some Query.zero) := by
  obtain ⟨thread, payment, draft, sent, hthread, hpc, hindex, -⟩ := late_store
  refine ⟨⟨thread, payment, draft, sent, hthread, hpc, hindex⟩, by decide +kernel, ?_⟩
  have hreversed : parseTimestampMs (ascii "2025-07-01T00:01:00.000Z") <
      parseTimestampMs (ascii "1969-12-31T23:59:59.500Z") := by decide +kernel
  simp only [Ledger.query, Query.start, if_pos hreversed]

end Service

end RinhaBackend
