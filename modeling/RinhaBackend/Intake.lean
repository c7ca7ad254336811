import Mathlib.Data.List.Nodup
import RinhaBackend.Invariants

/-!
# Bodies on their way to a processor

A body is copied into a slot of fixed size, queued, fetched, possibly queued
again, and rebuilt as a string.  The handler answers 202 to every body, of any
length; this module determines the lengths for which the body survives.
-/

namespace RinhaBackend

open Foundation

variable {α : Type} [Double α]

namespace Service

theorem Regular.serial_inj {config : Config α} {processedStart : UInt64}
    {state : Service α} (h : state.Regular config processedStart)
    {first second : Payment × Bytes} (hfirst : first ∈ state.history.accepted)
    (hsecond : second ∈ state.history.accepted)
    (hserial : first.1.serial = second.1.serial) : first = second := by
  have hnodup : (state.history.accepted.map fun entry => entry.1.serial).Nodup := by
    rw [h.serials]
    exact List.nodup_range'
  exact List.inj_on_of_nodup_map hnodup hfirst hsecond hserial

theorem Regular.json_eq {config : Config α} {processedStart : UInt64}
    {state : Service α} (h : state.Regular config processedStart) {payment held : Payment}
    {body : Bytes} (haccepted : (payment, body) ∈ state.history.accepted)
    {thread : Thread α} (hthread : thread ∈ state.threads)
    (hheld : thread.pc.payment = some held) (hserial : held.serial = payment.serial) :
    held.raw.json = body := by
  obtain ⟨body', hbody⟩ := h.held thread hthread held hheld
  cases h.serial_inj hbody haccepted hserial
  exact RawPayment.json_ofBody (h.bodies _ haccepted)

end Service

/--
A body answered 202 is copied inside `data`, and in every run the string rebuilt
for it by any thread, at the first attempt or after any number of retries, is
the body itself and is not empty.
-/
def ReachesProcessorIntact (α : Type) [Double α] (body : Bytes) : Prop :=
  (postPaymentHandler body).status = 202 →
    (postPaymentHandler body).payment.isSome = true ∧
    ∀ (config : Config α) (processedStart : UInt64) (actions : List (Action α))
      (state : Service α) (payment : Payment),
      execute (Service.step config) (Service.initial config processedStart) actions =
        some state →
      (payment, body) ∈ state.history.accepted →
      ∀ thread ∈ state.threads, ∀ held call sent,
        thread.pc = .processing held call sent → held.serial = payment.serial →
        held.raw.json ≠ [] ∧ held.raw.json = body

def singleWorker (α : Type) [Double α] : Config α where
  workerCount := 1
  defaultProcessor := ascii "http://default/payments"
  fallbackProcessor := ascii "http://fallback/payments"
  feeDifference := Double.zero
  fallbackIntervalMs := 1000
  fallbackEnabled := false

def postAndFetch (α : Type) (body : Bytes) : List (Action α) :=
  [.post body, .run 1 .tau, .run 0 (.wall 0), .run 0 .tau]

theorem processing_after_postAndFetch {body : Bytes} {raw : RawPayment}
    (hraw : RawPayment.ofBody body = some raw) :
    ∃ state, execute (Service.step (singleWorker α))
        (Service.initial (singleWorker α) 0) (postAndFetch α body) = some state ∧
      ((⟨1, raw⟩ : Payment), body) ∈ state.history.accepted ∧
      ∃ thread ∈ state.threads, thread.pc = .processing ⟨1, raw⟩ .entered [] := by
  simp [execute, postAndFetch, Service.step, Service.initial, singleWorker, hraw,
    Service.runThread, Service.accept, Service.fetch, Service.setPc, Service.setThread,
    Service.setQueue, WorkerQueue.initial, WorkerQueue.enqueue, WorkerQueue.fetchNext]

/-- A body reaches the processor intact exactly when it has 1 to 70 bytes. -/
theorem body_intact_iff (body : Bytes) :
    ReachesProcessorIntact α body ↔ 1 ≤ body.length ∧ body.length ≤ 70 := by
  constructor
  · intro h
    obtain ⟨hcopied, hruns⟩ := h rfl
    refine ⟨?_, (RawPayment.ofBody_isSome body).mp hcopied⟩
    obtain ⟨raw, hraw⟩ := Option.isSome_iff_exists.mp hcopied
    obtain ⟨state, hrun, haccepted, thread, hthread, hpc⟩ :=
      processing_after_postAndFetch (α := α) hraw
    obtain ⟨hne, hjson⟩ := hruns _ _ _ _ _ hrun haccepted thread hthread _ _ _ hpc rfl
    rw [hjson] at hne
    exact List.length_pos_of_ne_nil hne
  · rintro ⟨hpos, hle⟩ -
    refine ⟨(RawPayment.ofBody_isSome body).mpr hle, ?_⟩
    intro config processedStart actions state payment hrun haccepted thread hthread held
      call sent hpc hserial
    have hjson := (Service.execute_regular hrun).json_eq haccepted hthread
      (by rw [hpc]; rfl) hserial
    rw [hjson]
    exact ⟨List.ne_nil_of_length_pos hpos, rfl⟩

def longBody : Bytes :=
  ascii "\x7b\"correlationId\":\"4a7901b8-7d26-4d9d-aa19-4dc1c7cf60b3\",\"amount\":1234.56\x7d"

theorem long_body_not_intact :
    longBody.length = 73 ∧ (postPaymentHandler longBody).status = 202 ∧
      ¬ ReachesProcessorIntact Float longBody :=
  ⟨by decide, rfl, fun h => absurd (h rfl).1 (by decide)⟩

end RinhaBackend
