import RinhaBackend.Conservation

/-!
# Replies and stores

Between an ok reply and the store of its payment a call handles the response and
returns.  Every attempt answered ok is either stored or pending in one thread,
with the processor that answered it and the payload it was sent, however often
other threads swap the labels meanwhile.
-/

namespace RinhaBackend

open Foundation

variable {α : Type} [Double α]

/-! ## Pending replies -/

/-- The processor and the payload of an ok reply that is not stored yet. -/
def CallPc.pendingOk : CallPc α → List (ProcessorResult × Bytes)
  | .answered draft primary _ reply | .handling draft primary _ reply =>
      if reply.ok then [(primary, draft.payload)] else []
  | .handlingSecondary draft secondary _ reply =>
      if reply.ok then [(secondary, draft.payload)] else []
  | .returned draft .default => [(.default, draft.payload)]
  | .returned draft .fallback => [(.fallback, draft.payload)]
  | _ => []

def Pc.pendingOk : Pc α → List (ProcessorResult × Bytes)
  | .processing _ call _ => call.pendingOk
  | _ => []

def okReplies (attempts : List (Attempt α)) : List (ProcessorResult × Bytes) :=
  (attempts.filter fun attempt => attempt.reply.ok).map fun attempt =>
    (attempt.processor, attempt.payload)

omit [Double α] in
theorem okReplies_append (first second : List (Attempt α)) :
    okReplies (first ++ second) = okReplies first ++ okReplies second := by
  simp [okReplies]

omit [Double α] in
private theorem okReplies_singleton (processor : ProcessorResult) (payload : Bytes)
    (reply : Reply α) :
    okReplies [⟨processor, payload, reply⟩] =
      if reply.ok then [(processor, payload)] else [] := by
  by_cases hok : reply.ok = true <;> simp [okReplies, hok]

omit [Double α] in
private theorem returned_pendingOk {processor : ProcessorResult}
    (h : processor.IsProcessor) (draft : Draft) :
    (CallPc.returned draft processor : CallPc α).pendingOk =
      [(processor, draft.payload)] := by
  rcases h with rfl | rfl <;> rfl

omit [Double α] in
private theorem afterPrimary_pendingOk {config : Config α} {draft : Draft}
    {primary secondary : ProcessorResult} (h : primary.IsProcessor) (reply : Reply α) :
    (afterPrimary config draft primary secondary reply).pendingOk =
      if reply.ok then [(primary, draft.payload)] else [] := by
  unfold afterPrimary
  split_ifs
  · exact returned_pendingOk h draft
  all_goals rfl

omit [Double α] in
private theorem afterSecondary_pendingOk {draft : Draft} {secondary : ProcessorResult}
    (h : secondary.IsProcessor) (code : Int) (reply : Reply α) :
    (afterSecondary draft secondary code reply).pendingOk =
      if reply.ok then [(secondary, draft.payload)] else [] := by
  unfold afterSecondary
  split_ifs
  · exact returned_pendingOk h draft
  all_goals rfl

theorem callStep_pendingOk {config : Config α} {isFallbackPool : Bool} {json : Bytes}
    {cache : TimestampCache} {failover : Failover α} {pc : CallPc α} {event : Event α}
    {outcome : CallOutcome α} {sent : List (Attempt α)} (htrace : pc.Trace sent)
    (h : callStep config isFallbackPool json cache failover pc event = some outcome) :
    outcome.pc.pendingOk = pc.pendingOk ++ okReplies outcome.sent := by
  cases callStep_move h with
  | build => rfl
  | send | sendSecondary => exact (okReplies_singleton _ _ _).symm
  | handle draft primary secondary reply =>
      rw [afterPrimary_pendingOk htrace.2.1]
      exact (List.append_nil _).symm
  | handleSecondary draft secondary code reply =>
      rw [afterSecondary_pendingOk htrace.2.2]
      exact (List.append_nil _).symm
  | label | pair | probe => exact (List.append_nil _).symm

namespace Service

def answered (state : Service α) : Multiset (ProcessorResult × Bytes) :=
  okReplies (state.history.attempts.map Prod.snd)

def storedReplies (state : Service α) : Multiset (ProcessorResult × Bytes) :=
  state.history.stored.map fun entry => (entry.processor, entry.draft.payload)

def pendingReplies (threads : List (Thread α)) : Multiset (ProcessorResult × Bytes) :=
  (threads.map fun thread =>
    (thread.pc.pendingOk : Multiset (ProcessorResult × Bytes))).sum

/-- The process runs, and no payment is between its ok reply and its store. -/
def Quiet (state : Service α) : Prop :=
  state.terminated = false ∧ ∀ thread ∈ state.threads, thread.pc.pendingOk = []

instance (state : Service α) : Decidable state.Quiet :=
  inferInstanceAs (Decidable (_ ∧ ∀ thread ∈ state.threads, _))

section Replies

omit [Double α]

variable {threads : List (Thread α)} {tid : Nat} {thread new : Thread α}

theorem pendingReplies_append (h : new.pc.pendingOk = []) :
    pendingReplies (threads ++ [new]) = pendingReplies threads := by
  simp [pendingReplies, h]

theorem pendingReplies_set_grow {replies : List (ProcessorResult × Bytes)}
    (hthread : threads[tid]? = some thread)
    (h : new.pc.pendingOk = thread.pc.pendingOk ++ replies) :
    pendingReplies (threads.set tid new) = pendingReplies threads + replies := by
  have hset := sum_map_set (fun thread : Thread α =>
    (thread.pc.pendingOk : Multiset (ProcessorResult × Bytes))) hthread new
  rw [h, ← Multiset.coe_add, ← add_assoc, add_right_comm] at hset
  exact add_right_cancel hset

theorem pendingReplies_set_same (hthread : threads[tid]? = some thread)
    (h : new.pc.pendingOk = thread.pc.pendingOk) :
    pendingReplies (threads.set tid new) = pendingReplies threads := by
  have hgrow : new.pc.pendingOk = thread.pc.pendingOk ++ [] := by simp [h]
  simpa using pendingReplies_set_grow hthread hgrow

theorem pendingReplies_set_release {replies : List (ProcessorResult × Bytes)}
    (hthread : threads[tid]? = some thread) (hold : thread.pc.pendingOk = replies)
    (hnew : new.pc.pendingOk = []) :
    pendingReplies threads = replies + pendingReplies (threads.set tid new) := by
  have hset := sum_map_set (fun thread : Thread α =>
    (thread.pc.pendingOk : Multiset (ProcessorResult × Bytes))) hthread new
  rw [hold, hnew, Multiset.coe_nil, add_zero, add_comm] at hset
  exact hset.symm

theorem pendingReplies_of_quiet {state : Service α} (h : state.Quiet) :
    pendingReplies state.threads = 0 := by
  refine List.sum_eq_zero fun replies hreplies => ?_
  obtain ⟨thread, hthread, rfl⟩ := List.mem_map.mp hreplies
  rw [h.2 thread hthread]
  rfl

theorem afterProcess_pendingOk (thread : Thread α) :
    (afterProcess thread).pendingOk = [] := by
  unfold afterProcess
  split_ifs <;> rfl

theorem Control.pendingOk {pc pc' : Pc α} (h : Control pc pc') :
    pc'.pendingOk = pc.pendingOk := by
  cases h <;> rfl

end Replies

variable {config : Config α} {processedStart : UInt64} {state next : Service α}
variable {action : Action α}

/-- Every attempt answered ok is stored or about to be stored, and nothing else is. -/
theorem Move.replies (hmove : Move config state action next)
    (hrunning : next.terminated = false)
    (hpcs : ∀ thread ∈ state.threads, PcValid thread.pc)
    (h : state.answered = state.storedReplies + pendingReplies state.threads) :
    next.answered = next.storedReplies + pendingReplies next.threads := by
  cases hmove with
  | post hraw =>
      change state.answered = state.storedReplies + pendingReplies (state.threads ++ [_])
      rw [pendingReplies_append rfl, h]
  | accept hthread hpc hq =>
      change state.answered = state.storedReplies + pendingReplies (state.threads.set _ _)
      rw [pendingReplies_set_same hthread (by rw [hpc]; rfl), h]
  | fetch hthread hpc hq hfetch hnext =>
      change state.answered = state.storedReplies + pendingReplies (state.threads.set _ _)
      rw [pendingReplies_set_same hthread, h]
      rw [hpc]
      rcases hnext with ⟨-, rfl⟩ | rfl <;> rfl
  | control hthread hcontrol =>
      change state.answered = state.storedReplies + pendingReplies (state.threads.set _ _)
      rw [pendingReplies_set_same hthread hcontrol.pendingOk, h]
  | spawn hthread hpc =>
      change state.answered = state.storedReplies +
        pendingReplies (state.threads.set _ _ ++ [_])
      rw [pendingReplies_append rfl, pendingReplies_set_same hthread (by rw [hpc]; rfl), h]
  | @call tid thread event payment call sent outcome hthread hpc hcall =>
      have htrace := trace_of_thread hpcs hthread hpc
      change ((okReplies ((state.history.attempts ++ _).map Prod.snd) : List _) :
        Multiset _) = state.storedReplies + pendingReplies (state.threads.set _ _)
      rw [pendingReplies_set_grow hthread
          (by rw [hpc]; exact callStep_pendingOk htrace hcall),
        List.map_append, okReplies_append, ← Multiset.coe_add, ← add_assoc, ← h,
        List.map_map]
      simp [answered, Function.comp_def]
  | requeue hthread hpc hq =>
      change state.answered = state.storedReplies + pendingReplies (state.threads.set _ _)
      rw [pendingReplies_set_same hthread, h]
      rw [hpc]
      exact afterProcess_pendingOk _
  | discard hthread hpc =>
      change state.answered = state.storedReplies + pendingReplies (state.threads.set _ _)
      rw [pendingReplies_set_same hthread, h]
      rw [hpc]
      exact afterProcess_pendingOk _
  | @store tid thread payment draft sent processor amount hthread hpc hprocessor hamount =>
      have hpending : thread.pc.pendingOk = [(processor, draft.payload)] := by
        rw [hpc]
        exact returned_pendingOk hprocessor draft
      have hreleased : pendingReplies state.threads =
          ([(processor, draft.payload)] : Multiset (ProcessorResult × Bytes)) +
            pendingReplies (state.threads.set tid { thread with pc := afterProcess thread }) :=
        pendingReplies_set_release hthread hpending (afterProcess_pendingOk thread)
      change state.answered =
        ↑((state.history.stored ++ [(⟨payment, processor, draft, amount⟩ : StoreEntry α)]).map
          fun entry => (entry.processor, entry.draft.payload)) +
        pendingReplies (state.threads.set _ _)
      rw [List.map_append, ← Multiset.coe_add, h, add_assoc, hreleased]
      rfl
  | idle => exact h
  | abort => simp [terminate] at hrunning

end Service

end RinhaBackend
