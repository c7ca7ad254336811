import RinhaBackend.Invariants

/-!
# What a step does to one thread

A step moves one thread and may start another one.  The thread that moves keeps its
worker and stays in its pool, and where it stands next depends on where it stands.
-/

namespace RinhaBackend

open Foundation

variable {α : Type} [Double α]

/-- The moves of one thread, whatever the shared state. -/
inductive Pc.Advances (isFallbackPool : Bool) : Pc α → Pc α → Prop
  | accept (body : Bytes) (raw : RawPayment) (queueIdx : Nat) :
      Advances isFallbackPool (.posting body raw queueIdx) .exited
  | fetch (payment : Payment) : Advances isFallbackPool .polling (.fetched payment)
  | fetchDirect (payment : Payment) :
      Advances isFallbackPool .polling (.processing payment .entered [])
  | control {pc pc' : Pc α} (hcontrol : Service.Control pc pc') :
      Advances isFallbackPool pc pc'
  | spawn (payment : Payment) : Advances isFallbackPool (.spawning payment) .polling
  | call (payment : Payment) (call call' : CallPc α) (sent sent' : List (Attempt α)) :
      Advances isFallbackPool (.processing payment call sent)
        (.processing payment call' sent')
  | finish (payment : Payment) (draft : Draft) (result : ProcessorResult)
      (sent : List (Attempt α)) :
      Advances isFallbackPool (.processing payment (.returned draft result) sent)
        (if isFallbackPool then .closing else .polling)

omit [Double α] in
theorem Pc.Advances.ne_posting {isFallbackPool : Bool} {pc pc' : Pc α}
    (h : Pc.Advances isFallbackPool pc pc') (body : Bytes) (raw : RawPayment)
    (queueIdx : Nat) : pc' ≠ .posting body raw queueIdx := by
  cases h with
  | control hcontrol => cases hcontrol <;> simp
  | finish => split_ifs <;> simp
  | _ => simp

namespace Service

variable {config : Config α} {state next : Service α} {action : Action α}
variable {tid : Nat} {thread : Thread α}

omit [Double α] in
theorem ne_terminate_of_running (h : next.terminated = false) : next ≠ state.terminate := by
  rintro rfl
  simp [terminate] at h

theorem Move.other_thread (hmove : Move config state action next)
    (hruns : next ≠ state.terminate) (haction : ∀ event, action ≠ .run tid event)
    (hthread : state.threads[tid]? = some thread) :
    next.threads[tid]? = some thread := by
  have hlength := (List.getElem?_eq_some_iff.mp hthread).1
  have hset : ∀ {other : Nat} {event : Event α} {new : Thread α},
      action = .run other event → (state.threads.set other new)[tid]? = some thread := by
    intro other event new hother
    rw [List.getElem?_set_ne, hthread]
    rintro rfl
    exact haction event hother
  cases hmove with
  | post hraw => exact (List.getElem?_append_left hlength).trans hthread
  | idle => exact hthread
  | abort => exact absurd rfl hruns
  | spawn hmover hpc =>
      refine (List.getElem?_append_left ?_).trans (hset rfl)
      rw [List.length_set]
      exact hlength
  | accept | fetch | control | call | requeue | discard | store => exact hset rfl

/-- The thread that moved, and a thread that the step started. -/
theorem Move.thread_step (hmove : Move config state action next)
    (hruns : next ≠ state.terminate) (hthread : state.threads[tid]? = some thread) :
    ∃ new, next.threads[tid]? = some new ∧ new.workerId = thread.workerId ∧
      new.isFallbackPool = thread.isFallbackPool ∧
      (new.pc = thread.pc ∨ Pc.Advances thread.isFallbackPool thread.pc new.pc) := by
  by_cases haction : ∀ event, action ≠ .run tid event
  · exact ⟨thread, hmove.other_thread hruns haction hthread, rfl, rfl, Or.inl rfl⟩
  push Not at haction
  obtain ⟨event, rfl⟩ := haction
  have hset : ∀ {mover : Thread α} {cache : TimestampCache} {pc : Pc α},
      state.threads[tid]? = some mover →
      Pc.Advances mover.isFallbackPool mover.pc pc →
      ∃ new, (state.threads.set tid { mover with cache, pc })[tid]? = some new ∧
        new.workerId = thread.workerId ∧ new.isFallbackPool = thread.isFallbackPool ∧
        (new.pc = thread.pc ∨ Pc.Advances thread.isFallbackPool thread.pc new.pc) := by
    intro mover cache pc hmover hadvances
    obtain rfl := Option.some.inj (hmover.symm.trans hthread)
    exact ⟨_, getElem?_set_of_getElem? hmover _, rfl, rfl, Or.inr hadvances⟩
  cases hmove with
  | idle => exact ⟨thread, hthread, rfl, rfl, Or.inl rfl⟩
  | abort => exact absurd rfl hruns
  | accept hmover hpc hq => exact hset hmover (hpc ▸ .accept _ _ _)
  | fetch hmover hpc hq hfetch hnext =>
      rcases hnext with ⟨-, rfl⟩ | rfl
      · exact hset hmover (hpc ▸ .fetch _)
      · exact hset hmover (hpc ▸ .fetchDirect _)
  | control hmover hcontrol => exact hset hmover (.control hcontrol)
  | @spawn _ mover payment hmover hpc =>
      have hadvances : Pc.Advances mover.isFallbackPool mover.pc .polling :=
        hpc ▸ .spawn payment
      obtain ⟨new, hnew, hrest⟩ := hset hmover hadvances
      refine ⟨new, ?_, hrest⟩
      exact (List.getElem?_append_left (List.getElem?_eq_some_iff.mp hnew).1).trans hnew
  | call hmover hpc hcall => exact hset hmover (hpc ▸ .call _ _ _ _ _)
  | requeue hmover hpc hq => exact hset hmover (hpc ▸ .finish _ _ _ _)
  | discard hmover hpc => exact hset hmover (hpc ▸ .finish _ _ _ _)
  | store hmover hpc hprocessor hamount => exact hset hmover (hpc ▸ .finish _ _ _ _)

/-- Every thread of the next state moved, stayed, or was started by the step. -/
theorem Move.thread_cases (hmove : Move config state action next) {new : Thread α}
    (hnew : next.threads[tid]? = some new) :
    (∃ thread, state.threads[tid]? = some thread ∧ new.workerId = thread.workerId ∧
      new.isFallbackPool = thread.isFallbackPool ∧
      (new.pc = thread.pc ∨ Pc.Advances thread.isFallbackPool thread.pc new.pc)) ∨
    (tid = state.threads.length ∧
      ((∃ body raw queueIdx, action = .post body ∧
          new = ⟨queueIdx, false, .initial, .posting body raw queueIdx⟩) ∨
        ∃ (parent : Nat) (mover : Thread α) (payment : Payment),
          state.threads[parent]? = some mover ∧
          mover.pc = .spawning payment ∧
          new = ⟨mover.workerId, true, .initial, .processing payment .entered []⟩)) := by
  cases hthread : state.threads[tid]? with
  | some thread =>
      have hruns : next ≠ state.terminate := by
        rintro rfl
        simp at hnew
      obtain ⟨moved, hmoved, hrest⟩ := hmove.thread_step hruns hthread
      obtain rfl := Option.some.inj (hmoved.symm.trans hnew)
      exact Or.inl ⟨thread, rfl, hrest⟩
  | none =>
      right
      have hlength := List.getElem?_eq_none_iff.mp hthread
      have hset : ∀ {other : Nat} {mover : Thread α},
          (state.threads.set other mover)[tid]? = none := by
        intro other mover
        rw [List.getElem?_eq_none_iff, List.length_set]
        exact hlength
      have happend : ∀ {threads : List (Thread α)} {started : Thread α},
          threads.length = state.threads.length → (threads ++ [started])[tid]? = some new →
          tid = state.threads.length ∧ new = started := by
        intro threads started hsame hget
        rw [List.getElem?_append_right (hsame ▸ hlength), List.getElem?_singleton] at hget
        split_ifs at hget with hzero
        cases hget
        exact ⟨by omega, rfl⟩
      cases hmove with
      | post hraw =>
          obtain ⟨htid, rfl⟩ := happend rfl hnew
          exact ⟨htid, Or.inl ⟨_, _, _, rfl, rfl⟩⟩
      | spawn hmover hpc =>
          obtain ⟨htid, rfl⟩ := happend List.length_set hnew
          exact ⟨htid, Or.inr ⟨_, _, _, hmover, hpc, rfl⟩⟩
      | idle => simp [hthread] at hnew
      | abort => simp at hnew
      | accept | fetch | control | call | requeue | discard | store =>
          simp only [setPc, setThread, setQueue, logReturn, hset] at hnew
          simp at hnew

end Service

end RinhaBackend
