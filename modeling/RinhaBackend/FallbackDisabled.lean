import Mathlib.Algebra.BigOperators.Fin
import RinhaBackend.Agreement

/-!
# The service without fallback

`FALLBACK_ENABLED=0` is tested in six functions.  Together the tests keep every
request, label and bucket on Default: the failover machine never leaves its
initial state and no fallback-pool thread is ever started.  Every ok reply is
counted in the buckets of Default as long as the clock stays inside the store and
`stod` accepts the amounts.
-/

namespace RinhaBackend

open Foundation

variable {α : Type} [Double α]

/-! ## Calls -/

theorem callStep_disabled {config : Config α} {json : Bytes} {cache : TimestampCache}
    {failover : Failover α} {pc : CallPc α} {event : Event α} {outcome : CallOutcome α}
    (hdisabled : config.fallbackEnabled = false) (hdirect : pc.Direct)
    (h : callStep config false json cache failover pc event = some outcome) :
    outcome.failover = failover ∧
      ∀ attempt ∈ outcome.sent, attempt.processor = .default := by
  cases callStep_move h with
  | build | label | pair | probe => exact ⟨rfl, by simp⟩
  | send draft primary secondary reply =>
      refine ⟨rfl, fun attempt hattempt => ?_⟩
      rw [List.mem_singleton.mp hattempt]
      exact hdirect
  | handle draft primary secondary reply =>
      exact ⟨by simp [Failover.handleResponse, hdisabled], by simp⟩
  | sendSecondary | handleSecondary => exact hdirect.elim

namespace Service

variable {config : Config α} {processedStart : UInt64} {state next : Service α}
variable {action : Action α}

/-! ## Everything stays on Default -/

structure OnDefault (config : Config α) (state : Service α) : Prop where
  direct : state.Direct
  failover : state.failover = .initial config
  running : state.fallbackIsRunning = false
  attempts : ∀ entry ∈ state.history.attempts, entry.2.processor = .default

theorem initial_onDefault (config : Config α) (processedStart : UInt64) :
    (initial config processedStart).OnDefault config where
  direct := initial_direct config processedStart
  failover := rfl
  running := rfl
  attempts := by simp [initial]

theorem step_onDefault (hdisabled : config.fallbackEnabled = false)
    (h : state.OnDefault config) (hstep : step config state action = some next) :
    next.OnDefault config := by
  have hmove := step_move hstep
  have hdirect := hmove.direct hdisabled h.direct
  cases hmove with
  | control hthread hcontrol =>
      obtain ⟨pc, hpaces, hnext⟩ := step_paces hthread hcontrol hstep
      have hsource := (h.direct.threads _ (List.mem_of_getElem? hthread)).pc
      refine ⟨hdirect, h.failover, ?_, h.attempts⟩
      generalize Thread.pc _ = source at hpaces hsource
      cases hpaces with
      | mark => exact hsource.elim
      | close => rfl
      | _ => exact h.running
  | call hthread hpc hcall =>
      have hthreadDirect := h.direct.threads _ (List.mem_of_getElem? hthread)
      have hcallDirect := hthreadDirect.pc
      rw [hpc] at hcallDirect
      rw [hthreadDirect.pool] at hcall
      obtain ⟨hfailover, hsent⟩ := callStep_disabled hdisabled hcallDirect hcall
      refine ⟨hdirect, hfailover.trans h.failover, h.running, ?_⟩
      intro entry hentry
      rcases List.mem_append.mp hentry with hold | hnew
      · exact h.attempts entry hold
      · obtain ⟨attempt, hattempt, rfl⟩ := List.mem_map.mp hnew
        exact hsent attempt hattempt
  | _ => exact ⟨hdirect, h.failover, h.running, h.attempts⟩

theorem OnDefault.processedFallback (h : state.Regular config processedStart)
    (hdisabled : config.fallbackEnabled = false) (slot : Fin processedCapacity) :
    state.ledger.processedFallback slot = .zero := by
  have hbucket := h.buckets .fallback (Or.inr rfl) slot
  have hentries : entriesAt config processedStart state.history.stored .fallback slot =
      [] := by
    simp [entriesAt, Ledger.side, hdisabled]
  rw [Ledger.bucket_fallback, hentries] at hbucket
  exact hbucket

/-! ## Counting -/

omit [Double α] in
private theorem sum_filter_length {items : List (StoreEntry α)}
    {index : StoreEntry α → Nat} (h : ∀ item ∈ items, index item < processedCapacity) :
    ∑ slot : Fin processedCapacity, (items.filter fun item => index item = slot.val).length =
      items.length := by
  induction items with
  | nil => simp
  | cons item items ih =>
      have hitem := h item (by simp)
      have hrest := ih fun other hother => h other (by simp [hother])
      have hone : ∑ slot : Fin processedCapacity,
          (if index item = slot.val then 1 else 0) = 1 := by
        rw [Finset.sum_eq_single ⟨index item, hitem⟩]
        · simp
        · intro slot _ hne
          exact if_neg fun heq => hne (Fin.ext heq.symm)
        · simp
      have hsplit : ∀ slot : Fin processedCapacity,
          ((item :: items).filter fun item => index item = slot.val).length =
            (items.filter fun item => index item = slot.val).length +
              if index item = slot.val then 1 else 0 := by
        intro slot
        by_cases heq : index item = slot.val <;> simp [heq]
      simp only [hsplit, Finset.sum_add_distrib, hrest, hone, List.length_cons]

structure Counting (config : Config α) (processedStart : UInt64) (state : Service α) :
    Prop where
  regular : state.Regular config processedStart
  stamped : state.Stamped processedStart
  onDefault : state.OnDefault config
  replies : state.terminated = false →
    state.answered = state.storedReplies + pendingReplies state.threads

/-- The requests counted in all buckets of Default together. -/
def defaultRequests (state : Service α) : UInt64 :=
  ((List.finRange processedCapacity).map fun slot =>
    (state.ledger.processedDefault slot).totalRequests).sum

private theorem sum_ofNat {Item : Type} (count : Item → Nat) (items : List Item) :
    (items.map fun item => UInt64.ofNat (count item)).sum =
      UInt64.ofNat (items.map count).sum := by
  induction items with
  | nil => rfl
  | cons item items ih => simp [ih, UInt64.ofNat_add]

theorem Counting.defaultRequests_eq (hdisabled : config.fallbackEnabled = false)
    (h : state.Counting config processedStart) :
    state.defaultRequests = UInt64.ofNat state.history.stored.length := by
  have hindex : ∀ entry ∈ state.history.stored,
      (entry.draft.ts - processedStart).toNat < processedCapacity :=
    fun entry hentry => (h.stamped.stored entry hentry).index_lt
  rw [← sum_filter_length hindex, defaultRequests, Fin.sum_univ_def, ← sum_ofNat]
  refine congrArg List.sum (List.map_congr_left fun slot _ => ?_)
  have hbucket := h.regular.buckets .default (Or.inl rfl) slot
  rw [Ledger.bucket_of_ne (by decide)] at hbucket
  rw [hbucket]
  simp [Summary.ofAmounts, entriesAt, Ledger.side, hdisabled]

theorem step_counting (hdisabled : config.fallbackEnabled = false)
    (h : state.Counting config processedStart)
    (hclock : ClockWithin processedStart action)
    (hstep : step config state action = some next) :
    next.Counting config processedStart where
  regular := step_regular h.regular hstep
  stamped := step_stamped h.stamped hclock hstep
  onDefault := step_onDefault hdisabled h.onDefault hstep
  replies hrunning := (step_move hstep).replies hrunning h.regular.pcs
    (h.replies (running_of_step hstep))

theorem initial_counting (config : Config α) (processedStart : UInt64) :
    (initial config processedStart).Counting config processedStart where
  regular := initial_regular config processedStart
  stamped := initial_stamped config processedStart
  onDefault := initial_onDefault config processedStart
  replies := (initial_faithful config processedStart).replies

/-! ## A reply on its way to its bucket -/

omit [Double α] in
private theorem ok_of_mem_pending {reply : Reply α} {primary processor : ProcessorResult}
    {pending payload : Bytes}
    (h : (processor, payload) ∈ if reply.ok then [(primary, pending)] else []) :
    reply.ok = true ∧ pending = payload := by
  split_ifs at h with hok
  · simp only [List.mem_singleton, Prod.mk.injEq] at h
    exact ⟨hok, h.2.symm⟩
  · simp at h

section Pending

variable (config)
variable {tid : Nat} {thread : Thread α} {payment : Payment} {draft : Draft}
variable {secondary : ProcessorResult} {reply : Reply α} {sent : List (Attempt α)}
variable (hrunning : state.terminated = false)
variable (hthread : state.threads[tid]? = some thread)

include hrunning hthread

private theorem store_returned
    (hpc : thread.pc = .processing payment (.returned draft .default) sent)
    (hconverts : (extractAmount draft.payload : Option α).isSome = true)
    (hindex : state.ledger.storeIndex draft.ts < processedCapacity) :
    ∃ final, step config state (.run tid .tau) = some final ∧
      final.history.stored.length = state.history.stored.length + 1 := by
  obtain ⟨amount, hamount⟩ := Option.isSome_iff_exists.mp hconverts
  simp [step, runThread, finish, Ledger.storeProcessed, Ledger.add_of_lt hindex, hrunning,
    hthread, hpc, hamount]

private theorem execute_handling
    (hpc : thread.pc = .processing payment (.handling draft .default secondary reply) sent)
    (hok : reply.ok = true)
    (hconverts : (extractAmount draft.payload : Option α).isSome = true)
    (hindex : state.ledger.storeIndex draft.ts < processedCapacity) :
    ∃ final, execute (step config) state [.run tid .tau, .run tid .tau] = some final ∧
      final.history.stored.length = state.history.stored.length + 1 := by
  have hstep : ∃ next, step config state (.run tid .tau) = some next ∧
      next.terminated = false ∧
      next.threads[tid]? = some { thread with
        pc := .processing payment (.returned draft .default) sent } ∧
      next.history.stored = state.history.stored ∧ next.ledger = state.ledger := by
    simp [step, runThread, callStep, afterPrimary, setThread, hrunning, hthread, hpc, hok,
      getElem?_set_of_getElem? hthread]
  obtain ⟨next, hnext, hrunning', hthread', hstored, hledger⟩ := hstep
  obtain ⟨final, hfinal, hgrown⟩ := store_returned config hrunning' hthread'
    rfl hconverts (hledger ▸ hindex)
  refine ⟨final, ?_, hstored ▸ hgrown⟩
  rw [execute_cons_of_step hnext, execute_cons_of_step hfinal, execute_nil]

private theorem execute_answered (hpool : thread.isFallbackPool = false)
    (hpc : thread.pc = .processing payment (.answered draft .default secondary reply) sent)
    (hok : reply.ok = true)
    (hconverts : (extractAmount draft.payload : Option α).isSome = true)
    (hindex : state.ledger.storeIndex draft.ts < processedCapacity) :
    ∃ final, execute (step config) state
        [.run tid .tau, .run tid .tau, .run tid .tau] = some final ∧
      final.history.stored.length = state.history.stored.length + 1 := by
  have hstep : ∃ next, step config state (.run tid .tau) = some next ∧
      next.terminated = false ∧
      next.threads[tid]? = some { thread with
        pc := .processing payment (.handling draft .default secondary reply) sent } ∧
      next.history.stored = state.history.stored ∧ next.ledger = state.ledger := by
    simp [step, runThread, callStep, setThread, hrunning, hthread, hpc, hpool,
      getElem?_set_of_getElem? hthread]
  obtain ⟨next, hnext, hrunning', hthread', hstored, hledger⟩ := hstep
  obtain ⟨final, hfinal, hgrown⟩ := execute_handling config hrunning' hthread'
    rfl hok hconverts (hledger ▸ hindex)
  refine ⟨final, ?_, hstored ▸ hgrown⟩
  rw [execute_cons_of_step hnext, hfinal]

/-- A pending reply is stored by the next steps of its own thread. -/
theorem execute_pending (hdirect : state.Direct) {payload : Bytes}
    (hindex : thread.pc.Drafted fun _ draft =>
      state.ledger.storeIndex draft.ts < processedCapacity)
    (hpending : (ProcessorResult.default, payload) ∈ thread.pc.pendingOk)
    (hconverts : (extractAmount payload : Option α).isSome = true) :
    ∃ count ≤ 3, ∃ final,
      execute (step config) state (List.replicate count (.run tid .tau)) = some final ∧
      final.history.stored.length = state.history.stored.length + 1 := by
  have hthreadDirect := hdirect.threads _ (List.mem_of_getElem? hthread)
  cases hpc : thread.pc with
  | processing payment call sent =>
      rw [hpc] at hpending hindex
      have hcall := hthreadDirect.pc
      rw [hpc] at hcall
      cases call with
      | answered draft primary secondary reply =>
          obtain rfl : primary = .default := hcall
          obtain ⟨hok, rfl⟩ := ok_of_mem_pending hpending
          exact ⟨3, le_rfl, execute_answered config hrunning hthread hthreadDirect.pool hpc hok
            hconverts (hindex draft rfl)⟩
      | handling draft primary secondary reply =>
          obtain rfl : primary = .default := hcall
          obtain ⟨hok, rfl⟩ := ok_of_mem_pending hpending
          exact ⟨2, by decide, execute_handling config hrunning hthread hpc hok hconverts
            (hindex draft rfl)⟩
      | handlingSecondary draft secondary code reply => exact hcall.elim
      | returned draft result =>
          cases result with
          | default =>
              simp only [Pc.pendingOk, CallPc.pendingOk, List.mem_singleton,
                Prod.mk.injEq, true_and] at hpending
              subst hpending
              obtain ⟨final, hfinal, hgrown⟩ :=
                store_returned config hrunning hthread hpc hconverts (hindex draft rfl)
              refine ⟨1, by decide, final, ?_, hgrown⟩
              rw [List.replicate_one, execute_cons_of_step hfinal, execute_nil]
          | fallback => exact absurd rfl hcall
          | discard | tryAgain => simp [Pc.pendingOk, CallPc.pendingOk] at hpending
      | entered | built | labelled | ready | retrying =>
          simp [Pc.pendingOk, CallPc.pendingOk] at hpending
  | _ =>
      rw [hpc] at hpending
      simp [Pc.pendingOk] at hpending

end Pending

/-! ## The account of Default -/

def Countable (processedStart : UInt64) (state : Service α) (action : Action α) : Prop :=
  ClockWithin processedStart action ∧ state.AmountConverts action

instance (processedStart : UInt64) (state : Service α) (action : Action α) :
    Decidable (Countable processedStart state action) :=
  inferInstanceAs (Decidable (_ ∧ _))

theorem execute_onDefault {actions : List (Action α)}
    (hdisabled : config.fallbackEnabled = false)
    (hrun : execute (step config) (initial config processedStart) actions = some state) :
    state.OnDefault config :=
  execute_invariant (fun _ _ _ h _ hstep => step_onDefault hdisabled h hstep)
    (initial_onDefault config processedStart) (along_true _ _) hrun

theorem execute_counting {start : Service α} {actions : List (Action α)}
    (hdisabled : config.fallbackEnabled = false)
    (h : start.Counting config processedStart)
    (hclock : Along (step config) (fun _ action => ClockWithin processedStart action)
      start actions)
    (hrun : execute (step config) start actions = some state) :
    state.Counting config processedStart :=
  execute_invariant (fun _ _ _ h hwithin hstep => step_counting hdisabled h hwithin hstep)
    h hclock hrun

theorem Counting.pending_counted (hdisabled : config.fallbackEnabled = false)
    (h : state.Counting config processedStart) (hrunning : state.terminated = false)
    {tid : Nat} {thread : Thread α} (hthread : state.threads[tid]? = some thread)
    {payload : Bytes}
    (hpending : (ProcessorResult.default, payload) ∈ thread.pc.pendingOk)
    (hconverts : (extractAmount payload : Option α).isSome = true) :
    ∃ count ≤ 3, ∃ final,
      execute (step config) state (List.replicate count (.run tid .tau)) = some final ∧
      final.defaultRequests = state.defaultRequests + 1 := by
  have hindex : thread.pc.Drafted fun _ draft =>
      state.ledger.storeIndex draft.ts < processedCapacity := by
    refine Pc.Drafted.mono (h.stamped.drafts thread (List.mem_of_getElem? hthread))
      fun _ draft hdraft => ?_
    rw [Ledger.storeIndex, h.regular.start_eq]
    exact hdraft.index_lt
  obtain ⟨count, hcount, final, hfinal, hgrown⟩ :=
    execute_pending config hrunning hthread h.onDefault.direct hindex hpending hconverts
  have hclock : ∀ action ∈ List.replicate count (Action.run tid (.tau : Event α)),
      ClockWithin processedStart action := by
    intro action haction
    rw [List.eq_of_mem_replicate haction]
    trivial
  have hcounting := execute_counting hdisabled h (along_of_forall hclock state) hfinal
  refine ⟨count, hcount, final, hfinal, ?_⟩
  rw [hcounting.defaultRequests_eq hdisabled, h.defaultRequests_eq hdisabled, hgrown,
    UInt64.ofNat_add]
  rfl

/--
With the fallback disabled, every run keeps every request, label, thread and bucket
off Fallback.  When every step of the run is countable, the ok replies of Default are
those counted in its buckets and those a thread still holds, and such a thread needs
at most three more steps of its own to count the one it holds.
-/
theorem fallback_never_used {actions : List (Action α)}
    (hdisabled : config.fallbackEnabled = false)
    (hrun : execute (step config) (initial config processedStart) actions = some state) :
    ((∀ entry ∈ state.history.attempts, entry.2.processor = .default) ∧
      (∀ thread ∈ state.threads, thread.isFallbackPool = false) ∧
      state.failover.primaryLabel = .default ∧ state.failover = .initial config ∧
      state.fallbackIsRunning = false ∧
      ∀ slot, state.ledger.processedFallback slot = .zero) ∧
    (Along (step config) (Countable processedStart) (initial config processedStart) actions →
      state.terminated = false ∧
      state.answered = state.storedReplies + pendingReplies state.threads ∧
      state.defaultRequests = UInt64.ofNat state.storedReplies.card ∧
      ∀ tid thread payload, state.threads[tid]? = some thread →
        (.default, payload) ∈ thread.pc.pendingOk →
        (extractAmount payload : Option α).isSome = true →
        ∃ count ≤ 3, ∃ final,
          execute (step config) state (List.replicate count (.run tid .tau)) = some final ∧
          final.defaultRequests = state.defaultRequests + 1) := by
  have honDefault := execute_onDefault hdisabled hrun
  constructor
  · refine ⟨honDefault.attempts, fun thread hthread => ?_, ?_, honDefault.failover,
      honDefault.running, fun slot => ?_⟩
    · exact (honDefault.direct.threads thread hthread).pool
    · rw [honDefault.failover]
      rfl
    · exact OnDefault.processedFallback (execute_regular hrun) hdisabled slot
  · intro hcountable
    have hcounting := execute_counting hdisabled (initial_counting config processedStart)
      (along_mono (fun _ _ h => h.1) hcountable) hrun
    have hrunning := execute_running (along_mono (fun _ _ h => h.2) hcountable) hrun
    refine ⟨hrunning, hcounting.replies hrunning, ?_, ?_⟩
    · rw [hcounting.defaultRequests_eq hdisabled]
      simp [storedReplies]
    · intro tid thread payload hthread hpending hconverts
      exact hcounting.pending_counted hdisabled hrunning hthread hpending hconverts

theorem fallback_never_used_settled :
    let state := (settled 1751328010).get settled_in_time
    state.answered.card = 1 ∧ state.defaultRequests = 1 ∧
      state.defaultRequests = UInt64.ofNat state.storedReplies.card := by
  have hcard : ((settled 1751328010).get settled_in_time).answered.card = 1 := by
    decide +kernel
  exact ⟨hcard, by decide +kernel,
    ((fallback_never_used rfl (Option.some_get settled_in_time).symm).2
      (by decide +kernel)).2.2.1⟩

/--
Two ok replies of Default that are counted in no bucket: the amount 1e400 ends the
process, and fifty minutes after the start the bucket is past the end of the vector, so
that no behaviour of the worker is defined.
-/
theorem ok_reply_not_counted :
    (singleWorker Float).fallbackEnabled = false ∧
    (let state := settledHuge.get settledHuge_isSome
     state.answered.card = 1 ∧ state.terminated = true ∧ state.defaultRequests = 0) ∧
    (let state := (returned 1751331000).get returned_late
     state.answered.card = 1 ∧ state.defaultRequests = 0 ∧
      ∀ event, step (singleWorker Float) state (.run 0 event) = none) := by
  refine ⟨rfl, ⟨by decide +kernel, by decide +kernel, by decide +kernel⟩,
    by decide +kernel, by decide +kernel, ?_⟩
  obtain ⟨thread, payment, draft, sent, hthread, hpc, hindex, hconverts⟩ := late_store
  obtain ⟨amount, hamount⟩ := Option.isSome_iff_exists.mp hconverts
  exact step_eq_none_of_late hthread hpc (Or.inl rfl) hamount hindex.ge

end Service

end RinhaBackend
