import RinhaBackend.Foundation.Lockstep
import RinhaBackend.SummaryWire
import RinhaBackend.TwoInstances

/-!
# Two instances over the wire

The cluster with its replies as they travel: the thread of `call_other_instance` reads
the text that the other handler has printed.  It goes through the same runs as the
cluster whose replies arrive unchanged, and its summaries differ from those only in
what the text does to the summary of the other instance.
-/

namespace RinhaBackend

open Foundation RapidJson

variable {α : Type} [Ieee α] (grisu2 : α → Decimal)

namespace Cluster

def wireReceive (state : Cluster α) (index : Nat) (handler : Handler α) :
    Option (Cluster α) :=
  match handler.other with
  | .waiting server =>
      match state.handlers[server]?.map Handler.pc with
      | some (.replied result) =>
          (readResponse true 200 (result.reply grisu2).body).map fun other =>
            state.setHandler index { handler with other := .ready other }
      | _ => none
  | _ => none

def wireStep (deployment : Deployment α) (state : Cluster α) (action : ClusterAction) :
    Option (Cluster α) :=
  match action with
  | .receive index =>
      match state.handlers[index]? with
      | none => none
      | some handler => state.wireReceive grisu2 index handler
  | action => state.step deployment action

end Cluster

/-! ## Handlers side by side -/

/-- A handler over the wire, and the same handler with the other's summary unchanged. -/
inductive Handler.Reads : Handler α → Handler α → Prop
  | same {handler : Handler α}
      (hother : ∀ result, handler.other = .ready result → result = Query.zero) :
      Reads handler handler
  | ready {node : Node} {request : SummaryRequest} {pc : HandlerPc α}
      {result : SummaryPair α} (hpc : ∀ reply, pc ≠ .replied reply) :
      Reads ⟨node, request, pc, .ready (result.received grisu2)⟩
        ⟨node, request, pc, .ready result⟩
  | replied {node : Node} {request : SummaryRequest} {own result : SummaryPair α} :
      Reads ⟨node, request, .replied (own.plus (result.received grisu2)),
          .ready (result.received grisu2)⟩
        ⟨node, request, .replied (own.plus result), .ready result⟩

variable {grisu2}

omit [Ieee α] in
theorem Handler.launch_ne_ready (deployment : Deployment α) (handler : Handler α)
    (result : SummaryPair α) : handler.launch deployment ≠ .ready result := by
  unfold Handler.launch
  dsimp only
  split <;> simp

theorem Handler.Reads.run {wire plain : Handler α} (h : wire.Reads grisu2 plain)
    (deployment : Deployment α) (ledger : Ledger α) :
    Option.Rel (Handler.Reads grisu2) (paymentsSummaryHandler deployment ledger wire)
      (paymentsSummaryHandler deployment ledger plain) := by
  cases h with
  | same hother =>
      cases hrun : paymentsSummaryHandler deployment ledger wire with
      | none => exact .none
      | some handler =>
          refine .some (.same fun result hready => ?_)
          cases paymentsSummaryHandler_move hrun with
          | begin hpc => exact absurd hready (wire.launch_ne_ready deployment result)
          | read | finish | alone | join => exact hother result hready
  | @ready node request pc result hpc =>
      cases pc with
      | received =>
          refine .some (.same fun result hready => ?_)
          exact absurd hready (Handler.launch_ne_ready deployment _ result)
      | querying q =>
          simp only [paymentsSummaryHandler]
          split_ifs
          · exact .some (.ready (by simp))
          · cases q.step ledger with
            | none => exact .none
            | some q => exact .some (.ready (by simp))
      | joining own => exact .some .replied
      | replied reply => exact absurd rfl (hpc reply)
  | replied => exact .none

/-! ## Who waits for whom -/

/--
The handler waits for an internal request, has replied only with its future settled,
and starts no call if its request is internal itself.
-/
structure Handler.Sound (requests : List SummaryRequest) (handler : Handler α) : Prop where
  served : ∀ server, handler.other = .waiting server →
    ∃ request, requests[server]? = some request ∧ request.internal = ascii "true"
  settled : ∀ reply, handler.pc = .replied reply →
    handler.other = .absent ∨ ∃ result, handler.other = .ready result
  alone : handler.request.internal = ascii "true" → handler.other = .absent

section Sound

omit [Ieee α]

variable {requests : List SummaryRequest} {handler : Handler α}

theorem Handler.Sound.append (h : handler.Sound requests) (more : List SummaryRequest) :
    handler.Sound (requests ++ more) := by
  refine ⟨fun server hother => ?_, h.settled, h.alone⟩
  obtain ⟨request, hrequest, hinternal⟩ := h.served server hother
  refine ⟨request, ?_, hinternal⟩
  rw [List.getElem?_append_left (List.getElem?_eq_some_iff.mp hrequest).1, hrequest]

/-- A call that has not ended belongs to an external request that has no reply yet. -/
theorem Handler.Sound.calling (h : handler.Sound requests)
    (hother : (∃ node, handler.other = .pending node) ∨
      ∃ server, handler.other = .waiting server) :
    handler.request.internal ≠ ascii "true" ∧ ∀ reply, handler.pc ≠ .replied reply := by
  refine ⟨fun hinternal => ?_, fun reply hpc => ?_⟩
  · have habsent := h.alone hinternal
    rcases hother with ⟨node, hother⟩ | ⟨server, hother⟩ <;> simp [habsent] at hother
  · rcases h.settled reply hpc with habsent | ⟨result, hready⟩
    · rcases hother with ⟨node, hother⟩ | ⟨server, hother⟩ <;> simp [habsent] at hother
    · rcases hother with ⟨node, hother⟩ | ⟨server, hother⟩ <;> simp [hready] at hother

theorem Handler.Sound.setReady (h : handler.Sound requests)
    (hother : (∃ node, handler.other = .pending node) ∨
      ∃ server, handler.other = .waiting server) (result : SummaryPair α) :
    ({ handler with other := .ready result } : Handler α).Sound requests :=
  ⟨fun server hwaiting => by simp at hwaiting, fun _ _ => .inr ⟨result, rfl⟩,
    fun hinternal => absurd hinternal (h.calling hother).1⟩

end Sound

theorem HandlerMove.sound {deployment : Deployment α} {ledger : Ledger α}
    {handler handler' : Handler α} (hmove : HandlerMove deployment ledger handler handler')
    {requests : List SummaryRequest} (h : handler.Sound requests) :
    handler'.request = handler.request ∧ handler'.Sound requests := by
  cases hmove with
  | begin hpc =>
      refine ⟨rfl, fun server hother => ?_, fun reply hreplied => ?_, fun hinternal => ?_⟩
      · exact absurd hother (by
          simp only [Handler.launch]
          split <;> simp)
      · exact absurd hreplied (by
          simp only [Handler.openQuery]
          split <;> simp)
      · simp only [Handler.launch]
        rw [if_neg (by simpa using hinternal)]
  | read hpc hread => exact ⟨rfl, h.served, fun reply hreplied => by simp at hreplied, h.alone⟩
  | finish hpc hfinished =>
      exact ⟨rfl, h.served, fun reply hreplied => by simp at hreplied, h.alone⟩
  | alone hpc hother => exact ⟨rfl, h.served, fun _ _ => .inl hother, h.alone⟩
  | join hpc hother => exact ⟨rfl, h.served, fun _ _ => .inr ⟨_, hother⟩, h.alone⟩

namespace Cluster

def requests (state : Cluster α) : List SummaryRequest := state.handlers.map Handler.request

def Sound (state : Cluster α) : Prop := ∀ handler ∈ state.handlers, handler.Sound state.requests

section

variable {state next : Cluster α} {index : Nat} {handler handler' : Handler α}

omit [Ieee α] in
theorem Sound.setHandler (h : state.Sound) (hindex : state.handlers[index]? = some handler)
    (hrequest : handler'.request = handler.request) (hsound : handler'.Sound state.requests) :
    (state.setHandler index handler').Sound := by
  have hrequests : (state.setHandler index handler').requests = state.requests :=
    map_set_of_eq Handler.request hindex hrequest
  unfold Sound
  rw [hrequests]
  exact all_set hsound h

theorem Move.sound {deployment : Deployment α} {action : ClusterAction}
    (hmove : Move deployment state action next) (h : state.Sound) : next.Sound := by
  cases hmove with
  | store hledger => exact h
  | run hindex hrun =>
      obtain ⟨hrequest, hsound⟩ :=
        (paymentsSummaryHandler_move hrun).sound (h _ (List.mem_of_getElem? hindex))
      exact h.setHandler hindex hrequest hsound
  | @send index handler node hindex hother =>
      have hhandler := h _ (List.mem_of_getElem? hindex)
      have hexternal := hhandler.calling (.inl ⟨node, hother⟩)
      have hrequests : (state.handlers.set index
          { handler with other := .waiting state.handlers.length }).map Handler.request =
            state.requests := map_set_of_eq Handler.request hindex rfl
      unfold Sound requests
      rw [List.map_append, hrequests]
      refine all_append_singleton ?_ (all_set ?_ fun handler hmem => (h handler hmem).append _)
      · exact ⟨fun _ hwaiting => by simp at hwaiting, fun _ hreplied => by simp at hreplied,
          fun _ => rfl⟩
      · refine ⟨fun server hwaiting => ?_, fun reply hreplied => ?_, fun hinternal => ?_⟩
        · obtain rfl : state.handlers.length = server := by simpa using hwaiting
          refine ⟨callOtherInstance handler.request, ?_, rfl⟩
          simp [requests]
        · exact absurd hreplied (hexternal.2 reply)
        · exact absurd hinternal hexternal.1
  | receive hindex hother hserving hreply =>
      exact h.setHandler hindex rfl
        ((h _ (List.mem_of_getElem? hindex)).setReady (.inr ⟨_, hother⟩) _)
  | fail hindex hother =>
      exact h.setHandler hindex rfl ((h _ (List.mem_of_getElem? hindex)).setReady hother _)

theorem wireReceive_eq_some (h : state.wireReceive grisu2 index handler = some next) :
    ∃ server serving result, handler.other = .waiting server ∧
      state.handlers[server]? = some serving ∧ serving.pc = .replied result ∧
      next = state.setHandler index { handler with other := .ready (result.received grisu2) } := by
  unfold wireReceive at h
  split at h
  · rename_i server hother
    split at h
    · rename_i result hreply
      obtain ⟨serving, hserving, hpc⟩ := Option.map_eq_some_iff.mp hreply
      rw [SummaryPair.readResponse_reply] at h
      exact ⟨server, serving, result, hother, hserving, hpc, (Option.some.inj h).symm⟩
    · simp at h
  · simp at h

/-- A step over the wire is a step of the cluster, except for what is received. -/
theorem wireStep_move {deployment : Deployment α} {action : ClusterAction}
    (hstep : state.wireStep grisu2 deployment action = some next) :
    Move deployment state action next ∨
      ∃ index server handler serving result, action = .receive index ∧
        state.handlers[index]? = some handler ∧ handler.other = .waiting server ∧
        state.handlers[server]? = some serving ∧ serving.pc = .replied result ∧
        next = state.setHandler index
          { handler with other := .ready (result.received grisu2) } := by
  cases action with
  | store | run | send | fail => exact .inl (step_move hstep)
  | receive index =>
      simp only [wireStep] at hstep
      split at hstep
      · simp at hstep
      · rename_i handler hindex
        obtain ⟨server, serving, result, hother, hserving, hpc, hnext⟩ :=
          wireReceive_eq_some hstep
        exact .inr ⟨index, server, handler, serving, result, rfl, hindex, hother, hserving, hpc,
          hnext⟩

theorem wireStep_sound {deployment : Deployment α} {action : ClusterAction} (h : state.Sound)
    (hstep : state.wireStep grisu2 deployment action = some next) : next.Sound := by
  rcases wireStep_move hstep with
    hmove | ⟨index, server, handler, serving, result, -, hindex, hother, -, -, rfl⟩
  · exact hmove.sound h
  · exact h.setHandler hindex rfl
      ((h _ (List.mem_of_getElem? hindex)).setReady (.inr ⟨server, hother⟩) _)

end

/-! ## Clusters side by side -/

variable (grisu2) in
/-- A cluster over the wire, and the same cluster with the replies unchanged. -/
structure Reads (wire plain : Cluster α) : Prop where
  ledger : wire.ledger = plain.ledger
  handlers : List.Forall₂ (Handler.Reads grisu2) wire.handlers plain.handlers

section

variable {wire plain : Cluster α} {index : Nat}

theorem Reads.setHandler (h : wire.Reads grisu2 plain) {handler handler' : Handler α}
    (hhandler : handler.Reads grisu2 handler') :
    (wire.setHandler index handler).Reads grisu2 (plain.setHandler index handler') :=
  ⟨h.ledger, forall₂_set h.handlers hhandler index⟩

/-- The reply to an internal request is the same on both sides. -/
theorem Reads.serving (h : wire.Reads grisu2 plain) (hsound : wire.Sound)
    {handler : Handler α} (hhandler : handler ∈ wire.handlers) {server : Nat}
    (hother : handler.other = .waiting server) :
    wire.handlers[server]? = plain.handlers[server]? := by
  obtain ⟨request, hrequest, hinternal⟩ := (hsound handler hhandler).served server hother
  rw [requests, List.getElem?_map, Option.map_eq_some_iff] at hrequest
  obtain ⟨serving, hserving, rfl⟩ := hrequest
  obtain ⟨serving', hserving', hreads⟩ := forall₂_getElem? h.handlers hserving
  have habsent := (hsound serving (List.mem_of_getElem? hserving)).alone hinternal
  rw [hserving, hserving']
  cases hreads with
  | same => rfl
  | ready | replied => simp at habsent

theorem Reads.receive (h : wire.Reads grisu2 plain) (hsound : wire.Sound)
    {handler handler' : Handler α} (hindex : wire.handlers[index]? = some handler)
    (hhandler : handler.Reads grisu2 handler') :
    Option.Rel (Reads grisu2) (wire.wireReceive grisu2 index handler)
      (plain.receive index handler') := by
  have hmem := List.mem_of_getElem? hindex
  unfold wireReceive Cluster.receive
  cases hhandler with
  | ready | replied => exact .none
  | same hready =>
      cases hother : handler.other with
      | absent | pending | ready => exact .none
      | waiting server =>
          dsimp only
          rw [h.serving hsound hmem hother]
          cases hserving : plain.handlers[server]? with
          | none => exact .none
          | some serving =>
              rw [Option.map_some]
              cases serving.pc with
              | received | querying | joining => exact .none
              | replied result =>
                  dsimp only
                  rw [SummaryPair.readResponse_reply]
                  refine .some (h.setHandler (.ready ?_))
                  exact ((hsound handler hmem).calling (.inr ⟨server, hother⟩)).2

theorem Reads.send (h : wire.Reads grisu2 plain) {handler : Handler α} (node : Node) :
    Reads grisu2
      { wire with
        handlers := wire.handlers.set index
            { handler with other := .waiting wire.handlers.length } ++
          [⟨node, callOtherInstance handler.request, .received, .absent⟩] }
      { plain with
        handlers := plain.handlers.set index
            { handler with other := .waiting plain.handlers.length } ++
          [⟨node, callOtherInstance handler.request, .received, .absent⟩] } := by
  refine ⟨h.ledger, forall₂_append_singleton ?_ (.same (by simp))⟩
  rw [h.handlers.length_eq]
  exact forall₂_set h.handlers (.same (by simp)) index

theorem Reads.step (h : wire.Reads grisu2 plain) (hsound : wire.Sound)
    (deployment : Deployment α) (action : ClusterAction) :
    Option.Rel (Reads grisu2) (wire.wireStep grisu2 deployment action)
      (plain.step deployment action) := by
  cases action with
  | store node json processor timestamp =>
      simp only [wireStep, Cluster.step, h.ledger]
      cases (plain.ledger node).storeProcessed (deployment.config node) json processor
          timestamp with
      | thrown | undefined => exact .none
      | stored amount ledger => exact .some ⟨rfl, h.handlers⟩
  | run index =>
      simp only [wireStep, Cluster.step]
      rcases forall₂_lookup h.handlers index with
        ⟨hwire, hplain⟩ | ⟨handler, handler', hwire, hplain, hhandler⟩
      · rw [hwire, hplain]
        exact .none
      · have hnode : handler.node = handler'.node := by cases hhandler <;> rfl
        have hrun := hhandler.run deployment (plain.ledger handler'.node)
        rw [hwire, hplain, h.ledger]
        dsimp only
        rw [hnode]
        generalize paymentsSummaryHandler deployment (plain.ledger handler'.node) handler =
          ran at hrun ⊢
        generalize paymentsSummaryHandler deployment (plain.ledger handler'.node) handler' =
          ran' at hrun ⊢
        cases hrun with
        | none => exact .none
        | some hnext => exact .some (h.setHandler hnext)
  | send index =>
      simp only [wireStep, Cluster.step]
      rcases forall₂_lookup h.handlers index with
        ⟨hwire, hplain⟩ | ⟨handler, handler', hwire, hplain, hhandler⟩
      · rw [hwire, hplain]
        exact .none
      · rw [hwire, hplain]
        cases hhandler with
        | ready | replied => exact .none
        | same =>
            dsimp only
            cases handler.other with
            | absent | waiting | ready => exact .none
            | pending node => exact .some (h.send node)
  | receive index =>
      simp only [wireStep, Cluster.step]
      rcases forall₂_lookup h.handlers index with
        ⟨hwire, hplain⟩ | ⟨handler, handler', hwire, hplain, hhandler⟩
      · rw [hwire, hplain]
        exact .none
      · rw [hwire, hplain]
        exact h.receive hsound hwire hhandler
  | fail index =>
      simp only [wireStep, Cluster.step]
      rcases forall₂_lookup h.handlers index with
        ⟨hwire, hplain⟩ | ⟨handler, handler', hwire, hplain, hhandler⟩
      · rw [hwire, hplain]
        exact .none
      · rw [hwire, hplain]
        cases hhandler with
        | ready | replied => exact .none
        | same =>
            dsimp only
            cases handler.other with
            | absent | ready => exact .none
            | pending | waiting =>
                exact .some (h.setHandler (.same fun result hready => by simp_all))

/-- Handlers that have just been handed their requests. -/
def Fresh (state : Cluster α) : Prop :=
  ∀ handler ∈ state.handlers, handler.pc = .received ∧ handler.other = .absent

omit [Ieee α] in
theorem Fresh.sound {state : Cluster α} (h : state.Fresh) : state.Sound := by
  intro handler hmem
  obtain ⟨hpc, hother⟩ := h handler hmem
  exact ⟨fun server hwaiting => by simp [hother] at hwaiting,
    fun reply hreplied => by simp [hpc] at hreplied, fun _ => hother⟩

theorem Fresh.reads {state : Cluster α} (h : state.Fresh) : state.Reads grisu2 state := by
  refine ⟨rfl, List.forall₂_same.mpr fun handler hmem => .same fun result hready => ?_⟩
  simp [(h handler hmem).2] at hready

theorem wireStep_agrees (deployment : Deployment α) (action : ClusterAction)
    (h : wire.Reads grisu2 plain ∧ wire.Sound) :
    Option.Rel (fun wire plain => wire.Reads grisu2 plain ∧ wire.Sound)
      (wire.wireStep grisu2 deployment action) (plain.step deployment action) := by
  refine rel_imp (h.1.step h.2 deployment action) fun next next' hnext hreads => ?_
  exact ⟨hreads, wireStep_sound h.2 hnext⟩

end

theorem execute_wire {state : Cluster α} (hfresh : state.Fresh) (deployment : Deployment α)
    (actions : List ClusterAction) :
    Option.Rel (fun wire plain => wire.Reads grisu2 plain ∧ wire.Sound)
      (execute (wireStep grisu2 deployment) state actions)
      (execute (step deployment) state actions) :=
  execute_related (fun _ _ action h => wireStep_agrees deployment action h)
    ⟨hfresh.reads, hfresh.sound⟩ actions

variable (grisu2) in
/--
The wire admits the same interleavings, with the same stores, and changes nothing in a
handler but the summary of the other instance.
-/
theorem wire_runs_agree {state : Cluster α} (hfresh : state.Fresh) (deployment : Deployment α)
    (actions : List ClusterAction) :
    Option.Rel (Reads grisu2) (execute (wireStep grisu2 deployment) state actions)
      (execute (step deployment) state actions) := by
  exact rel_imp (execute_wire hfresh deployment actions) fun _ _ _ h => h.1

def wireConfig : Node → Config ℚ := fun _ => ⟨1, [], [], 0, 1000, true⟩

theorem wire_runs_agree_start :
    Option.Rel (Reads twoDecimals)
      (execute (wireStep twoDecimals (.mutual wireConfig))
        (initial paidOnce .a halfSecond wholeSecond) summaryActions)
      (execute (step (.mutual wireConfig)) (initial paidOnce .a halfSecond wholeSecond)
        summaryActions) :=
  wire_runs_agree _ (by simp [Fresh, initial]) _ _

/-! ## One request over the wire -/

section

variable {config : Node → Config α} {ledger : Node → Ledger α} {asked : Node}
variable {fromText toText : Bytes} {state next : Cluster α} {action : ClusterAction}
variable {scan : Node → Query α → Prop} {good : Node → SummaryPair α → Prop}

theorem wireStep_tracks {deployment : Deployment α}
    (hstep : state.wireStep grisu2 deployment action = some next)
    (hhandler : action.ofHandler = true)
    (htexts : ∀ handler ∈ state.handlers,
      handler.request.fromText = fromText ∧ handler.request.toText = toText)
    (hrule : ∀ node, Query.Rule (state.ledger node) fromText toText (scan node) (good node))
    (h : ∀ handler ∈ state.handlers, handler.Tracks scan good) :
    ∀ handler ∈ next.handlers, handler.Tracks scan good := by
  rcases wireStep_move hstep with
    hmove | ⟨index, server, handler, serving, result, -, hindex, hother, -, -, rfl⟩
  · exact hmove.tracks hhandler htexts hrule h
  · have htracks := h _ (List.mem_of_getElem? hindex)
    exact all_set (htracks.setOther (.inr ⟨_, hother⟩) _) h

/-- A handler over the wire has the texts of its request. -/
theorem Reads.texts {wire plain : Cluster α} (h : wire.Reads grisu2 plain)
    (htexts : ∀ handler ∈ plain.handlers,
      handler.request.fromText = fromText ∧ handler.request.toText = toText) :
    ∀ handler ∈ wire.handlers,
      handler.request.fromText = fromText ∧ handler.request.toText = toText := by
  intro handler hmem
  obtain ⟨index, hindex⟩ := List.mem_iff_getElem?.mp hmem
  obtain ⟨handler', hindex', hreads⟩ := forall₂_getElem? h.handlers hindex
  have hrequest : handler.request = handler'.request := by cases hreads <;> rfl
  rw [hrequest]
  exact htexts handler' (List.mem_of_getElem? hindex')

omit [Ieee α] in
theorem reply_front {result : SummaryPair α} (h : state.reply = some result) :
    ∃ front rest, state.handlers = front :: rest ∧ front.pc = .replied result := by
  unfold reply at h
  cases hhandlers : state.handlers with
  | nil => simp [hhandlers] at h
  | cons front rest =>
      rw [hhandlers, List.head?_cons, Option.map_some] at h
      refine ⟨front, rest, rfl, ?_⟩
      cases hpc : front.pc with
      | replied reply =>
          rw [hpc] at h
          exact congrArg _ (Option.some.inj h)
      | received | querying | joining => simp [hpc] at h

/-- What the asked instance makes of the reply that it reads. -/
theorem Reads.reply_eq_plus {wire plain : Cluster α} (h : wire.Reads grisu2 plain)
    (hlinked : Linked asked fromText toText plain.handlers)
    (htracks : ∀ handler ∈ wire.handlers, handler.Tracks scan good)
    {result : SummaryPair α} (hreply : wire.reply = some result) :
    ∃ own other read, good asked own ∧ good asked.other other ∧ result = own.plus read ∧
      (read = other.received grisu2 ∨ read = Query.zero ∧ other = Query.zero) := by
  obtain ⟨front, rest, hwire, hpc⟩ := reply_front hreply
  have hhandlers := h.handlers
  rw [hwire] at hhandlers htracks
  have hfront := htracks front List.mem_cons_self
  generalize plain.handlers = handlers at hhandlers hlinked
  cases hlinked with
  | fresh =>
      cases hhandlers with
      | cons hhead htail =>
          cases hhead with
          | same => simp at hpc
  | launched hbegun =>
      cases hhandlers with
      | cons hhead htail =>
          cases hhead with
          | same =>
              obtain rfl := hpc
              exact hfront.elim
  | waiting hbegun =>
      cases hhandlers with
      | cons hhead htail =>
          cases hhead with
          | same =>
              obtain rfl := hpc
              exact hfront.elim
  | @answered pc other hbegun =>
      cases hhandlers with
      | cons hhead htail =>
          cases htail with
          | cons hsecond hnil =>
              cases hsecond with
              | same =>
                  have hother : good asked.other other :=
                    htracks _ (List.mem_cons_of_mem _ List.mem_cons_self)
                  cases hhead with
                  | same hready =>
                      obtain rfl := hpc
                      obtain ⟨own, hown, hresult⟩ := hfront
                      exact ⟨own, other, other, hown, hother, hresult,
                        .inr ⟨hready other rfl, hready other rfl⟩⟩
                  | ready hnot => exact absurd hpc (hnot result)
                  | replied =>
                      obtain rfl := HandlerPc.replied.inj hpc
                      obtain ⟨own, hown, hresult⟩ := hfront
                      exact ⟨own, other, _, hown, hother, hresult, .inl rfl⟩

theorem exists_step_of_wireStep {deployment : Deployment α} {plain : Cluster α}
    (h : state.Reads grisu2 plain) (hsound : state.Sound)
    (hstep : state.wireStep grisu2 deployment action = some next) :
    ∃ next', plain.step deployment action = some next' ∧ next.Reads grisu2 next' ∧
      next.Sound := by
  have hagrees := wireStep_agrees deployment action ⟨h, hsound⟩
  rw [hstep] at hagrees
  exact exists_of_rel_some hagrees

variable (grisu2) in
/-- The run so far follows one of the cluster, and the handlers report what they should. -/
structure WireObserved (ledger : Node → Ledger α) (asked : Node) (fromText toText : Bytes)
    (state : Cluster α) : Prop where
  follows : ∃ plain : Cluster α, state.Reads grisu2 plain ∧
    plain.Observed ledger asked fromText toText
  sound : state.Sound
  tracks : ∀ handler ∈ state.handlers, handler.Tracks
    (fun node => Query.ScanningFrom (ledger node) (state.ledger node) fromText toText)
    fun node => Reported (ledger node) (state.ledger node) fromText toText

theorem wireStep_countsFit {deployment : Deployment α} {more : Nat}
    (hstep : state.wireStep grisu2 deployment action = some next)
    (hfit : CountsFit state.ledger (stores [action] + more)) : CountsFit next.ledger more := by
  rcases wireStep_move hstep with hmove | ⟨index, _, _, _, _, rfl, _, _, _, _, rfl⟩
  · exact hmove.countsFit hfit
  · simpa [stores, ClusterAction.ofHandler, setHandler] using hfit

theorem wireStep_observed (h : state.WireObserved grisu2 ledger asked fromText toText)
    (hsucceeds : action.succeeds = true)
    (hfit : CountsFit state.ledger (stores [action]))
    (hstep : state.wireStep grisu2 (.mutual config) action = some next) :
    next.WireObserved grisu2 ledger asked fromText toText := by
  obtain ⟨plain, hreads, hobserved⟩ := h.follows
  obtain ⟨next', hstep', hreads', hsound'⟩ := exists_step_of_wireStep hreads h.sound hstep
  have hfit' : CountsFit plain.ledger (stores [action]) := hreads.ledger ▸ hfit
  refine ⟨⟨next', hreads', step_observed hobserved hsucceeds hfit' hstep'⟩, hsound', ?_⟩
  cases hhandler : action.ofHandler with
  | true =>
      have hledger : next.ledger = state.ledger := by
        rw [hreads'.ledger, (step_move hstep').ledger_eq hhandler, hreads.ledger]
      rw [hledger]
      refine wireStep_tracks hstep hhandler (hreads.texts (linked_texts hobserved.linked))
        (fun node => ?_) h.tracks
      rw [hreads.ledger]
      exact Query.rule_reported (hobserved.grows node) (hobserved.fits.node node)
  | false =>
      rcases wireStep_move hstep with hmove | ⟨index, _, _, _, _, rfl, -⟩
      · have hnext : CountsFit next.ledger 0 := hmove.countsFit hfit
        rw [hmove.handlers_eq hhandler]
        intro handler hmem
        exact (h.tracks handler hmem).mono
          (fun node _ hscan => hscan.grow (hmove.grows hfit node))
          fun node _ hgood => hgood.grow (hmove.grows hfit node) (hnext.node node)
      · simp [ClusterAction.ofHandler] at hhandler

omit [Ieee α] in
theorem initial_fresh (ledger : Node → Ledger α) (asked : Node) (fromText toText : Bytes) :
    (initial ledger asked fromText toText).Fresh := by
  intro handler hmem
  rw [List.mem_singleton.mp hmem]
  exact ⟨rfl, rfl⟩

theorem execute_wireObserved {actions : List ClusterAction}
    (hrun : execute (wireStep grisu2 (.mutual config)) (initial ledger asked fromText toText)
      actions = some state)
    (hsucceeds : ∀ action ∈ actions, action.succeeds = true)
    (hfit : CountsFit ledger (stores actions)) :
    state.WireObserved grisu2 ledger asked fromText toText := by
  have hfresh := initial_fresh ledger asked fromText toText
  have hstart : (initial ledger asked fromText toText).WireObserved grisu2 ledger asked
      fromText toText :=
    ⟨⟨_, hfresh.reads, initial_observed hfit.start⟩, hfresh.sound, initial_tracks⟩
  have hfits : Along (wireStep grisu2 (.mutual config))
      (fun state action => CountsFit state.ledger (stores [action]))
      (initial ledger asked fromText toText) actions :=
    countsFit_along (fun hstep => wireStep_countsFit hstep) hfit
  exact execute_invariant
    (fun _ _ _ h hguard hstep => wireStep_observed h hguard.1 hguard.2 hstep) hstart
    (along_and (along_of_forall hsucceeds _) hfits) hrun

/--
Over the wire each number of the reply is the asked instance's own plus what it read:
the other's counts unchanged, and then the counts lie between the sums at the start and
at the end, or nothing, and then the other's amounts do not come through.
-/
theorem wire_two_instance_summary (grisu2 : α → Decimal) (config : Node → Config α)
    (ledger : Node → Ledger α) (asked : Node) (fromText toText : Bytes)
    {actions : List ClusterAction} {state : Cluster α}
    (hrun : execute (wireStep grisu2 (.mutual config)) (initial ledger asked fromText toText)
      actions = some state)
    (hsucceeds : ∀ action ∈ actions, action.succeeds = true)
    (hfit : CountsFit ledger (stores actions)) {result : SummaryPair α}
    (hreply : state.reply = some result) :
    ∃ own other read,
      Reported (ledger asked) (state.ledger asked) fromText toText own ∧
      Reported (ledger asked.other) (state.ledger asked.other) fromText toText other ∧
      result.IsSum own read ∧
      ((read.default.totalRequests = other.default.totalRequests ∧
          read.fallback.totalRequests = other.fallback.totalRequests ∧
          ∃ own₀ other₀ own₁ other₁, (ledger asked).query fromText toText = some own₀ ∧
            (ledger asked.other).query fromText toText = some other₀ ∧
            (state.ledger asked).query fromText toText = some own₁ ∧
            (state.ledger asked.other).query fromText toText = some other₁ ∧
            SummaryBetween own₀ other₀ own₁ other₁ result) ∨
        read = Query.zero ∧ other.carried grisu2 = none) := by
  have hobserved := execute_wireObserved hrun hsucceeds hfit
  obtain ⟨plain, hreads, hplain⟩ := hobserved.follows
  have hfits : CountsFit state.ledger 0 := hreads.ledger ▸ hplain.fits
  obtain ⟨own, other, read, hown, hother, rfl, hread⟩ :=
    hreads.reply_eq_plus hplain.linked hobserved.tracks hreply
  refine ⟨own, other, read, hown, hother, SummaryPair.plus_isSum own read, ?_⟩
  rcases hread with rfl | ⟨rfl, rfl⟩
  · rcases other.received_cases grisu2 with hlost | ⟨hdefault, hfallback⟩
    · exact .inr hlost
    · exact .inl ⟨hdefault, hfallback,
        Reported.plus_of_counts hfits hown hother hdefault hfallback⟩
  · exact .inl ⟨rfl, rfl, Reported.plus_of_counts hfits hown hother rfl rfl⟩

def wireRun : Option (Cluster ℚ) :=
  execute (wireStep twoDecimals (.mutual wireConfig))
    (initial paidOnce .a halfSecond wholeSecond) summaryActions

theorem wire_two_instance_summary_run :
    ∃ state own other read, wireRun = some state ∧
      state.reply = some ⟨⟨3, 15⟩, ⟨0, 0⟩⟩ ∧
      Reported (paidOnce .a) (state.ledger .a) halfSecond wholeSecond own ∧
      Reported (paidOnce .b) (state.ledger .b) halfSecond wholeSecond other ∧
      SummaryPair.IsSum ⟨⟨3, 15⟩, ⟨0, 0⟩⟩ own read ∧
      read.default.totalRequests = other.default.totalRequests ∧
      SummaryBetween ⟨⟨1, 5 / 2⟩, ⟨0, 0⟩⟩ ⟨⟨1, 23 / 2⟩, ⟨0, 0⟩⟩
        ⟨⟨2, 7 / 2⟩, ⟨0, 0⟩⟩ ⟨⟨2, 25 / 2⟩, ⟨0, 0⟩⟩
        (⟨⟨3, 15⟩, ⟨0, 0⟩⟩ : SummaryPair ℚ) := by
  have hrun : wireRun.map (fun state => (state.reply,
        (state.ledger .a).query halfSecond wholeSecond,
        (state.ledger .b).query halfSecond wholeSecond)) =
      some (some ⟨⟨3, 15⟩, ⟨0, 0⟩⟩, some ⟨⟨2, 7 / 2⟩, ⟨0, 0⟩⟩,
        some ⟨⟨2, 25 / 2⟩, ⟨0, 0⟩⟩) := by
    decide +kernel
  have hstart : (paidOnce .a).query halfSecond wholeSecond = some ⟨⟨1, 5 / 2⟩, ⟨0, 0⟩⟩ ∧
      (paidOnce .b).query halfSecond wholeSecond = some ⟨⟨1, 23 / 2⟩, ⟨0, 0⟩⟩ :=
    ⟨by decide +kernel, by decide +kernel⟩
  obtain ⟨state, hstate, hend⟩ := Option.map_eq_some_iff.mp hrun
  simp only [Prod.mk.injEq] at hend
  obtain ⟨hreply, hown', hother'⟩ := hend
  obtain ⟨own, other, read, hown, hother, hsum, hread⟩ :=
    wire_two_instance_summary _ _ _ _ _ _ hstate (by decide) paidOnce_fits hreply
  refine ⟨state, own, other, read, hstate, hreply, hown, hother, hsum, ?_⟩
  rcases hread with ⟨hcount, -, own₀, other₀, own₁, other₁, hown₀, hother₀, hown₁, hother₁,
      hbetween⟩ | ⟨rfl, -⟩
  · refine ⟨hcount, ?_⟩
    rwa [Option.some.inj (hown₀.symm.trans hstart.1),
      Option.some.inj (hother₀.symm.trans hstart.2),
      Option.some.inj (hown₁.symm.trans hown'),
      Option.some.inj (hother₁.symm.trans hother')] at hbetween
  · -- the asked instance alone has counted two payments at most
    obtain ⟨-, most, -, hmost, -, hle⟩ := hown
    rw [Option.some.inj (hmost.symm.trans hown')] at hle
    have hthree : (3 : UInt64) = own.default.totalRequests + 0 := hsum.defaultRequests
    have htwo : own.default.totalRequests.toNat ≤ 2 := hle.1
    rw [UInt64.add_zero] at hthree
    rw [← hthree] at htwo
    exact absurd htwo (by decide)

/-- A handler that has replied has done so on both sides. -/
theorem Reads.exists_reply {wire plain : Cluster α} (h : wire.Reads grisu2 plain)
    (hreply : plain.reply.isSome = true) : ∃ result, wire.reply = some result := by
  obtain ⟨result, hresult⟩ := Option.isSome_iff_exists.mp hreply
  obtain ⟨front, rest, hplain, hpc⟩ := reply_front hresult
  have hhandlers := h.handlers
  rw [hplain] at hhandlers
  unfold reply
  cases hwire : wire.handlers with
  | nil =>
      rw [hwire] at hhandlers
      cases hhandlers
  | cons front' rest' =>
      rw [hwire] at hhandlers
      cases hhandlers with
      | cons hhead htail =>
          cases hhead with
          | same => exact ⟨result, by simp [hpc]⟩
          | ready hnot => exact absurd hpc (hnot result)
          | replied => exact ⟨_, rfl⟩

/-! ## Stores that do not change -/

variable (grisu2) in
structure WireUndisturbed (ledger : Node → Ledger α) (asked : Node) (fromText toText : Bytes)
    (state : Cluster α) : Prop where
  follows : ∃ plain : Cluster α, state.Reads grisu2 plain ∧
    plain.Undisturbed ledger asked fromText toText
  sound : state.Sound
  tracks : ∀ handler ∈ state.handlers, handler.Tracks
    (fun node q => ∃ fuel, q.run (ledger node) fuel = (ledger node).query fromText toText)
    fun node result => (ledger node).query fromText toText = some result

theorem wireStep_undisturbed (h : state.WireUndisturbed grisu2 ledger asked fromText toText)
    (haction : action.succeeds = true ∧ action.ofHandler = true)
    (hstep : state.wireStep grisu2 (.mutual config) action = some next) :
    next.WireUndisturbed grisu2 ledger asked fromText toText := by
  obtain ⟨plain, hreads, hundisturbed⟩ := h.follows
  obtain ⟨next', hstep', hreads', hsound'⟩ := exists_step_of_wireStep hreads h.sound hstep
  refine ⟨⟨next', hreads', step_undisturbed hundisturbed haction hstep'⟩, hsound', ?_⟩
  refine wireStep_tracks hstep haction.2 (hreads.texts (linked_texts hundisturbed.linked))
    (fun node => ?_) h.tracks
  rw [hreads.ledger, hundisturbed.ledger_eq]
  exact Query.rule_exact (ledger node) fromText toText

theorem execute_wireUndisturbed {actions : List ClusterAction}
    (hrun : execute (wireStep grisu2 (.mutual config)) (initial ledger asked fromText toText)
      actions = some state)
    (hactions : ∀ action ∈ actions, action.succeeds = true ∧ action.ofHandler = true) :
    state.WireUndisturbed grisu2 ledger asked fromText toText := by
  have hfresh := initial_fresh ledger asked fromText toText
  have hstart : (initial ledger asked fromText toText).WireUndisturbed grisu2 ledger asked
      fromText toText :=
    ⟨⟨_, hfresh.reads, .fresh, rfl, initial_tracks⟩, hfresh.sound, initial_tracks⟩
  exact execute_invariant
    (fun _ _ _ h haction hstep => wireStep_undisturbed h haction hstep) hstart
    (along_of_forall hactions _) hrun

/-- Over the wire too the handlers take boundedly many steps, and only a reply ends them. -/
theorem wire_progress {actions : List ClusterAction}
    (hrun : execute (wireStep grisu2 (.mutual config)) (initial ledger asked fromText toText)
      actions = some state)
    (hsucceeds : ∀ action ∈ actions, action.succeeds = true) :
    actions.countP ClusterAction.ofHandler ≤ 4 * processedCapacity + 8 ∧
      (state.reply = none → ∃ action next, action.ofHandler = true ∧
        action.succeeds = true ∧
        state.wireStep grisu2 (.mutual config) action = some next) := by
  have hagree : Option.Rel (fun wire plain => wire.Reads grisu2 plain ∧ wire.Sound)
      (execute (wireStep grisu2 (.mutual config)) (initial ledger asked fromText toText)
        actions)
      (execute (step (.mutual config)) (initial ledger asked fromText toText) actions) :=
    execute_wire (initial_fresh ledger asked fromText toText) _ actions
  rw [hrun] at hagree
  obtain ⟨plain, hplain, hreads, hsound⟩ := exists_of_rel_some hagree
  refine ⟨handler_steps_le hplain, fun hreply => ?_⟩
  have hplainReply : plain.reply = none := by
    cases hresult : plain.reply with
    | none => rfl
    | some result =>
        obtain ⟨received, hreceived⟩ := hreads.exists_reply (by rw [hresult]; rfl)
        simp [hreply] at hreceived
  obtain ⟨action, next, hhandler, hcalls, hstep⟩ :
      ∃ action next, action.ofHandler = true ∧ action.succeeds = true ∧
        plain.step (.mutual config) action = some next :=
    (execute_bounded hplain hsucceeds).progress hplainReply
  have hstep' : Option.Rel (fun wire plain => wire.Reads grisu2 plain ∧ wire.Sound)
      (state.wireStep grisu2 (.mutual config) action)
      (plain.step (.mutual config) action) := wireStep_agrees _ action ⟨hreads, hsound⟩
  rw [hstep] at hstep'
  obtain ⟨next', hnext', -⟩ := exists_of_rel_some_right hstep'
  exact ⟨action, next', hhandler, hcalls, hnext'⟩

end

/--
In exact arithmetic, when `Grisu2` finds the other's amounts, the text loses nothing:
the handlers stop only at a reply, and each of its numbers is the sum of those of the
two queries.
-/
theorem wire_summary_exact {grisu2 : ℚ → Decimal} {config : Node → Config ℚ}
    {ledger : Node → Ledger ℚ} {asked : Node} {fromText toText : Bytes}
    {own other : SummaryPair ℚ} (hown : (ledger asked).query fromText toText = some own)
    (hother : (ledger asked.other).query fromText toText = some other)
    (hdefault : other.default.totalAmount ≠ 0 → Exact grisu2 other.default.totalAmount)
    (hfallback : other.fallback.totalAmount ≠ 0 → Exact grisu2 other.fallback.totalAmount)
    {actions : List ClusterAction} {state : Cluster ℚ}
    (hrun : execute (wireStep grisu2 (.mutual config)) (initial ledger asked fromText toText)
      actions = some state)
    (hactions : ∀ action ∈ actions, action.succeeds = true ∧ action.ofHandler = true) :
    actions.length ≤ 4 * processedCapacity + 8 ∧
    (state.reply = none → ∃ action next, action.ofHandler = true ∧
      action.succeeds = true ∧
      state.wireStep grisu2 (.mutual config) action = some next) ∧
    ∀ result, state.reply = some result → result.IsSum own other := by
  obtain ⟨hsteps, hprogress⟩ := wire_progress hrun fun action haction =>
    (hactions action haction).1
  refine ⟨?_, hprogress, fun result hreply => ?_⟩
  · rwa [List.countP_eq_length.mpr fun action haction => (hactions action haction).2] at hsteps
  have hundisturbed := execute_wireUndisturbed hrun hactions
  obtain ⟨plain, hreads, hplain⟩ := hundisturbed.follows
  obtain ⟨own', other', read, hown', hother', rfl, hread⟩ :=
    hreads.reply_eq_plus hplain.linked hundisturbed.tracks hreply
  obtain rfl : own = own' := Option.some.inj (hown.symm.trans hown')
  obtain rfl : other = other' := Option.some.inj (hother.symm.trans hother')
  rcases hread with rfl | ⟨rfl, rfl⟩
  · rw [SummaryPair.received, SummaryPair.carried_rat hdefault hfallback]
    exact SummaryPair.plus_isSum own other
  · exact SummaryPair.plus_isSum own _

/-- The other instance has stored payments under both processors. -/
def paidBoth : Node → Ledger ℚ
  | .a => paidOnce .a
  | .b => ((Ledger.initial 0).addAt .default ⟨1, one_lt_processedCapacity⟩ (25 / 2)).addAt
      .fallback ⟨1, one_lt_processedCapacity⟩ (3 / 20000000)

theorem wire_summary_exact_run :
    ∃ (state : Cluster ℚ) (result : SummaryPair ℚ),
      execute (wireStep twoDecimals (.mutual wireConfig))
        (initial paidBoth .a halfSecond wholeSecond) requestActions = some state ∧
      state.reply = some result ∧ result.default = ⟨2, 15⟩ ∧
      result.fallback = ⟨1, 3 / 20000000⟩ ∧
      result.IsSum ⟨⟨1, 5 / 2⟩, ⟨0, 0⟩⟩ ⟨⟨1, 25 / 2⟩, ⟨1, 3 / 20000000⟩⟩ := by
  have hrun : (execute (wireStep twoDecimals (.mutual wireConfig))
      (initial paidBoth .a halfSecond wholeSecond) requestActions).bind reply =
        some ⟨⟨2, 15⟩, ⟨1, 3 / 20000000⟩⟩ := by
    decide +kernel
  obtain ⟨state, hstate, hreply⟩ := Option.bind_eq_some_iff.mp hrun
  have hown : (paidBoth .a).query halfSecond wholeSecond = some ⟨⟨1, 5 / 2⟩, ⟨0, 0⟩⟩ := by
    decide +kernel
  have hother : (paidBoth (Node.other .a)).query halfSecond wholeSecond =
      some ⟨⟨1, 25 / 2⟩, ⟨1, 3 / 20000000⟩⟩ := by
    decide +kernel
  obtain ⟨-, -, hexact⟩ := wire_summary_exact hown hother (fun _ => exact_point)
    (fun _ => exact_exponent) hstate (by decide)
  exact ⟨state, _, hstate, hreply, rfl, rfl, hexact _ hreply⟩

end Cluster

end RinhaBackend
