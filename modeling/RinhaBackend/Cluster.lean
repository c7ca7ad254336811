import RinhaBackend.Foundation.Execution
import RinhaBackend.Query

/-!
# Two instances

`payments_summary_handler` answers a summary request.  Unless the request is
marked internal it asks the other instance for its summary, in a thread of its
own, while it runs the local query, and adds the two.  The handlers of both
instances run step by step, with a step for every bucket read, and may be
interleaved with stores on either instance.  HTTP and JSON are taken to carry
requests and summaries unchanged.
-/

namespace RinhaBackend

open Foundation

inductive Node where
  | a
  | b
  deriving DecidableEq

def Node.other : Node → Node
  | .a => .b
  | .b => .a

structure SummaryRequest where
  fromText : Bytes
  toText : Bytes
  internal : Bytes

/-- A request without the parameter `internal`. -/
def SummaryRequest.external (fromText toText : Bytes) : SummaryRequest :=
  ⟨fromText, toText, ascii "false"⟩

def callOtherInstance (request : SummaryRequest) : SummaryRequest :=
  { request with internal := ascii "true" }

/-- The future of `call_other_instance`. -/
inductive OtherFuture (α : Type) where
  | absent
  | pending (node : Node)
  | waiting (index : Nat)
  | ready (result : SummaryPair α)

inductive HandlerPc (α : Type) where
  | received
  | querying (q : Query α)
  | joining (result : SummaryPair α)
  | replied (result : SummaryPair α)

structure Handler (α : Type) where
  node : Node
  request : SummaryRequest
  pc : HandlerPc α
  other : OtherFuture α

structure Deployment (α : Type) where
  config : Node → Config α
  otherInstanceUrl : Node → Option Node

structure Cluster (α : Type) where
  ledger : Node → Ledger α
  handlers : List (Handler α)

inductive ClusterAction where
  | store (node : Node) (json : Bytes) (processor : ProcessorResult) (timestamp : UInt64)
  | run (index : Nat)
  | send (index : Nat)
  | receive (index : Nat)
  | fail (index : Nat)

variable {α : Type} [Double α]

def SummaryPair.plus (first second : SummaryPair α) : SummaryPair α :=
  ⟨first.default.plus second.default, first.fallback.plus second.fallback⟩

/-- Each of the four numbers of `whole` is the sum of those of the two parts. -/
structure SummaryPair.IsSum (whole first second : SummaryPair α) : Prop where
  defaultRequests : whole.default.totalRequests =
    first.default.totalRequests + second.default.totalRequests
  defaultAmount : whole.default.totalAmount =
    Double.add first.default.totalAmount second.default.totalAmount
  fallbackRequests : whole.fallback.totalRequests =
    first.fallback.totalRequests + second.fallback.totalRequests
  fallbackAmount : whole.fallback.totalAmount =
    Double.add first.fallback.totalAmount second.fallback.totalAmount

theorem SummaryPair.plus_isSum (first second : SummaryPair α) :
    (first.plus second).IsSum first second :=
  ⟨rfl, rfl, rfl, rfl⟩

theorem SummaryPair.plus_comm (first second : SummaryPair α) :
    first.plus second = second.plus first := by
  simp [plus, Summary.plus, UInt64.add_comm, Double.add_comm]

def Handler.launch (deployment : Deployment α) (handler : Handler α) : OtherFuture α :=
  let otherUrl :=
    if handler.request.internal ≠ ascii "true" then
      deployment.otherInstanceUrl handler.node
    else none
  match otherUrl with
  | none => .absent
  | some node => .pending node

def Handler.openQuery (ledger : Ledger α) (handler : Handler α) : HandlerPc α :=
  match Query.start ledger.processedStart handler.request.fromText
      handler.request.toText with
  | none => .joining Query.zero
  | some q => .querying q

/-- One step of `payments_summary_handler`; `none` while it waits for the future. -/
def paymentsSummaryHandler (deployment : Deployment α) (ledger : Ledger α)
    (handler : Handler α) : Option (Handler α) :=
  match handler.pc with
  | .received =>
      some { handler with
        pc := handler.openQuery ledger
        other := handler.launch deployment }
  | .querying q =>
      if q.finished then some { handler with pc := .joining q.result }
      else
        match q.step ledger with
        | none => none
        | some q => some { handler with pc := .querying q }
  | .joining result =>
      match handler.other with
      | .absent => some { handler with pc := .replied result }
      | .ready other => some { handler with pc := .replied (result.plus other) }
      | .pending _ | .waiting _ => none
  | .replied _ => none

inductive HandlerMove (deployment : Deployment α) (ledger : Ledger α)
    (handler : Handler α) : Handler α → Prop
  | begin (hpc : handler.pc = .received) :
      HandlerMove deployment ledger handler
        { handler with
          pc := handler.openQuery ledger
          other := handler.launch deployment }
  | read {q q' : Query α} (hpc : handler.pc = .querying q)
      (hread : q.step ledger = some q') :
      HandlerMove deployment ledger handler { handler with pc := .querying q' }
  | finish {q : Query α} (hpc : handler.pc = .querying q) (hfinished : q.finished = true) :
      HandlerMove deployment ledger handler { handler with pc := .joining q.result }
  | alone {result : SummaryPair α} (hpc : handler.pc = .joining result)
      (hother : handler.other = .absent) :
      HandlerMove deployment ledger handler { handler with pc := .replied result }
  | join {result other : SummaryPair α} (hpc : handler.pc = .joining result)
      (hother : handler.other = .ready other) :
      HandlerMove deployment ledger handler
        { handler with pc := .replied (result.plus other) }

theorem paymentsSummaryHandler_move {deployment : Deployment α} {ledger : Ledger α}
    {handler handler' : Handler α}
    (h : paymentsSummaryHandler deployment ledger handler = some handler') :
    HandlerMove deployment ledger handler handler' := by
  unfold paymentsSummaryHandler at h
  split at h
  case h_1 hpc =>
      cases h
      exact .begin hpc
  case h_2 hpc =>
      split_ifs at h with hfinished
      · cases h
        exact .finish hpc hfinished
      · split at h
        · simp at h
        · cases h
          exact .read hpc ‹_›
  case h_3 hpc =>
      split at h
      · cases h
        exact .alone hpc ‹_›
      · cases h
        exact .join hpc ‹_›
      · simp at h
      · simp at h
  case h_4 => simp at h

namespace Cluster

def initial (ledger : Node → Ledger α) (node : Node) (fromText toText : Bytes) :
    Cluster α :=
  ⟨ledger, [⟨node, .external fromText toText, .received, .absent⟩]⟩

def setHandler (state : Cluster α) (index : Nat) (handler : Handler α) : Cluster α :=
  { state with handlers := state.handlers.set index handler }

/-- What the thread of `call_other_instance` does when it has sent its request. -/
def receive (state : Cluster α) (index : Nat) (handler : Handler α) :
    Option (Cluster α) :=
  match handler.other with
  | .waiting server =>
      match state.handlers[server]?.map Handler.pc with
      | some (.replied result) =>
          some (state.setHandler index { handler with other := .ready result })
      | _ => none
  | _ => none

def step (deployment : Deployment α) (state : Cluster α) :
    ClusterAction → Option (Cluster α)
  | .store node json processor timestamp =>
      match (state.ledger node).storeProcessed (deployment.config node) json processor
          timestamp with
      | .stored _ ledger =>
          some { state with ledger := Function.update state.ledger node ledger }
      | .thrown | .undefined => none
  | .run index =>
      match state.handlers[index]? with
      | none => none
      | some handler =>
          match paymentsSummaryHandler deployment (state.ledger handler.node) handler with
          | none => none
          | some handler => some (state.setHandler index handler)
  | .send index =>
      match state.handlers[index]? with
      | none => none
      | some handler =>
          match handler.other with
          | .pending node =>
              let server : Handler α :=
                ⟨node, callOtherInstance handler.request, .received, .absent⟩
              some { state with
                handlers := state.handlers.set index
                  { handler with other := .waiting state.handlers.length } ++ [server] }
          | _ => none
  | .receive index =>
      match state.handlers[index]? with
      | none => none
      | some handler => state.receive index handler
  | .fail index =>
      match state.handlers[index]? with
      | none => none
      | some handler =>
          match handler.other with
          | .pending _ | .waiting _ =>
              some (state.setHandler index { handler with other := .ready Query.zero })
          | _ => none

/-! ## What a step can do -/

inductive Move (deployment : Deployment α) (state : Cluster α) :
    ClusterAction → Cluster α → Prop
  | store {node : Node} {json : Bytes} {processor : ProcessorResult} {timestamp : UInt64}
      {amount : α} {ledger : Ledger α}
      (hledger : (state.ledger node).storeProcessed (deployment.config node) json processor
        timestamp = .stored amount ledger) :
      Move deployment state (.store node json processor timestamp)
        { state with ledger := Function.update state.ledger node ledger }
  | run {index : Nat} {handler handler' : Handler α}
      (hhandler : state.handlers[index]? = some handler)
      (hrun : paymentsSummaryHandler deployment (state.ledger handler.node) handler =
        some handler') :
      Move deployment state (.run index) (state.setHandler index handler')
  | send {index : Nat} {handler : Handler α} {node : Node}
      (hhandler : state.handlers[index]? = some handler)
      (hother : handler.other = .pending node) :
      Move deployment state (.send index)
        { state with
          handlers := state.handlers.set index
              { handler with other := .waiting state.handlers.length } ++
            [⟨node, callOtherInstance handler.request, .received, .absent⟩] }
  | receive {index server : Nat} {handler serving : Handler α} {result : SummaryPair α}
      (hhandler : state.handlers[index]? = some handler)
      (hother : handler.other = .waiting server)
      (hserving : state.handlers[server]? = some serving)
      (hreply : serving.pc = .replied result) :
      Move deployment state (.receive index)
        (state.setHandler index { handler with other := .ready result })
  | fail {index : Nat} {handler : Handler α}
      (hhandler : state.handlers[index]? = some handler)
      (hother : (∃ node, handler.other = .pending node) ∨
        ∃ server, handler.other = .waiting server) :
      Move deployment state (.fail index)
        (state.setHandler index { handler with other := .ready Query.zero })

theorem step_move {deployment : Deployment α} {state next : Cluster α}
    {action : ClusterAction} (h : step deployment state action = some next) :
    Move deployment state action next := by
  cases action with
  | store node json processor timestamp =>
      simp only [step] at h
      split at h
      · cases h
        exact .store ‹_›
      · simp at h
      · simp at h
  | run index =>
      simp only [step] at h
      split at h
      · simp at h
      · split at h
        · simp at h
        · cases h
          exact .run ‹_› ‹_›
  | send index =>
      simp only [step] at h
      split at h
      · simp at h
      · split at h
        · cases h
          exact .send ‹_› ‹_›
        · simp at h
  | receive index =>
      simp only [step, receive] at h
      split at h
      · simp at h
      · split at h
        · split at h
          · rename_i hreply
            obtain ⟨serving, hserving, hpc⟩ := Option.map_eq_some_iff.mp hreply
            cases h
            exact .receive ‹_› ‹_› hserving hpc
          · simp at h
        · simp at h
  | fail index =>
      simp only [step] at h
      split at h
      · simp at h
      · split at h
        · cases h
          exact .fail ‹_› (.inl ⟨_, ‹_›⟩)
        · cases h
          exact .fail ‹_› (.inr ⟨_, ‹_›⟩)
        · simp at h

end Cluster

/-! ## Termination -/

def Query.readsLeft (q : Query α) : Nat :=
  2 * (processedCapacity - q.index.toNat) - if q.atFallback then 1 else 0

def HandlerPc.cost (internal : Bytes) : HandlerPc α → Nat
  | .received =>
      if internal ≠ ascii "true" then 4 * processedCapacity + 8
      else 2 * processedCapacity + 3
  | .querying q => q.readsLeft + 2
  | .joining _ => 1
  | .replied _ => 0

def OtherFuture.cost : OtherFuture α → Nat
  | .pending _ => 2 * processedCapacity + 5
  | .waiting _ => 1
  | .absent | .ready _ => 0

/-- A bound on the steps of a handler and of the handlers it starts. -/
def Handler.cost (handler : Handler α) : Nat :=
  handler.pc.cost handler.request.internal + handler.other.cost

theorem Query.readsLeft_step {ledger : Ledger α} {q q' : Query α}
    (h : q.step ledger = some q') : q'.readsLeft + 1 ≤ q.readsLeft := by
  obtain ⟨hslot, ⟨hat, -, rfl⟩ | ⟨hat, rfl⟩⟩ := Query.step_eq_some h
  · simp only [readsLeft, hat, if_true, Bool.false_eq_true, if_false]
    omega
  · simp only [readsLeft, hat, if_true, Bool.false_eq_true, if_false,
      Query.index_succ hslot]
    omega

omit [Double α] in
private theorem launch_cost (deployment : Deployment α) (handler : Handler α) :
    (handler.launch deployment).cost ≤
      if handler.request.internal ≠ ascii "true" then 2 * processedCapacity + 5 else 0 := by
  unfold Handler.launch
  dsimp only
  split_ifs
  · split <;> simp [OtherFuture.cost]
  · simp [OtherFuture.cost]

private theorem openQuery_cost (ledger : Ledger α) (handler : Handler α)
    (internal : Bytes) :
    (handler.openQuery ledger).cost internal ≤ 2 * processedCapacity + 2 := by
  unfold Handler.openQuery
  split
  · simp [HandlerPc.cost]
  · simp only [HandlerPc.cost, Query.readsLeft]
    omega

theorem HandlerMove.cost_lt {deployment : Deployment α} {ledger : Ledger α}
    {handler handler' : Handler α}
    (hmove : HandlerMove deployment ledger handler handler') :
    handler'.cost + 1 ≤ handler.cost := by
  cases hmove with
  | begin hpc =>
      have hlaunch := launch_cost deployment handler
      have hopen := openQuery_cost ledger handler handler.request.internal
      have hreceived : handler.pc.cost handler.request.internal =
          if handler.request.internal ≠ ascii "true" then 4 * processedCapacity + 8
          else 2 * processedCapacity + 3 := by
        rw [hpc]
        rfl
      simp only [Handler.cost, hreceived]
      split_ifs at hlaunch ⊢ <;> omega
  | read hpc hread =>
      have hreads := Query.readsLeft_step hread
      simp only [Handler.cost, hpc, HandlerPc.cost]
      omega
  | finish hpc hfinished =>
      simp only [Handler.cost, hpc, HandlerPc.cost]
      omega
  | alone hpc hother | join hpc hother =>
      simp only [Handler.cost, hpc, HandlerPc.cost]
      omega

def ClusterAction.ofHandler : ClusterAction → Bool
  | .store _ _ _ _ => false
  | _ => true

def ClusterAction.succeeds : ClusterAction → Bool
  | .fail _ => false
  | _ => true

namespace Cluster

variable {deployment : Deployment α} {state next : Cluster α} {action : ClusterAction}

def cost (state : Cluster α) : Nat := (state.handlers.map Handler.cost).sum

omit [Double α] in
private theorem cost_setHandler {index : Nat} {handler handler' : Handler α}
    (hhandler : state.handlers[index]? = some handler)
    (h : handler'.cost + 1 ≤ handler.cost) :
    (state.setHandler index handler').cost + 1 ≤ state.cost := by
  have hset := sum_map_set Handler.cost hhandler handler'
  simp only [cost, setHandler]
  omega

theorem Move.cost_le (hmove : Move deployment state action next) :
    next.cost + (if action.ofHandler then 1 else 0) ≤ state.cost := by
  cases hmove with
  | store hledger => exact Nat.le_refl _
  | run hhandler hrun =>
      exact cost_setHandler hhandler (paymentsSummaryHandler_move hrun).cost_lt
  | @send index handler node hhandler hother =>
      have hset := sum_map_set Handler.cost hhandler
        { handler with other := .waiting state.handlers.length }
      simp only [cost, List.map_append, List.sum_append, List.map_singleton,
        List.sum_singleton, ClusterAction.ofHandler, if_true]
      simp only [Handler.cost, hother, OtherFuture.cost, HandlerPc.cost,
        callOtherInstance] at hset ⊢
      simp only [ne_eq, not_true_eq_false, if_false]
      omega
  | receive hhandler hother hserving hreply =>
      refine cost_setHandler hhandler ?_
      simp [Handler.cost, hother, OtherFuture.cost]
  | fail hhandler hother =>
      refine cost_setHandler hhandler ?_
      rcases hother with ⟨node, hother⟩ | ⟨server, hother⟩
      · simp only [Handler.cost, hother, OtherFuture.cost]
        omega
      · simp [Handler.cost, hother, OtherFuture.cost]

/-- However the steps are interleaved, the handlers take a bounded number of them. -/
theorem handler_steps_le {actions : List ClusterAction} {ledger : Node → Ledger α}
    {asked : Node} {fromText toText : Bytes}
    (hrun : execute (step deployment) (initial ledger asked fromText toText) actions =
      some state) :
    actions.countP ClusterAction.ofHandler ≤ 4 * processedCapacity + 8 := by
  have hlowers : ∀ state action next, step deployment state action = some next →
      next.cost + (if action.ofHandler then 1 else 0) ≤ state.cost :=
    fun _ _ _ hstep => (step_move hstep).cost_le
  have hcost := execute_cost hlowers hrun
  have hinitial : (initial ledger asked fromText toText).cost =
      4 * processedCapacity + 8 := by
    have hexternal : ascii "false" ≠ ascii "true" := by decide
    simp [cost, initial, Handler.cost, HandlerPc.cost, OtherFuture.cost,
      SummaryRequest.external, hexternal]
  omega

end Cluster

end RinhaBackend
