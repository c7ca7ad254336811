import RinhaBackend.Cluster
import RinhaBackend.Foundation.Scan

/-!
# The summary of two instances

Each instance names the other.  One external request makes at most one call
between them, since the call is marked internal; it ends, and the counts it
reports lie between those of uninterrupted queries when the request began and
when the reply was built.
-/

namespace RinhaBackend

open Foundation

variable {α : Type} [Double α]

/-! ## The shape of a request -/

def Deployment.mutual (config : Node → Config α) : Deployment α :=
  ⟨config, fun node => some node.other⟩

/--
The handlers of one external request on `asked`: its own, and once the call is
sent the handler of the other instance, which starts no call.
-/
inductive Linked (asked : Node) (fromText toText : Bytes) : List (Handler α) → Prop
  | fresh :
      Linked asked fromText toText
        [⟨asked, .external fromText toText, .received, .absent⟩]
  | launched {pc : HandlerPc α} (hpc : pc ≠ .received) :
      Linked asked fromText toText
        [⟨asked, .external fromText toText, pc, .pending asked.other⟩]
  | waiting {pc serving : HandlerPc α} (hpc : pc ≠ .received) :
      Linked asked fromText toText
        [⟨asked, .external fromText toText, pc, .waiting 1⟩,
          ⟨asked.other, callOtherInstance (.external fromText toText), serving, .absent⟩]
  | answered {pc : HandlerPc α} {result : SummaryPair α} (hpc : pc ≠ .received) :
      Linked asked fromText toText
        [⟨asked, .external fromText toText, pc, .ready result⟩,
          ⟨asked.other, callOtherInstance (.external fromText toText), .replied result,
            .absent⟩]

theorem HandlerMove.begun {deployment : Deployment α} {ledger : Ledger α}
    {handler handler' : Handler α}
    (hmove : HandlerMove deployment ledger handler handler')
    (hpc : handler.pc ≠ .received) :
    ∃ pc, pc ≠ .received ∧ handler' = { handler with pc } := by
  cases hmove with
  | begin hreceived => exact absurd hreceived hpc
  | read | finish | alone | join => exact ⟨_, by simp, rfl⟩

theorem Handler.openQuery_ne (ledger : Ledger α) (handler : Handler α) :
    handler.openQuery ledger ≠ .received := by
  unfold openQuery
  split <;> simp

theorem HandlerMove.serving {deployment : Deployment α} {ledger : Ledger α}
    {handler handler' : Handler α}
    (hmove : HandlerMove deployment ledger handler handler')
    (hinternal : handler.request.internal = ascii "true")
    (hother : handler.other = .absent) :
    ∃ pc, handler' = { handler with pc } := by
  cases hmove with
  | begin hpc =>
      refine ⟨handler.openQuery ledger, ?_⟩
      simp [Handler.launch, hinternal, hother]
  | read | finish | alone | join => exact ⟨_, rfl⟩

namespace Cluster

variable {config : Node → Config α} {asked : Node} {fromText toText : Bytes}
variable {state next : Cluster α} {action : ClusterAction}

omit [Double α] in
private theorem getElem?_one {only handler : Handler α} {index : Nat}
    (h : [only][index]? = some handler) : index = 0 ∧ handler = only := by
  cases index with
  | zero => exact ⟨rfl, (Option.some.inj h).symm⟩
  | succ index => simp at h

omit [Double α] in
private theorem getElem?_two {first second handler : Handler α} {index : Nat}
    (h : [first, second][index]? = some handler) :
    index = 0 ∧ handler = first ∨ index = 1 ∧ handler = second := by
  cases index with
  | zero => exact Or.inl ⟨rfl, (Option.some.inj h).symm⟩
  | succ index =>
      obtain ⟨rfl, rfl⟩ := getElem?_one h
      exact Or.inr ⟨rfl, rfl⟩

theorem Move.linked (hmove : Move (.mutual config) state action next)
    (hsucceeds : action.succeeds = true)
    (h : Linked asked fromText toText state.handlers) :
    Linked asked fromText toText next.handlers := by
  obtain ⟨ledger, handlers⟩ := state
  have hexternal : ascii "false" ≠ ascii "true" := by decide
  cases hmove with
  | store hledger => exact h
  | @run index handler handler' hhandler hrun =>
      have hmove := paymentsSummaryHandler_move hrun
      cases h with
      | fresh =>
          obtain ⟨rfl, rfl⟩ := getElem?_one hhandler
          cases hmove with
          | begin =>
              simp only [setHandler, List.set_cons_zero, Handler.launch,
                SummaryRequest.external, hexternal, Deployment.mutual, ne_eq,
                not_false_eq_true, if_true]
              exact .launched (Handler.openQuery_ne _ _)
          | read hpc | finish hpc | alone hpc | join hpc => simp at hpc
      | launched hpc =>
          obtain ⟨rfl, rfl⟩ := getElem?_one hhandler
          obtain ⟨pc, hpc', rfl⟩ := hmove.begun hpc
          exact .launched hpc'
      | waiting hpc =>
          rcases getElem?_two hhandler with ⟨rfl, rfl⟩ | ⟨rfl, rfl⟩
          · obtain ⟨pc, hpc', rfl⟩ := hmove.begun hpc
            exact .waiting hpc'
          · obtain ⟨pc, rfl⟩ := hmove.serving rfl rfl
            exact .waiting hpc
      | answered hpc =>
          rcases getElem?_two hhandler with ⟨rfl, rfl⟩ | ⟨rfl, rfl⟩
          · obtain ⟨pc, hpc', rfl⟩ := hmove.begun hpc
            exact .answered hpc'
          · simp [paymentsSummaryHandler] at hrun
  | send hhandler hother =>
      cases h with
      | fresh =>
          obtain ⟨rfl, rfl⟩ := getElem?_one hhandler
          simp at hother
      | launched hpc =>
          obtain ⟨rfl, rfl⟩ := getElem?_one hhandler
          cases hother
          exact .waiting hpc
      | waiting hpc | answered hpc =>
          rcases getElem?_two hhandler with ⟨rfl, rfl⟩ | ⟨rfl, rfl⟩ <;> simp at hother
  | receive hhandler hother hserving hreply =>
      cases h with
      | fresh | launched hpc =>
          obtain ⟨rfl, rfl⟩ := getElem?_one hhandler
          simp at hother
      | waiting hpc =>
          rcases getElem?_two hhandler with ⟨rfl, rfl⟩ | ⟨rfl, rfl⟩
          · cases hother
            cases hserving
            cases hreply
            exact .answered hpc
          · simp at hother
      | answered hpc =>
          rcases getElem?_two hhandler with ⟨rfl, rfl⟩ | ⟨rfl, rfl⟩ <;> simp at hother
  | fail hhandler hother => simp [ClusterAction.succeeds] at hsucceeds

omit [Double α] in
theorem linked_serving {handlers : List (Handler α)}
    (h : Linked asked fromText toText handlers) :
    handlers.length ≤ 2 ∧ ∀ handler ∈ handlers.tail,
      handler.node = asked.other ∧ handler.other = .absent := by
  cases h <;> simp

omit [Double α] in
theorem linked_texts {handlers : List (Handler α)}
    (h : Linked asked fromText toText handlers) :
    ∀ handler ∈ handlers,
      handler.request.fromText = fromText ∧ handler.request.toText = toText := by
  cases h <;> simp [SummaryRequest.external, callOtherInstance]

end Cluster

/-! ## What the handlers report -/

/-- A rule for the loop of `query`: `scan` while it runs, `good` of its result. -/
structure Query.Rule (ledger : Ledger α) (fromText toText : Bytes)
    (scan : Query α → Prop) (good : SummaryPair α → Prop) : Prop where
  reversed : start (α := α) ledger.processedStart fromText toText = none → good zero
  opened : ∀ q, start ledger.processedStart fromText toText = some q → scan q
  read : ∀ q q', scan q → q.step ledger = some q' → scan q'
  finish : ∀ q, scan q → q.finished = true → good q.result

/-- The handler's own query obeys the rule, and its reply adds the future's result. -/
def Handler.Tracks (scan : Node → Query α → Prop) (good : Node → SummaryPair α → Prop)
    (handler : Handler α) : Prop :=
  match handler.pc, handler.other with
  | .received, _ => True
  | .querying q, _ => scan handler.node q
  | .joining result, _ => good handler.node result
  | .replied result, .absent => good handler.node result
  | .replied result, .ready other =>
      ∃ own, good handler.node own ∧ result = own.plus other
  | .replied _, _ => False

section Tracks

variable {scan scan' : Node → Query α → Prop} {good good' : Node → SummaryPair α → Prop}

theorem Handler.Tracks.mono {handler : Handler α}
    (hscan : ∀ node q, scan node q → scan' node q)
    (hgood : ∀ node result, good node result → good' node result)
    (h : handler.Tracks scan good) : handler.Tracks scan' good' := by
  obtain ⟨node, request, pc, other⟩ := handler
  cases pc with
  | received => trivial
  | querying q => exact hscan _ _ h
  | joining result => exact hgood _ _ h
  | replied result =>
      cases other with
      | absent => exact hgood _ _ h
      | ready other =>
          obtain ⟨own, hown, hresult⟩ := h
          exact ⟨own, hgood _ _ hown, hresult⟩
      | pending | waiting => exact h

theorem Handler.Tracks.setOther {handler : Handler α} (h : handler.Tracks scan good)
    (hother : (∃ node, handler.other = .pending node) ∨
      ∃ server, handler.other = .waiting server) (other : OtherFuture α) :
    ({ handler with other } : Handler α).Tracks scan good := by
  obtain ⟨node, request, pc, future⟩ := handler
  cases pc with
  | replied result =>
      rcases hother with ⟨target, rfl⟩ | ⟨server, rfl⟩ <;> exact h.elim
  | received | querying | joining => exact h

theorem HandlerMove.tracks {deployment : Deployment α} {ledger : Ledger α}
    {handler handler' : Handler α}
    (hmove : HandlerMove deployment ledger handler handler')
    (hrule : Query.Rule ledger handler.request.fromText handler.request.toText
      (scan handler.node) (good handler.node))
    (h : handler.Tracks scan good) : handler'.Tracks scan good := by
  obtain ⟨node, request, pc, other⟩ := handler
  cases hmove with
  | begin hpc =>
      simp only [Handler.openQuery]
      split
      · exact hrule.reversed ‹_›
      · exact hrule.opened _ ‹_›
  | read hpc hread =>
      cases hpc
      exact hrule.read _ _ h hread
  | finish hpc hfinished =>
      cases hpc
      exact hrule.finish _ h hfinished
  | alone hpc hother =>
      cases hpc
      cases hother
      exact h
  | join hpc hother =>
      cases hpc
      cases hother
      exact ⟨_, h, rfl⟩

theorem Cluster.Move.tracks {deployment : Deployment α} {state next : Cluster α}
    {action : ClusterAction} {fromText toText : Bytes}
    (hmove : Cluster.Move deployment state action next)
    (hhandler : action.ofHandler = true)
    (htexts : ∀ handler ∈ state.handlers,
      handler.request.fromText = fromText ∧ handler.request.toText = toText)
    (hrule : ∀ node, Query.Rule (state.ledger node) fromText toText (scan node) (good node))
    (h : ∀ handler ∈ state.handlers, handler.Tracks scan good) :
    ∀ handler ∈ next.handlers, handler.Tracks scan good := by
  cases hmove with
  | store => simp [ClusterAction.ofHandler] at hhandler
  | @run index handler handler' hindex hrun =>
      have hmem := List.mem_of_getElem? hindex
      obtain ⟨hfrom, hto⟩ := htexts handler hmem
      refine all_set ((paymentsSummaryHandler_move hrun).tracks ?_ (h handler hmem)) h
      rw [hfrom, hto]
      exact hrule handler.node
  | send hindex hother =>
      have htracks := h _ (List.mem_of_getElem? hindex)
      exact all_append_singleton trivial
        (all_set (htracks.setOther (.inl ⟨_, hother⟩) _) h)
  | receive hindex hother hserving hreply =>
      have htracks := h _ (List.mem_of_getElem? hindex)
      exact all_set (htracks.setOther (.inr ⟨_, hother⟩) _) h
  | fail hindex hother =>
      have htracks := h _ (List.mem_of_getElem? hindex)
      exact all_set (htracks.setOther hother _) h

end Tracks

/-! ## Queries over a store that does not change -/

theorem Query.not_finished_of_step {ledger : Ledger α} {q q' : Query α}
    (h : q.step ledger = some q') : q.finished = false := by
  obtain ⟨-, ⟨hat, hle, -⟩ | ⟨hat, -⟩⟩ := Query.step_eq_some h
  · simp [finished, hle]
  · simp [finished, hat]

theorem Query.rule_exact (ledger : Ledger α) (fromText toText : Bytes) :
    Query.Rule ledger fromText toText
      (fun q => ∃ fuel, q.run ledger fuel = ledger.query fromText toText)
      fun result => ledger.query fromText toText = some result where
  reversed hstart := by simp [Ledger.query, hstart]
  opened q hstart := ⟨2 * processedCapacity + 1, by simp [Ledger.query, hstart]⟩
  read q q' := by
    rintro ⟨fuel, hrun⟩ hstep
    obtain ⟨pair, hpair⟩ := ledger.query_isSome fromText toText
    cases fuel with
    | zero => simp [run, hpair] at hrun
    | succ fuel =>
        refine ⟨fuel, ?_⟩
        simpa [run, not_finished_of_step hstep, hstep] using hrun
  finish q := by
    rintro ⟨fuel, hrun⟩ hfinished
    obtain ⟨pair, hpair⟩ := ledger.query_isSome fromText toText
    cases fuel with
    | zero => simp [run, hpair] at hrun
    | succ fuel =>
        rw [← hrun]
        simp [run, hfinished]

/-! ## Queries over a store that grows -/

/-- Both counts of the first pair are at most those of the second. -/
def SummaryPair.LeRequests (first second : SummaryPair α) : Prop :=
  first.default.totalRequests.toNat ≤ second.default.totalRequests.toNat ∧
    first.fallback.totalRequests.toNat ≤ second.fallback.totalRequests.toNat

structure Ledger.Le (older newer : Ledger α) : Prop where
  start_eq : newer.processedStart = older.processedStart
  default : ∀ slot, (older.processedDefault slot).totalRequests.toNat ≤
    (newer.processedDefault slot).totalRequests.toNat
  fallback : ∀ slot, (older.processedFallback slot).totalRequests.toNat ≤
    (newer.processedFallback slot).totalRequests.toNat

omit [Double α] in
theorem requests_mono {buckets buckets' : Fin processedCapacity → Summary α}
    (h : ∀ slot, (buckets slot).totalRequests.toNat ≤ (buckets' slot).totalRequests.toNat)
    (slots : List (Fin processedCapacity)) : requests buckets slots ≤ requests buckets' slots :=
  List.sum_le_sum fun slot _ => h slot

omit [Double α] in
/-- One more request in one bucket is at most one more in all of them. -/
theorem requests_le_succ {buckets buckets' : Fin processedCapacity → Summary α}
    (place : Fin processedCapacity)
    (h : ∀ slot, (buckets' slot).totalRequests.toNat ≤
      (buckets slot).totalRequests.toNat + if slot = place then 1 else 0)
    {slots : List (Fin processedCapacity)} (hslots : slots.Nodup) :
    requests buckets' slots ≤ requests buckets slots + 1 := by
  have hcount : requests buckets' slots ≤ requests buckets slots + slots.count place := by
    clear hslots
    induction slots with
    | nil => simp [requests]
    | cons slot slots ih =>
        have hslot := h slot
        simp only [requests, List.map_cons, List.sum_cons, List.count_cons, beq_iff_eq]
          at ih ⊢
        omega
  have hone := List.nodup_iff_count_le_one.mp hslots place
  omega

namespace Ledger

variable {older newer newest ledger ledger' : Ledger α} {fromText toText : Bytes}

omit [Double α] in
theorem Le.refl (ledger : Ledger α) : ledger.Le ledger :=
  ⟨rfl, fun _ => Nat.le_refl _, fun _ => Nat.le_refl _⟩

omit [Double α] in
theorem Le.trans (h : older.Le newer) (h' : newer.Le newest) : older.Le newest :=
  ⟨h'.start_eq.trans h.start_eq, fun slot => (h.default slot).trans (h'.default slot),
    fun slot => (h.fallback slot).trans (h'.fallback slot)⟩

omit [Double α] in
theorem Le.countsFit (h : older.Le newer) (hfit : newer.CountsFit) : older.CountsFit :=
  ⟨(requests_mono h.default _).trans_lt hfit.default,
    (requests_mono h.fallback _).trans_lt hfit.fallback⟩

/-- A store adds one request to one bucket. -/
theorem storeProcessed_buckets {config : Config α} {json : Bytes}
    {processor : ProcessorResult} {timestamp : UInt64} {amount : α}
    (h : ledger.storeProcessed config json processor timestamp = .stored amount ledger') :
    ledger'.processedStart = ledger.processedStart ∧ ∃ place, ∀ processor : ProcessorResult,
      processor.IsProcessor → ∀ slot,
        (ledger'.bucket processor slot).totalRequests =
            (ledger.bucket processor slot).totalRequests ∨
          slot = place ∧ (ledger'.bucket processor slot).totalRequests =
            (ledger.bucket processor slot).totalRequests + 1 := by
  obtain ⟨hindex, rfl⟩ := add_eq_some (storeProcessed_eq_stored h).2
  refine ⟨addAt_processedStart _ _ _ _, ⟨_, hindex⟩, fun processor hprocessor slot => ?_⟩
  rw [bucket_addAt (side_eq config _) hprocessor]
  split_ifs with hslot
  · exact Or.inr ⟨hslot.2.symm, rfl⟩
  · exact Or.inl rfl

theorem storeProcessed_counted {config : Config α} {json : Bytes}
    {processor : ProcessorResult} {timestamp : UInt64} {amount : α}
    (h : ledger.storeProcessed config json processor timestamp = .stored amount ledger')
    {side : ProcessorResult} (hside : side.IsProcessor) :
    ledger'.counted side ≤ ledger.counted side + 1 := by
  obtain ⟨-, place, hbuckets⟩ := storeProcessed_buckets h
  refine requests_le_succ place (fun slot => ?_) (List.nodup_finRange _)
  rcases hbuckets side hside slot with hsame | ⟨rfl, hmore⟩
  · rw [hsame]
    exact Nat.le_add_right _ _
  · rw [hmore, UInt64.toNat_add, if_pos rfl]
    exact Nat.mod_le _ _

omit [Double α] in
theorem bucket_le_counted (ledger : Ledger α) (processor : ProcessorResult)
    (slot : Fin processedCapacity) :
    (ledger.bucket processor slot).totalRequests.toNat ≤ ledger.counted processor :=
  List.le_sum_of_mem (List.mem_map_of_mem (List.mem_finRange slot))

/-- Below `2^64` a store never lowers a count. -/
theorem storeProcessed_le {config : Config α} {json : Bytes} {processor : ProcessorResult}
    {timestamp : UInt64} {amount : α}
    (h : ledger.storeProcessed config json processor timestamp = .stored amount ledger')
    (hroom : ∀ side : ProcessorResult, side.IsProcessor → ledger.counted side + 1 < 2 ^ 64) :
    ledger.Le ledger' := by
  obtain ⟨hstart, place, hbuckets⟩ := storeProcessed_buckets h
  have hgrows : ∀ side : ProcessorResult, side.IsProcessor → ∀ slot,
      (ledger.bucket side slot).totalRequests.toNat ≤
        (ledger'.bucket side slot).totalRequests.toNat := by
    intro side hside slot
    have hlt := (Nat.succ_le_succ (ledger.bucket_le_counted side slot)).trans_lt
      (hroom side hside)
    rcases hbuckets side hside slot with hsame | ⟨rfl, hmore⟩
    · rw [hsame]
    · rw [hmore, UInt64.toNat_add, UInt64.toNat_one, Nat.mod_eq_of_lt hlt]
      exact Nat.le_succ _
  have hdefault := hgrows .default (Or.inl rfl)
  rw [bucket_of_ne (by decide), bucket_of_ne (by decide)] at hdefault
  exact ⟨hstart, hdefault, hgrows .fallback (Or.inr rfl)⟩

theorem Le.totals (h : older.Le newer) (hfit : newer.CountsFit)
    {slots : List (Fin processedCapacity)}
    (hslots : slots.Sublist (List.finRange processedCapacity)) :
    (older.totals slots).LeRequests (newer.totals slots) := by
  obtain ⟨hdefault, hfallback⟩ := totals_requests (h.countsFit hfit) hslots
  obtain ⟨hdefault', hfallback'⟩ := totals_requests hfit hslots
  rw [SummaryPair.LeRequests, hdefault, hfallback, hdefault', hfallback']
  exact ⟨requests_mono h.default slots, requests_mono h.fallback slots⟩

theorem Le.query (h : older.Le newer) (hfit : newer.CountsFit) {pair : SummaryPair α}
    (hpair : older.query fromText toText = some pair) :
    ∃ pair', newer.query fromText toText = some pair' ∧ pair.LeRequests pair' := by
  rw [query_eq] at hpair ⊢
  rw [h.start_eq]
  cases hstart : Query.start (α := α) older.processedStart fromText toText with
  | none =>
      rw [hstart, Option.some.injEq] at hpair
      exact ⟨pair, by rw [hpair], Nat.le_refl _, Nat.le_refl _⟩
  | some q =>
      rw [hstart, Option.some.injEq] at hpair
      rw [← hpair]
      exact ⟨_, rfl, h.totals hfit (between_sublist_finRange _ _)⟩

theorem query_requests_le (hfit : ledger.CountsFit) {pair : SummaryPair α}
    (hpair : ledger.query fromText toText = some pair) :
    pair.default.totalRequests.toNat ≤ ledger.counted .default ∧
      pair.fallback.totalRequests.toNat ≤ ledger.counted .fallback := by
  rw [query_eq] at hpair
  split at hpair
  · cases hpair
    exact ⟨Nat.zero_le _, Nat.zero_le _⟩
  · rename_i q _
    have hslots : (between q.index.toNat q.toSec.toNat).Sublist
        (List.finRange processedCapacity) := between_sublist_finRange _ _
    obtain ⟨hdefault, hfallback⟩ := totals_requests hfit hslots
    rw [← Option.some.inj hpair, hdefault, hfallback, counted_default, counted_fallback]
    exact ⟨requests_le_of_sublist hslots, requests_le_of_sublist hslots⟩

end Ledger

/-- The counts lie between those of uninterrupted queries of the two stores. -/
def Reported (first now : Ledger α) (fromText toText : Bytes) (result : SummaryPair α) :
    Prop :=
  ∃ least most, first.query fromText toText = some least ∧
    now.query fromText toText = some most ∧ least.LeRequests result ∧
    result.LeRequests most

/-- Where the loop stands between the store it began with and the store now. -/
structure Query.Scanning (first now : Ledger α) (window : List (Fin processedCapacity))
    (q : Query α) : Prop where
  inBounds : q.InBounds
  default : Scanned (fun slot => (first.processedDefault slot).totalRequests.toNat)
    (fun slot => (now.processedDefault slot).totalRequests.toNat) window
    (between (if q.atFallback then q.index.toNat + 1 else q.index.toNat) q.toSec.toNat)
    q.result.default.totalRequests.toNat
  fallback : Scanned (fun slot => (first.processedFallback slot).totalRequests.toNat)
    (fun slot => (now.processedFallback slot).totalRequests.toNat) window
    (between q.index.toNat q.toSec.toNat) q.result.fallback.totalRequests.toNat

def Query.ScanningFrom (first now : Ledger α) (fromText toText : Bytes) (q : Query α) :
    Prop :=
  ∃ opened : Query α, start first.processedStart fromText toText = some opened ∧
    q.Scanning first now (between opened.index.toNat opened.toSec.toNat)

section Growing

variable {first now later : Ledger α} {fromText toText : Bytes}

theorem Reported.grow {result : SummaryPair α}
    (h : Reported first now fromText toText result) (hgrow : now.Le later)
    (hfit : later.CountsFit) : Reported first later fromText toText result := by
  obtain ⟨least, most, hleast, hmost, hlower, hupper⟩ := h
  obtain ⟨most', hmost', hle⟩ := hgrow.query hfit hmost
  exact ⟨least, most', hleast, hmost', hlower,
    hupper.1.trans hle.1, hupper.2.trans hle.2⟩

theorem Query.ScanningFrom.grow {q : Query α}
    (h : q.ScanningFrom first now fromText toText) (hgrow : now.Le later) :
    q.ScanningFrom first later fromText toText := by
  obtain ⟨opened, hopened, hscan⟩ := h
  exact ⟨opened, hopened, hscan.inBounds, hscan.default.grow hgrow.default,
    hscan.fallback.grow hgrow.fallback⟩

omit [Double α] in
/-- A total that stays below the sum of all buckets is added up without wrapping. -/
theorem scanned_plus {floor : Fin processedCapacity → Nat}
    {buckets : Fin processedCapacity → Summary α}
    {window remaining : List (Fin processedCapacity)} {total : UInt64}
    {slot : Fin processedCapacity}
    (hfit : requests buckets (List.finRange processedCapacity) < 2 ^ 64)
    (hwindow : window.Sublist (List.finRange processedCapacity))
    (h : Scanned floor (fun slot => (buckets slot).totalRequests.toNat) window
      (slot :: remaining) total.toNat)
    (hslot : floor slot ≤ (buckets slot).totalRequests.toNat) :
    Scanned floor (fun slot => (buckets slot).totalRequests.toNat) window remaining
      (total + (buckets slot).totalRequests).toNat := by
  have hread := h.read hslot
  have hlt : total.toNat + (buckets slot).totalRequests.toNat < 2 ^ 64 :=
    hread.le_window.trans_lt ((requests_le_of_sublist hwindow).trans_lt hfit)
  rwa [UInt64.toNat_add, Nat.mod_eq_of_lt hlt]

theorem Query.Scanning.read {window : List (Fin processedCapacity)} {q q' : Query α}
    (hle : first.Le now) (hfit : now.CountsFit)
    (hwindow : window.Sublist (List.finRange processedCapacity))
    (h : q.Scanning first now window)
    (hstep : q.step now = some q') : q'.Scanning first now window := by
  have hbounds := h.inBounds.step hstep
  obtain ⟨hslot, ⟨hat, hindex, rfl⟩ | ⟨hat, rfl⟩⟩ := Query.step_eq_some hstep
  · have hremaining := h.default
    rw [hat, if_neg (by simp), between_cons (UInt64.le_iff_toNat_le.mp hindex) hslot]
      at hremaining
    exact ⟨hbounds, scanned_plus hfit.default hwindow hremaining (hle.default _), h.fallback⟩
  · have hremaining := h.fallback
    have hdefault := h.default
    have hindex := UInt64.le_iff_toNat_le.mp (h.inBounds.atFallback_le hat)
    rw [between_cons hindex hslot] at hremaining
    rw [hat, if_pos rfl] at hdefault
    refine ⟨hbounds, ?_, ?_⟩
    · simpa only [Bool.false_eq_true, if_false, Query.index_succ hslot] using hdefault
    · rw [Query.index_succ hslot]
      exact scanned_plus hfit.fallback hwindow hremaining (hle.fallback _)

theorem Query.Scanning.finish {opened q : Query α} (hle : first.Le now)
    (hfit : now.CountsFit)
    (hopened : start first.processedStart fromText toText = some opened)
    (h : q.Scanning first now (between opened.index.toNat opened.toSec.toNat))
    (hfinished : q.finished = true) : Reported first now fromText toText q.result := by
  obtain ⟨hat, hpast⟩ : q.atFallback = false ∧ ¬ q.index ≤ q.toSec := by
    simpa [Query.finished] using hfinished
  rw [UInt64.le_iff_toNat_le, not_le] at hpast
  have hdefault := h.default
  have hfallback := h.fallback
  rw [hat, if_neg (by simp), between_of_lt hpast] at hdefault
  rw [between_of_lt hpast] at hfallback
  have hslots : (between opened.index.toNat opened.toSec.toNat).Sublist
      (List.finRange processedCapacity) := between_sublist_finRange _ _
  obtain ⟨hfirst, hfirst'⟩ := Ledger.totals_requests (hle.countsFit hfit) hslots
  obtain ⟨hnow, hnow'⟩ := Ledger.totals_requests hfit hslots
  refine ⟨_, _, by rw [Ledger.query_eq, hopened],
    by rw [Ledger.query_eq, hle.start_eq, hopened], ?_, ?_⟩
  · rw [SummaryPair.LeRequests, hfirst, hfirst']
    exact ⟨hdefault.finish.1, hfallback.finish.1⟩
  · rw [SummaryPair.LeRequests, hnow, hnow']
    exact ⟨hdefault.finish.2, hfallback.finish.2⟩

theorem Query.rule_reported (hle : first.Le now) (hfit : now.CountsFit) :
    Query.Rule now fromText toText (Query.ScanningFrom first now fromText toText)
      (Reported first now fromText toText) where
  reversed hstart := by
    have hfirst := hstart
    rw [hle.start_eq] at hfirst
    exact ⟨zero, zero, by rw [Ledger.query_eq, hfirst], by rw [Ledger.query_eq, hstart],
      ⟨Nat.le_refl _, Nat.le_refl _⟩, ⟨Nat.le_refl _, Nat.le_refl _⟩⟩
  opened q hstart := by
    obtain ⟨hat, hresult, hto⟩ := Query.start_spec hstart
    rw [hle.start_eq] at hstart
    refine ⟨q, hstart, ⟨hto, by simp [hat]⟩, ?_, ?_⟩
    · rw [hat, hresult]
      exact Scanned.start _ _ _
    · rw [hresult]
      exact Scanned.start _ _ _
  read q q' := by
    rintro ⟨opened, hopened, hscan⟩ hstep
    exact ⟨opened, hopened, hscan.read hle hfit (between_sublist_finRange _ _) hstep⟩
  finish q := by
    rintro ⟨opened, hopened, hscan⟩ hfinished
    exact hscan.finish hle hfit hopened hfinished

end Growing

theorem Query.rule_inBounds (ledger : Ledger α) (fromText toText : Bytes) :
    Query.Rule ledger fromText toText (fun q => q.InBounds) fun _ => True where
  reversed _ := trivial
  opened _ hstart := Query.start_inBounds hstart
  read _ _ hbounds hstep := hbounds.step hstep
  finish _ _ _ := trivial

namespace Cluster

/-! ## Counts that fit -/

variable {config : Node → Config α} {ledger : Node → Ledger α} {asked : Node}
variable {fromText toText : Bytes} {state next : Cluster α} {action : ClusterAction}

def stores (actions : List ClusterAction) : Nat :=
  actions.countP fun action => !action.ofHandler

theorem stores_store (node : Node) (json : Bytes) (processor : ProcessorResult)
    (timestamp : UInt64) : stores [.store node json processor timestamp] = 1 := rfl

/-- What both instances have counted and so many stores more fit into 64 bits. -/
def CountsFit (ledger : Node → Ledger α) (more : Nat) : Prop :=
  ∀ processor : ProcessorResult, processor.IsProcessor →
    (ledger .a).counted processor + (ledger .b).counted processor + more < 2 ^ 64

omit [Double α] in
theorem CountsFit.pair {more : Nat} (h : CountsFit ledger more) (asked : Node)
    {processor : ProcessorResult} (hprocessor : processor.IsProcessor) :
    (ledger asked).counted processor + (ledger asked.other).counted processor + more <
      2 ^ 64 := by
  have hlt := h processor hprocessor
  cases asked with
  | a => exact hlt
  | b =>
      rw [Nat.add_comm ((ledger .b).counted processor)]
      exact hlt

omit [Double α] in
theorem CountsFit.node {more : Nat} (h : CountsFit ledger more) (node : Node) :
    (ledger node).CountsFit := by
  have hdefault := h.pair node (Or.inl (Eq.refl ProcessorResult.default))
  have hfallback := h.pair node (Or.inr (Eq.refl ProcessorResult.fallback))
  exact ⟨by omega, by omega⟩

theorem Move.ledger_eq {deployment : Deployment α}
    (hmove : Move deployment state action next) (hhandler : action.ofHandler = true) :
    next.ledger = state.ledger := by
  cases hmove with
  | store => simp [ClusterAction.ofHandler] at hhandler
  | _ => rfl

theorem Move.countsFit {deployment : Deployment α}
    (hmove : Move deployment state action next) {more : Nat}
    (h : CountsFit state.ledger (stores [action] + more)) : CountsFit next.ledger more := by
  cases hhandler : action.ofHandler with
  | true =>
      rw [hmove.ledger_eq hhandler]
      simpa [stores, hhandler] using h
  | false =>
      cases hmove with
      | @store stored _ _ _ _ ledger' hledger =>
          intro processor hprocessor
          have hlt := h.pair stored hprocessor
          have hmore := Ledger.storeProcessed_counted hledger hprocessor
          rw [stores_store] at hlt
          cases stored with
          | a =>
              dsimp only [Node.other] at hlt ⊢
              rw [Function.update_self, Function.update_of_ne (by decide)]
              omega
          | b =>
              dsimp only [Node.other] at hlt ⊢
              rw [Function.update_self, Function.update_of_ne (by decide)]
              omega
      | _ => simp [ClusterAction.ofHandler] at hhandler

theorem Move.grows {deployment : Deployment α}
    (hmove : Move deployment state action next)
    (h : CountsFit state.ledger (stores [action])) (node : Node) :
    (state.ledger node).Le (next.ledger node) := by
  cases hmove with
  | @store stored _ _ _ _ ledger' hledger =>
      by_cases hnode : node = stored
      · subst hnode
        simp only [Function.update_self]
        refine Ledger.storeProcessed_le hledger fun side hside => ?_
        have hlt := h.pair node hside
        rw [stores_store] at hlt
        omega
      · simpa [Function.update_of_ne hnode] using Ledger.Le.refl _
  | _ => exact Ledger.Le.refl _

omit [Double α] in
/-- Room for all stores of a run is room for each of them when its turn comes. -/
theorem countsFit_along {move : Cluster α → ClusterAction → Option (Cluster α)}
    (hmove : ∀ {state action next more}, move state action = some next →
      CountsFit state.ledger (stores [action] + more) → CountsFit next.ledger more)
    {actions : List ClusterAction} (hfit : CountsFit state.ledger (stores actions)) :
    Along move (fun state action => CountsFit state.ledger (stores [action])) state
      actions := by
  induction actions generalizing state with
  | nil => trivial
  | cons action actions ih =>
      have hsplit : stores (action :: actions) = stores [action] + stores actions := by
        rw [stores, stores, stores, ← List.countP_append, List.singleton_append]
      rw [hsplit] at hfit
      refine ⟨fun processor hprocessor => ?_, ?_⟩
      · have hlt := hfit processor hprocessor
        omega
      · cases hnext : move state action with
        | none => trivial
        | some next => exact ih (hmove hnext hfit)

/-! ## Whole requests -/

def reply (state : Cluster α) : Option (SummaryPair α) :=
  match state.handlers.head?.map Handler.pc with
  | some (.replied result) => some result
  | _ => none

theorem Move.handlers_eq {deployment : Deployment α}
    (hmove : Move deployment state action next) (hstore : action.ofHandler = false) :
    next.handlers = state.handlers := by
  cases hmove with
  | store => rfl
  | _ => simp [ClusterAction.ofHandler] at hstore

/-- The loops stay inside the buckets. -/
structure Bounded (asked : Node) (fromText toText : Bytes) (state : Cluster α) : Prop where
  linked : Linked asked fromText toText state.handlers
  tracks : ∀ handler ∈ state.handlers,
    handler.Tracks (fun _ q => q.InBounds) fun _ _ => True

theorem step_bounded (h : state.Bounded asked fromText toText)
    (hsucceeds : action.succeeds = true)
    (hstep : step (.mutual config) state action = some next) :
    next.Bounded asked fromText toText := by
  have hmove := step_move hstep
  refine ⟨hmove.linked hsucceeds h.linked, ?_⟩
  cases hhandler : action.ofHandler with
  | true =>
      exact hmove.tracks hhandler (linked_texts h.linked)
        (fun node => Query.rule_inBounds _ _ _) h.tracks
  | false =>
      rw [hmove.handlers_eq hhandler]
      exact h.tracks

theorem initial_tracks {scan : Node → Query α → Prop} {good : Node → SummaryPair α → Prop} :
    ∀ handler ∈ (initial ledger asked fromText toText).handlers,
      handler.Tracks scan good := by
  intro handler hmem
  rw [List.mem_singleton.mp hmem]
  trivial

theorem execute_bounded {actions : List ClusterAction}
    (hrun : execute (step (.mutual config)) (initial ledger asked fromText toText) actions =
      some state)
    (hsucceeds : ∀ action ∈ actions, action.succeeds = true) :
    state.Bounded asked fromText toText :=
  execute_invariant (fun _ _ _ h hsucceeds hstep => step_bounded h hsucceeds hstep)
    ⟨.fresh, initial_tracks⟩ (along_of_forall hsucceeds _) hrun

structure Observed (ledger : Node → Ledger α) (asked : Node) (fromText toText : Bytes)
    (state : Cluster α) : Prop where
  linked : Linked asked fromText toText state.handlers
  fits : CountsFit state.ledger 0
  grows : ∀ node, (ledger node).Le (state.ledger node)
  tracks : ∀ handler ∈ state.handlers, handler.Tracks
    (fun node => Query.ScanningFrom (ledger node) (state.ledger node) fromText toText)
    fun node => Reported (ledger node) (state.ledger node) fromText toText

theorem step_observed (h : state.Observed ledger asked fromText toText)
    (hsucceeds : action.succeeds = true)
    (hfit : CountsFit state.ledger (stores [action]))
    (hstep : step (.mutual config) state action = some next) :
    next.Observed ledger asked fromText toText := by
  have hmove := step_move hstep
  have hnext : CountsFit next.ledger 0 := hmove.countsFit hfit
  refine ⟨hmove.linked hsucceeds h.linked, hnext,
    fun node => (h.grows node).trans (hmove.grows hfit node), ?_⟩
  cases hhandler : action.ofHandler with
  | true =>
      rw [hmove.ledger_eq hhandler]
      exact hmove.tracks hhandler (linked_texts h.linked)
        (fun node => Query.rule_reported (h.grows node) (h.fits.node node)) h.tracks
  | false =>
      rw [hmove.handlers_eq hhandler]
      intro handler hmem
      exact (h.tracks handler hmem).mono
        (fun node _ hscan => hscan.grow (hmove.grows hfit node))
        fun node _ hgood => hgood.grow (hmove.grows hfit node) (hnext.node node)

omit [Double α] in
theorem CountsFit.start {more : Nat} (h : CountsFit ledger more) : CountsFit ledger 0 := by
  intro processor hprocessor
  have hlt := h processor hprocessor
  omega

theorem initial_observed (hfit : CountsFit ledger 0) :
    (initial ledger asked fromText toText).Observed ledger asked fromText toText :=
  ⟨.fresh, hfit, fun _ => Ledger.Le.refl _, initial_tracks⟩

theorem execute_observed {actions : List ClusterAction}
    (hrun : execute (step (.mutual config)) (initial ledger asked fromText toText) actions =
      some state)
    (hsucceeds : ∀ action ∈ actions, action.succeeds = true)
    (hfit : CountsFit ledger (stores actions)) :
    state.Observed ledger asked fromText toText := by
  have hfits : Along (step (.mutual config))
      (fun state action => CountsFit state.ledger (stores [action]))
      (initial ledger asked fromText toText) actions :=
    countsFit_along (fun hstep => (step_move hstep).countsFit) hfit
  exact execute_invariant
    (fun _ _ _ h hguard hstep => step_observed h hguard.1 hguard.2 hstep)
    (initial_observed hfit.start) (along_and (along_of_forall hsucceeds _) hfits) hrun

structure Undisturbed (ledger : Node → Ledger α) (asked : Node) (fromText toText : Bytes)
    (state : Cluster α) : Prop where
  linked : Linked asked fromText toText state.handlers
  ledger_eq : state.ledger = ledger
  tracks : ∀ handler ∈ state.handlers, handler.Tracks
    (fun node q => ∃ fuel, q.run (ledger node) fuel = (ledger node).query fromText toText)
    fun node result => (ledger node).query fromText toText = some result

theorem step_undisturbed (h : state.Undisturbed ledger asked fromText toText)
    (haction : action.succeeds = true ∧ action.ofHandler = true)
    (hstep : step (.mutual config) state action = some next) :
    next.Undisturbed ledger asked fromText toText := by
  have hmove := step_move hstep
  refine ⟨hmove.linked haction.1 h.linked,
    (hmove.ledger_eq haction.2).trans h.ledger_eq, ?_⟩
  refine hmove.tracks haction.2 (linked_texts h.linked) (fun node => ?_) h.tracks
  rw [h.ledger_eq]
  exact Query.rule_exact (ledger node) fromText toText

theorem execute_undisturbed {actions : List ClusterAction}
    (hrun : execute (step (.mutual config)) (initial ledger asked fromText toText) actions =
      some state)
    (hactions : ∀ action ∈ actions, action.succeeds = true ∧ action.ofHandler = true) :
    state.Undisturbed ledger asked fromText toText :=
  execute_invariant (fun _ _ _ h haction hstep => step_undisturbed h haction hstep)
    ⟨.fresh, rfl, initial_tracks⟩ (along_of_forall hactions _) hrun

theorem reply_eq_plus {scan : Node → Query α → Prop}
    {good : Node → SummaryPair α → Prop} {result : SummaryPair α}
    (hlinked : Linked asked fromText toText state.handlers)
    (htracks : ∀ handler ∈ state.handlers, handler.Tracks scan good)
    (hreply : state.reply = some result) :
    ∃ own other, good asked own ∧ good asked.other other ∧ result = own.plus other := by
  obtain ⟨ledger, handlers⟩ := state
  have hfront : ∀ front rest, handlers = front :: rest → front.pc = .replied result := by
    rintro front rest rfl
    simp only [reply, List.head?_cons, Option.map_some] at hreply
    split at hreply
    · rename_i hpc
      cases hreply
      exact Option.some.inj hpc
    · simp at hreply
  cases hlinked with
  | fresh => cases hfront _ _ rfl
  | launched hpc | waiting hpc =>
      cases hfront _ _ rfl
      exact (htracks _ (List.mem_cons_self ..)).elim
  | answered hpc =>
      cases hfront _ _ rfl
      obtain ⟨own, hown, hresult⟩ := htracks _ (List.mem_cons_self ..)
      exact ⟨own, _, hown, htracks _ (List.mem_cons_of_mem _ (List.mem_singleton_self _)),
        hresult⟩

theorem querying_enabled (h : state.Bounded asked fromText toText) (index : Nat)
    {handler : Handler α} {q : Query α} (hhandler : state.handlers[index]? = some handler)
    (hpc : handler.pc = .querying q) :
    ∃ next, step (.mutual config) state (.run index) = some next := by
  have hbounds : q.InBounds := by
    have htracks := h.tracks handler (List.mem_of_getElem? hhandler)
    rw [Handler.Tracks, hpc] at htracks
    exact htracks
  cases hfinished : q.finished with
  | true => simp [step, hhandler, paymentsSummaryHandler, hpc, hfinished]
  | false =>
      obtain ⟨q', hstep⟩ := hbounds.enabled hfinished (state.ledger handler.node)
      simp [step, hhandler, paymentsSummaryHandler, hpc, hstep, hfinished]

theorem Bounded.progress (h : state.Bounded asked fromText toText)
    (hreply : state.reply = none) :
    ∃ action next, action.ofHandler = true ∧ action.succeeds = true ∧
      step (.mutual config) state action = some next := by
  obtain ⟨stores, handlers⟩ := state
  cases h.linked with
  | fresh => exact ⟨.run 0, _, rfl, rfl, rfl⟩
  | launched hpc => exact ⟨.send 0, _, rfl, rfl, rfl⟩
  | @waiting pc serving hpc =>
      cases serving with
      | received => exact ⟨.run 1, _, rfl, rfl, rfl⟩
      | querying q =>
          obtain ⟨next, hnext⟩ := querying_enabled h 1 rfl rfl
          exact ⟨.run 1, next, rfl, rfl, hnext⟩
      | joining result => exact ⟨.run 1, _, rfl, rfl, rfl⟩
      | replied result => exact ⟨.receive 0, _, rfl, rfl, rfl⟩
  | @answered pc result hpc =>
      cases pc with
      | received => exact absurd rfl hpc
      | querying q =>
          obtain ⟨next, hnext⟩ := querying_enabled h 0 rfl rfl
          exact ⟨.run 0, next, rfl, rfl, hnext⟩
      | joining own => exact ⟨.run 0, _, rfl, rfl, rfl⟩
      | replied own => simp [reply] at hreply

/--
Both counts of the result lie between the sums of those of the first two pairs and
the sums of those of the last two, as numbers.
-/
structure SummaryBetween (own other own' other' result : SummaryPair α) : Prop where
  default_ge : own.default.totalRequests.toNat + other.default.totalRequests.toNat ≤
    result.default.totalRequests.toNat
  default_le : result.default.totalRequests.toNat ≤
    own'.default.totalRequests.toNat + other'.default.totalRequests.toNat
  fallback_ge : own.fallback.totalRequests.toNat + other.fallback.totalRequests.toNat ≤
    result.fallback.totalRequests.toNat
  fallback_le : result.fallback.totalRequests.toNat ≤
    own'.fallback.totalRequests.toNat + other'.fallback.totalRequests.toNat

theorem toNat_add_of_le {count count' : UInt64} {most most' : Nat} (h : count.toNat ≤ most)
    (h' : count'.toNat ≤ most') (hlt : most + most' < 2 ^ 64) :
    (count + count').toNat = count.toNat + count'.toNat := by
  rw [UInt64.toNat_add, Nat.mod_eq_of_lt (by omega)]

omit [Double α] in
theorem SummaryBetween.congr {own other own' other' result result' : SummaryPair α}
    (h : SummaryBetween own other own' other' result)
    (hdefault : result'.default.totalRequests = result.default.totalRequests)
    (hfallback : result'.fallback.totalRequests = result.fallback.totalRequests) :
    SummaryBetween own other own' other' result' :=
  ⟨hdefault ▸ h.default_ge, hdefault ▸ h.default_le, hfallback ▸ h.fallback_ge,
    hfallback ▸ h.fallback_le⟩

/-- Where the counts fit, what the two instances report adds up as numbers do. -/
theorem Reported.plus {first now : Node → Ledger α} {own other : SummaryPair α}
    (hfit : CountsFit now 0)
    (hown : Reported (first asked) (now asked) fromText toText own)
    (hother : Reported (first asked.other) (now asked.other) fromText toText other) :
    ∃ own₀ other₀ own₁ other₁, (first asked).query fromText toText = some own₀ ∧
      (first asked.other).query fromText toText = some other₀ ∧
      (now asked).query fromText toText = some own₁ ∧
      (now asked.other).query fromText toText = some other₁ ∧
      SummaryBetween own₀ other₀ own₁ other₁ (own.plus other) := by
  obtain ⟨own₀, own₁, hown₀, hown₁, hlower, hupper⟩ := hown
  obtain ⟨other₀, other₁, hother₀, hother₁, hlower', hupper'⟩ := hother
  refine ⟨own₀, other₀, own₁, other₁, hown₀, hother₀, hown₁, hother₁, ?_⟩
  have hmost := Ledger.query_requests_le (hfit.node asked) hown₁
  have hmost' := Ledger.query_requests_le (hfit.node asked.other) hother₁
  have hroom := hfit.pair asked (Or.inl (Eq.refl ProcessorResult.default))
  have hroom' := hfit.pair asked (Or.inr (Eq.refl ProcessorResult.fallback))
  rw [Nat.add_zero] at hroom hroom'
  have hdefault : (own.default.totalRequests + other.default.totalRequests).toNat =
      own.default.totalRequests.toNat + other.default.totalRequests.toNat :=
    toNat_add_of_le (hupper.1.trans hmost.1) (hupper'.1.trans hmost'.1) hroom
  have hfallback : (own.fallback.totalRequests + other.fallback.totalRequests).toNat =
      own.fallback.totalRequests.toNat + other.fallback.totalRequests.toNat :=
    toNat_add_of_le (hupper.2.trans hmost.2) (hupper'.2.trans hmost'.2) hroom'
  exact ⟨(Nat.add_le_add hlower.1 hlower'.1).trans hdefault.ge,
    hdefault.le.trans (Nat.add_le_add hupper.1 hupper'.1),
    (Nat.add_le_add hlower.2 hlower'.2).trans hfallback.ge,
    hfallback.le.trans (Nat.add_le_add hupper.2 hupper'.2)⟩

/-- Only the counts of what is added to the own report matter for the sums. -/
theorem Reported.plus_of_counts {first now : Node → Ledger α} {own other read : SummaryPair α}
    (hfit : CountsFit now 0)
    (hown : Reported (first asked) (now asked) fromText toText own)
    (hother : Reported (first asked.other) (now asked.other) fromText toText other)
    (hdefault : read.default.totalRequests = other.default.totalRequests)
    (hfallback : read.fallback.totalRequests = other.fallback.totalRequests) :
    ∃ own₀ other₀ own₁ other₁, (first asked).query fromText toText = some own₀ ∧
      (first asked.other).query fromText toText = some other₀ ∧
      (now asked).query fromText toText = some own₁ ∧
      (now asked.other).query fromText toText = some other₁ ∧
      SummaryBetween own₀ other₀ own₁ other₁ (own.plus read) := by
  obtain ⟨own₀, other₀, own₁, other₁, hown₀, hother₀, hown₁, hother₁, hbetween⟩ :=
    Reported.plus hfit hown hother
  exact ⟨own₀, other₀, own₁, other₁, hown₀, hother₀, hown₁, hother₁,
    hbetween.congr (congrArg (own.default.totalRequests + ·) hdefault)
      (congrArg (own.fallback.totalRequests + ·) hfallback)⟩

/--
An external summary request on one of two instances that name each other, under
every interleaving with stores on both.  The other instance is called at most
once and calls nobody; the handlers take a bounded number of steps, and as long
as there is no reply one of them can take the next.  While the counts fit into 64
bits, those of the reply are at least the sums of uninterrupted queries when the
request began and at most those in any state that has the reply, the one that built
it included.  Without stores the reply is the sum of the two queries, whichever
instance is asked.
-/
theorem two_instance_summary (config : Node → Config α) (ledger : Node → Ledger α)
    (asked : Node) (fromText toText : Bytes) {actions : List ClusterAction}
    {state : Cluster α}
    (hrun : execute (step (.mutual config)) (initial ledger asked fromText toText) actions =
      some state)
    (hsucceeds : ∀ action ∈ actions, action.succeeds = true) :
    (state.handlers.length ≤ 2 ∧ ∀ handler ∈ state.handlers.tail,
      handler.node = asked.other ∧ handler.other = .absent) ∧
    actions.countP ClusterAction.ofHandler ≤ 4 * processedCapacity + 8 ∧
    (state.reply = none → ∃ action next, action.ofHandler = true ∧
      action.succeeds = true ∧ step (.mutual config) state action = some next) ∧
    (CountsFit ledger (stores actions) → ∀ result, state.reply = some result →
      ∃ own other own' other', (ledger asked).query fromText toText = some own ∧
        (ledger asked.other).query fromText toText = some other ∧
        (state.ledger asked).query fromText toText = some own' ∧
        (state.ledger asked.other).query fromText toText = some other' ∧
        SummaryBetween own other own' other' result) ∧
    ((∀ action ∈ actions, action.ofHandler = true) → ∀ result,
      state.reply = some result →
      (∃ own other, (ledger asked).query fromText toText = some own ∧
        (ledger asked.other).query fromText toText = some other ∧
        result.IsSum own other) ∧
      ∀ actions' state' result',
        execute (step (.mutual config)) (initial ledger asked.other fromText toText)
          actions' = some state' →
        (∀ action ∈ actions', action.succeeds = true ∧ action.ofHandler = true) →
        state'.reply = some result' → result' = result) := by
  have hbounded := execute_bounded hrun hsucceeds
  refine ⟨?_, handler_steps_le hrun, hbounded.progress, ?_, ?_⟩
  · exact linked_serving hbounded.linked
  · intro hfit result hreply
    have hobserved := execute_observed hrun hsucceeds hfit
    obtain ⟨own, other, hown, hother, rfl⟩ :=
      reply_eq_plus hobserved.linked hobserved.tracks hreply
    exact Reported.plus hobserved.fits hown hother
  · intro hstores result hreply
    have hundisturbed := execute_undisturbed hrun fun action haction =>
      ⟨hsucceeds action haction, hstores action haction⟩
    obtain ⟨own, other, hown, hother, rfl⟩ :=
      reply_eq_plus hundisturbed.linked hundisturbed.tracks hreply
    refine ⟨⟨own, other, hown, hother, SummaryPair.plus_isSum own other⟩, ?_⟩
    intro actions' state' result' hrun' hactions' hreply'
    have hundisturbed' := execute_undisturbed hrun' hactions'
    obtain ⟨own', other', hown', hother', rfl⟩ :=
      reply_eq_plus hundisturbed'.linked hundisturbed'.tracks hreply'
    have hback : asked.other.other = asked := by cases asked <;> rfl
    rw [hback, hown, Option.some.injEq] at hother'
    rw [hother, Option.some.injEq] at hown'
    rw [← hother', ← hown']
    exact SummaryPair.plus_comm other own

/-! ## A request with stores on both instances -/

theorem one_lt_processedCapacity : 1 < processedCapacity := by decide

/-- Each instance has stored one payment in the first second. -/
def paidOnce : Node → Ledger ℚ
  | .a => (Ledger.initial 0).addAt .default ⟨1, one_lt_processedCapacity⟩ (5 / 2)
  | .b => (Ledger.initial 0).addAt .default ⟨1, one_lt_processedCapacity⟩ (23 / 2)

/-- The other instance stores a payment before its bucket is read, the asked one after. -/
def summaryActions : List ClusterAction :=
  [.run 0, .send 0, .run 0, .run 1, .store .b (ascii "\x7b\"amount\":1\x7d") .default 1,
    .store .a (ascii "\x7b\"amount\":1\x7d") .default 1, .run 1, .run 0, .run 0, .run 1,
    .run 1, .run 1, .receive 0, .run 0]

def halfSecond : Bytes := ascii "1970-01-01T00:00:00.500Z"

def wholeSecond : Bytes := ascii "1970-01-01T00:00:01.000Z"

def summaryRun : Option (Cluster ℚ) :=
  execute (step (.mutual fun _ => ⟨1, [], [], 0, 1000, true⟩))
    (initial paidOnce .a halfSecond wholeSecond) summaryActions

theorem summaryRun_isSome : summaryRun.isSome = true := by decide +kernel

theorem paidOnce_fits : CountsFit paidOnce (stores summaryActions) := by
  rintro processor (rfl | rfl) <;> decide +kernel

theorem two_instance_summary_run :
    let state := summaryRun.get summaryRun_isSome
    state.reply = some ⟨⟨3, 15⟩, ⟨0, 0⟩⟩ ∧ state.handlers.length ≤ 2 ∧
      ∃ own other own' other',
        (paidOnce .a).query halfSecond wholeSecond = some own ∧
        (paidOnce .b).query halfSecond wholeSecond = some other ∧
        own = ⟨⟨1, 5 / 2⟩, ⟨0, 0⟩⟩ ∧ other = ⟨⟨1, 23 / 2⟩, ⟨0, 0⟩⟩ ∧
        own' = ⟨⟨2, 7 / 2⟩, ⟨0, 0⟩⟩ ∧ other' = ⟨⟨2, 25 / 2⟩, ⟨0, 0⟩⟩ ∧
        SummaryBetween own other own' other' ⟨⟨3, 15⟩, ⟨0, 0⟩⟩ := by
  intro state
  have hreply : state.reply = some ⟨⟨3, 15⟩, ⟨0, 0⟩⟩ := by decide +kernel
  obtain ⟨⟨hhandlers, -⟩, -, -, hbounds, -⟩ :=
    two_instance_summary _ _ _ _ _ (Option.some_get summaryRun_isSome).symm (by decide)
  obtain ⟨own, other, own', other', hown, hother, hown', hother', hbetween⟩ :=
    hbounds paidOnce_fits _ hreply
  have hstart : (paidOnce .a).query halfSecond wholeSecond = some ⟨⟨1, 5 / 2⟩, ⟨0, 0⟩⟩ ∧
      (paidOnce .b).query halfSecond wholeSecond = some ⟨⟨1, 23 / 2⟩, ⟨0, 0⟩⟩ :=
    ⟨by decide +kernel, by decide +kernel⟩
  have hend : (state.ledger .a).query halfSecond wholeSecond =
        some ⟨⟨2, 7 / 2⟩, ⟨0, 0⟩⟩ ∧
      (state.ledger .b).query halfSecond wholeSecond = some ⟨⟨2, 25 / 2⟩, ⟨0, 0⟩⟩ :=
    ⟨by decide +kernel, by decide +kernel⟩
  exact ⟨hreply, hhandlers, own, other, own', other', hown, hother,
    Option.some.inj (hown.symm.trans hstart.1), Option.some.inj (hother.symm.trans hstart.2),
    Option.some.inj (hown'.symm.trans hend.1), Option.some.inj (hother'.symm.trans hend.2),
    hbetween⟩

/-- One instance has counted as much as 64 bits hold, the other one payment. -/
def fullCount : Node → Ledger ℚ
  | .a => { Ledger.initial 0 with
      processedDefault := fun _ => ⟨18446744073709551615, 1⟩ }
  | .b => { Ledger.initial 0 with processedDefault := fun _ => ⟨1, 1⟩ }

/-- The steps of the request alone. -/
def requestActions : List ClusterAction := summaryActions.filter ClusterAction.ofHandler

theorem summary_count_wraps :
    ∃ (state : Cluster ℚ) (result own other : SummaryPair ℚ),
      execute (step (.mutual fun _ => ⟨1, [], [], 0, 1000, true⟩))
        (initial fullCount .a halfSecond wholeSecond) requestActions = some state ∧
      (∀ action ∈ requestActions, action.succeeds = true) ∧
      state.reply = some result ∧
      (fullCount .a).query halfSecond wholeSecond = some own ∧
      (fullCount .b).query halfSecond wholeSecond = some other ∧
      own.default.totalRequests.toNat + other.default.totalRequests.toNat = 2 ^ 64 ∧
      result.default.totalRequests = 0 := by
  have hrun : (execute (step (.mutual fun _ => ⟨1, [], [], 0, 1000, true⟩))
      (initial fullCount .a halfSecond wholeSecond) requestActions).bind reply =
        some ⟨⟨0, 2⟩, ⟨0, 0⟩⟩ := by decide +kernel
  obtain ⟨state, hstate, hreply⟩ := Option.bind_eq_some_iff.mp hrun
  exact ⟨state, ⟨⟨0, 2⟩, ⟨0, 0⟩⟩, ⟨⟨18446744073709551615, 1⟩, ⟨0, 0⟩⟩, ⟨⟨1, 1⟩, ⟨0, 0⟩⟩,
    hstate, by decide, hreply, by decide +kernel, by decide +kernel, rfl, rfl⟩

end Cluster

end RinhaBackend
