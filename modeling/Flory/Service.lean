import Flory.Database

/-!
# The Coordinator Service

A Coordinator worker as a program that issues one database transaction or one tool call at
a time. `Pc` is where the worker stands, with the data it holds there; `advance` performs
the next transaction and moves on, and `answered` takes the response of a tool call. The
control flow is that of `ProcessOne`, `processRegular`, `processPivot`, `confirmScope`,
`cancelScope`, `executeWithRetry` and `Sweep`; between two transactions a worker can be
interrupted by anything.

An error of the database or of the transport ends the pass, as the service's `Run` loop
logs it and starts over, except where the source goes on with the next scope.
-/

namespace Flory

open Except (error)

/-! ### Items, calls and executions -/

/-- The decoded tool payload of a work item; a barrier has none and reads as an empty
plain call. -/
def WorkItem.tool (item : WorkItem) : ToolPayload :=
  match item.payload with
  | .tool payload => payload
  | _ => { tool := "", txn := { effectClass := .none, mode := .plain } }

/-- A work item that belongs to a scope. -/
structure ScopedItem where
  item : WorkItem
  scopeId : ScopeId
  inScope : item.scopeId = some scopeId

/-- `brackets`: whether a successful call of this item seals a transaction bracket that is
keyed by its idempotency key. -/
def WorkItem.brackets (item : WorkItem) : Bool :=
  item.scopeId.isSome && item.tool.txn.idempotencyKey != "" && item.tool.txn.mode.isTry

/-- `cancelKey`: the one idempotency key a scope's cancellation ever uses. -/
def cancelKey (scopeId : ScopeId) : String :=
  "scope:" ++ toString scopeId ++ ":cancel"

/-- What a worker goes on with when a cancellation it runs is over. -/
inductive Resume
  | requests (rest : List (RunId × ScopeId))
  | expired (rest : List (RunId × ScopeId))
  | stuck (rest : List ScopeCancellation)

/-- A run of `cancelScope`. -/
structure Cancellation extends ScopeCancellation where
  resume : Resume

/-- One completed adapter exchange with the evidence row it left behind; the id is zero
when no attempt was made. -/
structure Execution where
  response : OperationResponse
  attempts : ℕ
  attemptId : ℕ

/-- The places from which `executeWithRetry` is called, with what the caller holds. -/
inductive Site
  | regular (item : WorkItem)
  | pivot (item : ScopedItem)
  | status (item : ScopedItem) (pivot : Execution)
  | confirm (item : ScopedItem) (bracket : SealedBracket) (rest : List SealedBracket)
  | inverse (cancellation : Cancellation) (member : CancelMember)

/-- One adapter request: what to send, what authorises it, and how often. -/
structure Call where
  runId : RunId
  scopeId : Option ScopeId
  vertexId : VertexId
  operation : Operation
  leaseVertexId : VertexId
  leaseSource : LeaseSource
  tool : String
  idempotencyKey : String
  input : Json
  policy : RetryPolicy

/-- The call a site makes. -/
def Site.call : Site → Call
  | .regular item =>
    { runId := item.runId, scopeId := item.scopeId, vertexId := item.vertexId
      operation := .call, leaseVertexId := item.vertexId, leaseSource := .workQueue
      tool := item.tool.tool, idempotencyKey := item.tool.txn.idempotencyKey
      input := item.tool.input, policy := item.tool.retryPolicy }
  | .pivot ⟨item, _, _⟩ =>
    { runId := item.runId, scopeId := item.scopeId, vertexId := item.vertexId
      operation := .pivot, leaseVertexId := item.vertexId, leaseSource := .workQueue
      tool := item.tool.tool, idempotencyKey := item.tool.txn.idempotencyKey
      input := item.tool.input, policy := item.tool.retryPolicy }
  | .status ⟨item, _, _⟩ _ =>
    { runId := item.runId, scopeId := item.scopeId, vertexId := item.vertexId
      operation := .status, leaseVertexId := item.vertexId, leaseSource := .workQueue
      tool := item.tool.txn.statusTool, idempotencyKey := item.tool.txn.idempotencyKey
      input := item.tool.input, policy := item.tool.retryPolicy }
  | .confirm ⟨item, _, _⟩ bracket _ =>
    { runId := item.runId, scopeId := item.scopeId, vertexId := bracket.vertexId
      operation := .confirm, leaseVertexId := item.vertexId, leaseSource := .workQueue
      tool := bracket.confirmTool, idempotencyKey := bracket.idempotencyKey
      input := bracket.confirmInput, policy := bracket.retryPolicy }
  | .inverse cancellation member =>
    { runId := cancellation.runId, scopeId := some cancellation.scopeId
      vertexId := member.vertexId, operation := .inverse
      leaseVertexId := member.vertexId, leaseSource := .cancelMember
      tool := member.inverseTool, idempotencyKey := member.idempotencyKey
      input := member.inverseInput, policy := member.retryPolicy }

/-- The evidence a call records for its attempt of this number. -/
def Call.start (call : Call) (attemptNo : ℕ) : AttemptStart where
  runId := call.runId
  scopeId := call.scopeId
  vertexId := call.vertexId
  operation := call.operation
  attemptNo := attemptNo
  tool := call.tool
  idempotencyKey := call.idempotencyKey
  leaseVertexId := call.leaseVertexId
  leaseSource := call.leaseSource

/-! ### Program points -/

/-- Where a worker stands: each point is about to issue the transaction it is named after,
except `idle` and `calling`, which wait for the loop and for the tool. -/
inductive Pc
  | idle
  | requests (rest : List (RunId × ScopeId))
  | claim
  | barrier (item : WorkItem)
  | ensure (item : ScopedItem)
  | owner (item : WorkItem)
  | start (item : WorkItem)
  | complete (item : WorkItem)
  | refuse (item : WorkItem) (reason : String) (attempts : ℕ)
  | record (site : Site) (attempt : ℕ)
  | calling (site : Site) (attempt : ℕ) (attemptId : ℕ)
  | resolve (site : Site) (attempt : ℕ) (attemptId : ℕ) (response : OperationResponse)
  | retry (site : Site) (attempt : ℕ) (response : OperationResponse)
  | fail (item : WorkItem) (result : Execution)
  | succeed (item : WorkItem) (result : Execution) (deadline : Time)
  | admitPivot (item : ScopedItem)
  | release (item : ScopedItem)
  | occurred (item : ScopedItem) (result : Execution)
  | suspendPivot (item : ScopedItem) (result : Execution)
  | pass (item : ScopedItem) (result : Execution)
  | absent (item : ScopedItem) (result : Execution) (detail : String)
  | reopen (item : ScopedItem) (result : Execution) (detail : String)
  | failAbsent (item : ScopedItem) (result : Execution) (detail : String)
  | sealed (item : ScopedItem)
  | confirmed (item : ScopedItem) (bracket : SealedBracket) (rest : List SealedBracket)
  | suspendConfirm (item : ScopedItem)
  | commit (item : ScopedItem)
  | claimMember (cancellation : Cancellation)
  | completeMember (cancellation : Cancellation) (member : CancelMember)
  | suspendCancel (cancellation : Cancellation) (member : CancelMember)
  | completeCancel (cancellation : Cancellation)
  | expired (rest : List (RunId × ScopeId))
  | stuck

/-- `cancelScope` for the next stuck cancellation, or the end of the sweep. -/
def Pc.resumeStuck : List ScopeCancellation → Pc
  | [] => .idle
  | cancellation :: rest => .claimMember ⟨cancellation, .stuck rest⟩

/-- Where a worker goes on when `cancelScope` returns without an error. -/
def Resume.done : Resume → Pc
  | .requests _ => .idle
  | .expired rest => .expired rest
  | .stuck rest => .resumeStuck rest

/-- Where a worker goes on when `cancelScope` returns an error. -/
def Resume.failed : Resume → Pc
  | .requests rest => .requests rest
  | .expired rest => .expired rest
  | .stuck rest => .resumeStuck rest

/-- Where a worker goes on when `executeWithRetry` returns an error. -/
def Site.failed : Site → Pc
  | .inverse cancellation _ => cancellation.resume.failed
  | _ => .idle

/-! ### Local decisions between transactions -/

/-- A draft of an event about a work item. -/
def vertexEvent (item : WorkItem) (body : EventBody) : EventDraft where
  body := body
  vertexId := some item.vertexId
  scopeId := item.scopeId

/-- What a call comes to when its policy allows no attempt at all. -/
def exhausted (policy : RetryPolicy) : Execution where
  response := { outcome := .permanentFailure, error := "retry policy exhausted" }
  attempts := policy.maxAttempts
  attemptId := 0

/-- The head of the retry loop: the first attempt, or nothing when none is allowed. -/
def Site.enter (site : Site) (finish : Execution → Pc) : Pc :=
  if 1 ≤ site.call.policy.maxAttempts then .record site 1 else finish (exhausted site.call.policy)

/-- `failAbsentPivot`, from its first transaction on. -/
def failAbsentPivot (item : ScopedItem) (result : Execution) (detail : String) : Pc :=
  if result.attemptId ≠ 0 then .absent item result detail else .reopen item result detail

/-- `processPivot` once the pivot's outcome is settled. -/
def settlePivot (item : ScopedItem) (result : Execution) : Pc :=
  match result.response.outcome with
  | .succeeded => .pass item result
  | .unknown => .suspendPivot item result
  | _ => failAbsentPivot item result result.response.error

/-- `processPivot` after the status query. -/
def finishStatus (item : ScopedItem) (pivot status : Execution) : Pc :=
  if status.response.outcome = .succeeded then
    match status.response.result.field? "occurred" with
    | some (.bool true) => .occurred item pivot
    | some (.bool false) => failAbsentPivot item pivot "pivot status confirmed absence"
    | _ => settlePivot item { pivot with response :=
        { outcome := .unknown, error := "pivot status response omitted boolean occurred" } }
  else settlePivot item { pivot with response :=
    { outcome := .unknown, error := "pivot status query did not establish an outcome: " ++
        status.response.error } }

/-- `processPivot` after the pivot call: an unknown outcome is put to the status tool. -/
def finishPivot (item : ScopedItem) (result : Execution) : Pc :=
  if result.response.outcome = .unknown ∧ item.item.tool.txn.statusTool ≠ "" then
    (Site.status item result).enter (finishStatus item result)
  else settlePivot item result

/-- `processRegular` after the call. The deadline of a try runs from here. -/
def finishRegular (item : WorkItem) (now : Time) (result : Execution) : Pc :=
  if result.response.outcome = .succeeded then
    .succeed item result (now + item.tool.txn.tryTimeoutS * 1000)
  else .fail item result

/-- `confirmScope` after one confirm. -/
def finishConfirm (item : ScopedItem) (bracket : SealedBracket) (rest : List SealedBracket)
    (result : Execution) : Pc :=
  if result.response.outcome = .succeeded then .confirmed item bracket rest
  else .suspendConfirm item

/-- `cancelScope` after one inverse operation. -/
def finishInverse (cancellation : Cancellation) (member : CancelMember) (result : Execution) :
    Pc :=
  if result.response.outcome = .succeeded then .completeMember cancellation member
  else .suspendCancel cancellation member

/-- Where the result of a call is taken. -/
def Site.finish (now : Time) : Site → Execution → Pc
  | .regular item => finishRegular item now
  | .pivot item => finishPivot item
  | .status item result => finishStatus item result
  | .confirm item bracket rest => finishConfirm item bracket rest
  | .inverse cancellation member => finishInverse cancellation member

/-- The loop of `confirmScope`: the next confirm, or the commit. -/
def confirmNext (item : ScopedItem) : List SealedBracket → Pc
  | [] => .commit item
  | bracket :: rest => (Site.confirm item bracket rest).enter (finishConfirm item bracket rest)

/-- `processRegular`, from its first transaction on. -/
def processRegular (item : WorkItem) : Pc :=
  if item.brackets then .owner item else .start item

/-- `ProcessOne` after a claim. -/
def dispatch (item : WorkItem) : Pc :=
  match item.payload with
  | .barrier => .barrier item
  | _ =>
    match h : item.scopeId with
    | some scopeId => .ensure ⟨item, scopeId, h⟩
    | none =>
      if item.tool.txn.effectClass = .irreversible then
        .refuse item "an irreversible call has no transaction scope to be admitted into as its pivot" 0
      else processRegular item

/-- `ProcessOne` once the scope exists. -/
def dispatchScoped (item : ScopedItem) : Pc :=
  if item.item.tool.txn.effectClass = .irreversible then .admitPivot item
  else processRegular item.item

/-- The rest of `executeWithRetry` after an attempt's answer is on record: stop on
anything but a retryable failure, and on the last attempt. -/
def afterAttempt (now : Time) (site : Site) (attempt attemptId : ℕ)
    (response : OperationResponse) : Pc :=
  if response.outcome ≠ .retryableFailure ∨ attempt = site.call.policy.maxAttempts then
    site.finish now ⟨response, attempt, attemptId⟩
  else .retry site attempt response

/-- The evidence outcome of a response; an unknown one is left unresolved. -/
def OperationOutcome.evidence : OperationOutcome → Option AttemptOutcome
  | .succeeded => some .succeeded
  | .retryableFailure => some .retryableFailure
  | .permanentFailure => some .permanentFailure
  | .unknown => none

/-- A worker whose tool call was answered: a definitive outcome is written back first. -/
def answered (now : Time) (site : Site) (attempt attemptId : ℕ) (response : OperationResponse) :
    Pc :=
  match response.outcome.evidence with
  | some _ => .resolve site attempt attemptId response
  | none => afterAttempt now site attempt attemptId response

/-! ### What each transaction appends -/

/-- A non-empty string as an optional payload field. -/
def optionalString (value : String) : Option String :=
  if value = "" then none else some value

/-- The `txn/try` payload of a successful call. -/
def tryPayload (item : WorkItem) (deadline : Time) : TryPayload where
  idempotencyKey := item.tool.txn.idempotencyKey
  deadlineAt := deadline
  input := item.tool.input
  retryPolicy := item.tool.retryPolicy
  toolViewDigest := optionalString item.tool.toolViewDigest
  confirmTool := optionalString item.tool.txn.confirmTool
  cancelTool := optionalString item.tool.txn.cancelTool
  compensateTool := optionalString item.tool.txn.compensateTool
  confirmInput := item.tool.txn.confirmInput
  cancelInput := item.tool.txn.cancelInput
  compensateInput := item.tool.txn.compensateInput

/-- What a successful call appends: its try, when the call is one, and its success. -/
def successEvents (item : WorkItem) (result : Execution) (deadline : Time) : List EventDraft :=
  (if item.scopeId.isSome && item.tool.txn.mode.isTry then
      [vertexEvent item (.txnTry (tryPayload item deadline))] else []) ++
    [vertexEvent item (.vertexSucceeded ⟨some result.attempts, result.response.result⟩)]

/-- What `refuse` appends. -/
def refusalEvents (item : WorkItem) (reason : String) (attempts : ℕ) : List EventDraft :=
  (if attempts = 0 then [vertexEvent item (.vertexStarted (.attempt 1))] else []) ++
    [vertexEvent item (.vertexFailed ⟨attempts, reason, .response .permanentFailure⟩)]

/-- What a failed call appends. -/
def failureEvent (item : WorkItem) (result : Execution) : EventDraft :=
  vertexEvent item (.vertexFailed
    ⟨result.attempts, result.response.error, .response result.response.outcome⟩)

/-- The unguarded state change of a scope. -/
def stateEvent (scopeId : ScopeId) (state : ScopeState) : EventDraft :=
  scopeEvent scopeId { state := state }

/-- The confirm of a bracket. -/
def confirmEvent (scopeId : ScopeId) (bracket : SealedBracket) : EventDraft where
  body := .txnConfirm bracket.idempotencyKey
  vertexId := some bracket.vertexId
  scopeId := some scopeId

/-- The announcement of another attempt; it names no scope. -/
def retriedEvent (call : Call) (attempt : ℕ) (err : String) : EventDraft where
  body := .vertexRetried attempt err
  vertexId := some call.vertexId

/-- The refusal of a call whose key names another vertex's bracket. -/
def ownedMessage (item : WorkItem) (owner : VertexId) : String :=
  "idempotency key " ++ item.tool.txn.idempotencyKey ++ " already names the bracket of vertex " ++
    toString owner

/-- The refusal of a call that ran while another try took its key. -/
def conflictMessage (item : WorkItem) : String :=
  "idempotency key " ++ item.tool.txn.idempotencyKey ++
    " was bracketed by another try while this one ran; its effect is unrecorded and needs reconciliation"

/-- `IsBracketKeyConflict`. -/
def isBracketKeyConflict : DbError → Bool
  | .uniqueViolation name => name == "txn_bracket_pkey"
  | _ => false

/-! ### The machine -/

/-- The two durations a worker is started with, in milliseconds; a lease is at least one
second long. -/
structure Config where
  leaseMs : ℕ := 30000
  pollMs : ℕ := 100
  second_le_lease : 1000 ≤ leaseMs := by decide

/-- The configuration the service starts with when none is given. -/
abbrev Config.standard : Config :=
  {}

/-- A worker after a statement: on with its new database, or after the error with the old
one. -/
def proceed (db : Db) (result : Except DbError Db) (next : Pc) (failed : DbError → Pc) :
    Db × Pc :=
  match result with
  | .ok db' => (db', next)
  | .error err => (db, failed err)

/-- A worker after a statement that returns a value. -/
def proceedWith {α : Type} (db : Db) (result : Except DbError (α × Db)) (next : α → Pc)
    (failed : DbError → Pc) : Db × Pc :=
  match result with
  | .ok (value, db') => (db', next value)
  | .error err => (db, failed err)

/-- An append by the Coordinator. Taking the scope row first, as `append_scope_events`
does, orders locks and changes nothing in a serial execution. -/
def append (db : Db) (runId : RunId) (drafts : List EventDraft) : Except DbError Db :=
  appendEvents coordinator runId drafts db

/-- `requestCancel`, up to its own return: a cancellation that was decided on is run. -/
def afterDecision (runId : RunId) (scopeId : ScopeId) (resume : Resume) (otherwise : Pc) :
    CancelDecision → Pc
  | .requested | .duplicate => .claimMember ⟨⟨runId, scopeId, cancelKey scopeId⟩, resume⟩
  | _ => otherwise

/-- `processCancelRequest` after a decision: a deferred request is passed over, any other
decision uses up the pass. -/
def afterRequest (runId : RunId) (scopeId : ScopeId) (rest : List (RunId × ScopeId)) :
    CancelDecision → Pc
  | .deferred => .requests rest
  | decision => afterDecision runId scopeId (.requests rest) .idle decision

/-- The end of a pass on an error. -/
def stop (_ : DbError) : Pc :=
  .idle

/-- The next transaction of worker `me`; nothing for a worker that waits for the loop or
for a tool. -/
def advance (cfg : Config) (me : WorkerId) (db : Db) : Pc → Option (Db × Pc)
  | .idle => none
  | .calling _ _ _ => none
  | .requests [] => some (db, .claim)
  | .requests ((runId, scopeId) :: rest) => some <| proceedWith db
      (requestScopeCancel db runId scopeId (cancelKey scopeId) "engine request" .engine)
      (afterRequest runId scopeId rest) (fun _ => .requests rest)
  | .claim => some <|
      match claimReadyWork db me cfg.leaseMs with
      | some (item, db') => (db', dispatch item)
      | none => (db, .idle)
  | .barrier item => some <| proceed db
      (append db item.runId [vertexEvent item (.vertexStarted .barrierPhase),
        vertexEvent item (.vertexSucceeded ⟨none, .obj [("barrier", .str "sealed")]⟩)])
      (.complete item) stop
  | .ensure item => some <| proceedWith db (ensureTxnScope db item.item.runId item.scopeId)
      (fun _ => dispatchScoped item) stop
  | .owner item => some <|
      match bracketOwner db item.tool.txn.idempotencyKey with
      | none => (db, .start item)
      | some owner =>
        if owner = item.vertexId then (db, .complete item)
        else (db, .refuse item (ownedMessage item owner) 0)
  | .start item => some <| proceed db
      (append db item.runId [vertexEvent item (.vertexStarted (.attempt 1))])
      ((Site.regular item).enter (finishRegular item db.now)) stop
  | .complete item => some <| proceed db (completeWork db me item.vertexId) .idle stop
  | .refuse item reason attempts => some <| proceed db
      (append db item.runId (refusalEvents item reason attempts)) (.complete item) stop
  | .record site attempt => some <| proceedWith db
      (recordAttemptStart db me (site.call.start attempt))
      (fun attemptId => .calling site attempt attemptId) (fun _ => site.failed)
  | .resolve site attempt attemptId response => some
      (match response.outcome.evidence with
        | some outcome => resolveAttempt db attemptId outcome
        | none => db,
        afterAttempt db.now site attempt attemptId response)
  | .retry site attempt response => some <| proceed db
      (append db site.call.runId [retriedEvent site.call (attempt + 1) response.error])
      (.record site (attempt + 1)) (fun _ => site.failed)
  | .fail item result => some <| proceed db
      (append db item.runId [failureEvent item result]) (.complete item) stop
  | .succeed item result deadline => some <| proceed db
      (append db item.runId (successEvents item result deadline)) (.complete item)
      (fun err => if isBracketKeyConflict err then
        .refuse item (conflictMessage item) result.attempts else .idle)
  | .admitPivot item => some <| proceedWith db
      (admitPivot db item.item.runId item.scopeId item.item.vertexId)
      (fun admitted => if admitted then (Site.pivot item).enter (finishPivot item)
        else .release item) stop
  | .release item => some <| proceed db
      (releaseWork db me item.item.vertexId cfg.pollMs) .idle stop
  | .occurred item result => some
      (resolveAttempt db result.attemptId .succeeded, .pass item { result with response :=
          { outcome := .succeeded, result := .obj [("status_confirmed", .bool true)] } })
  | .suspendPivot item result => some <| proceed db
      (append db item.item.runId
        [failureEvent item.item result, stateEvent item.scopeId .suspended])
      (.complete item.item) stop
  | .pass item result => some <| proceed db
      (append db item.item.runId [vertexEvent item.item .txnPivotPassed, vertexEvent item.item
        (.vertexSucceeded ⟨some result.attempts, result.response.result⟩)])
      (.sealed item) stop
  | .absent item result detail => some
      (resolveAttempt db result.attemptId .confirmedAbsent, .reopen item result detail)
  | .reopen item result detail => some <| proceed db
      (resolvePivotAbsent db item.item.runId item.scopeId item.item.vertexId)
      (.failAbsent item result detail) stop
  | .failAbsent item result detail => some <| proceed db
      (append db item.item.runId
        [vertexEvent item.item (.vertexFailed ⟨result.attempts, detail, .confirmedAbsent⟩)])
      (.complete item.item) stop
  | .sealed item => some
      (db, confirmNext item (sealedBrackets db item.item.runId item.scopeId))
  | .confirmed item bracket rest => some <| proceed db
      (append db item.item.runId [confirmEvent item.scopeId bracket])
      (confirmNext item rest) stop
  | .suspendConfirm item => some <| proceed db
      (append db item.item.runId [stateEvent item.scopeId .suspended])
      (.complete item.item) stop
  | .commit item => some <| proceed db
      (append db item.item.runId [stateEvent item.scopeId .committed])
      (.complete item.item) stop
  | .claimMember c => some <|
      match claimCancelMember db me c.runId c.scopeId cfg.leaseMs with
      | some (member, db') =>
        (db', (Site.inverse c member).enter (finishInverse c member))
      | none => (db, .completeCancel c)
  | .completeMember c member => some <| proceed db
      (completeCancelMember db me c.runId c.scopeId member.vertexId)
      (.claimMember c) (fun _ => c.resume.failed)
  | .suspendCancel c _ => some <| proceed db
      (append db c.runId [stateEvent c.scopeId .suspended]) c.resume.done
      (fun _ => c.resume.failed)
  | .completeCancel c => some <| proceed db
      (append db c.runId [cancelEvent c.scopeId c.idempotencyKey .completed ""])
      c.resume.done (fun _ => c.resume.failed)
  | .expired [] => some (db, .stuck)
  | .expired ((runId, scopeId) :: rest) => some <| proceedWith db
      (requestScopeCancel db runId scopeId (cancelKey scopeId) "sealed try timeout" .timeout)
      (afterDecision runId scopeId (.expired rest) (.expired rest)) (fun _ => .expired rest)
  | .stuck => some (db, .resumeStuck (stuckCancellations db))

end Flory
