import Mathlib.Data.List.Sort
import Flory.Dag
import Flory.Schema

/-!
# The Event Log

Appending to `run_event_log` and everything the append triggers do: the two checks that
run before the row is stored (`checkNoCancelAfterPivot`, `checkEventOwnership`), and the
five projections that run after it, in the order of their trigger names
(`dequeueShadowedWork`, `registerEngineCancelRequest`, `enqueueVertexWork`,
`fenceOnScopedFailure`, `applyTxnProjection`).

A trigger that raises fails the statement, so `insertEvent` and `appendEvents` return
either an error or the whole new database.
-/

namespace Flory

open Except (error ok)

/-! ### Ownership -/

/-- Who may append an event type. -/
inductive EventOwner
  | engine
  | executor
  | coordinator
  deriving DecidableEq, Repr

/-- `flory_event_owner`: the owner of an event type, and nothing for an unknown one. -/
def floryEventOwner : EventBody → Option EventOwner
  | .runStart | .runEnd | .runEndSeed | .replanBoundary _ | .replanCancelRequested _ => some .engine
  | .forkCreated | .budgetCharged | .vertexCreated _ => some .engine
  | .subgraph _ | .subgraphShadowed _ => some .engine
  | .vertexStarted _ | .vertexSucceeded _ | .vertexFailed _ | .vertexRetried _ _ =>
    some .executor
  | .txnScope _ | .txnTry _ | .txnPivotPassed | .txnConfirm _ | .txnCancel _ =>
    some .coordinator
  -- A published template is an event of the configuration stream only.
  | .ruleTemplatePublished | .unknown _ => none

/-- `flory_executor_class`: who executes a vertex, derived from its payload and scope. -/
def floryExecutorClass : VertexPayload → Option ScopeId → ExecutorClass
  | .router, _ => .router
  | .planner, _ => .orchestrator
  | .tool payload, none =>
    if payload.txn.effectClass = .none then .orchestrator else .coordinator
  | .tool _, some _ => .coordinator
  | .barrier, _ => .coordinator

/-- The executor class as error messages spell it. -/
def ExecutorClass.name : ExecutorClass → String
  | .router => "router"
  | .orchestrator => "orchestrator"
  | .coordinator => "coordinator"

/-- `flory_vertex_executor_class`: the class of an already created vertex. -/
def floryVertexExecutorClass (db : Db) (runId : RunId) (vertexId : Option VertexId) :
    Option ExecutorClass := do
  let vertexId ← vertexId
  let created ← (db.createdOf runId vertexId).head?
  match created.body with
  | .vertexCreated payload => some (floryExecutorClass payload created.scopeId)
  | _ => none

/-- A possibly null UUID in an error message. -/
def showId : Option ℕ → String
  | none => "<NULL>"
  | some id => toString id

/-- Whether a service role owns an executor class. -/
def SessionUser.owns : SessionUser → ExecutorClass → Bool
  | .engineRole, .orchestrator => true
  | .engineRole, .router => true
  | .coordinatorRole, .coordinator => true
  | _, _ => false

/-- The refusal of an execution event by the role that does not execute the vertex. -/
def foreignVertexMessage (user : SessionUser) (e : Event) (cls : ExecutorClass) : String :=
  match user with
  | .engineRole => "engine_role cannot append " ++ e.body.eventType ++
      " for the coordinator-executed vertex " ++ showId e.vertexId
  | .coordinatorRole => "coordinator_role cannot append " ++ e.body.eventType ++ " for the " ++
      cls.name ++ "-executed vertex " ++ showId e.vertexId

/-- The owner name a service role answers to. -/
def SessionUser.owner : SessionUser → EventOwner
  | .engineRole => .engine
  | .coordinatorRole => .coordinator

/-- `check_event_ownership`: a row is stored only by the service that owns it. -/
def checkEventOwnership (session : Session) (db : Db) (e : Event) : Except DbError Unit :=
  if floryEventOwner e.body = none ∧ e.ignorable = false then
    error (.raised ("unknown non-ignorable event type " ++ e.body.eventType))
  else if session.inheritCopy then
    ok ()
  else if floryEventOwner e.body = some .executor then
    match floryVertexExecutorClass db e.runId e.vertexId with
    | none => error (.raised ("cannot append " ++ e.body.eventType ++ " for vertex " ++
        showId e.vertexId ++ " before its vertex/created"))
    | some cls =>
      if session.user.owns cls then ok ()
      else error (.raised (foreignVertexMessage session.user e cls))
  else if floryEventOwner e.body = some session.user.owner then
    ok ()
  else
    error (.raised (session.user.name ++ " cannot append event type " ++ e.body.eventType))

/-- The scope states in which `txn/cancel` is refused. -/
def ScopeState.refusesCancel : ScopeState → Bool
  | .pivotInflight | .pivotPassed | .committed | .suspended => true
  | _ => false

/-- Whether the log of a run holds an inherited `txn/try` of a scope. -/
def inheritedTry (db : Db) (runId : RunId) (scopeId : Option ScopeId) : Bool :=
  db.log.any fun e => e.runId == runId && e.scopeId == scopeId && scopeId.isSome &&
    e.inherited &&
    match e.body with
    | .txnTry _ => true
    | _ => false

/-- `check_no_cancel_after_pivot`: no cancellation of a scope whose pivot was admitted, and
no confirm or cancel of an inherited bracket. -/
def checkNoCancelAfterPivot (session : Session) (db : Db) (e : Event) : Except DbError Unit :=
  if session.inheritCopy then
    ok ()
  else
    match e.body with
    | .txnCancel _ =>
      match (e.scopeId.bind (db.scopeOf e.runId)).map ScopeRow.state with
      | some state =>
        if state.refusesCancel then
          error (.raised ("cannot cancel scope " ++ showId e.scopeId ++ " in state " ++
            state.name))
        else inherited
      | none => inherited
    | .txnConfirm _ => inherited
    | _ => ok ()
where
  /-- The provenance half of the check. -/
  inherited : Except DbError Unit :=
    if inheritedTry db e.runId e.scopeId then
      error (.raised ("fork cannot mutate inherited transaction bracket for scope " ++
        showId e.scopeId))
    else ok ()

/-! ### Shadowing -/

/-- The scopes of a run that own one of the given vertices and are neither cancelled nor
committed, oldest first. -/
def unclosedScopes (db : Db) (runId : RunId) (vertexIds : List VertexId) :
    List (ScopeId × ScopeRow) :=
  (db.scopes.rowsWhere fun scopeId row =>
    row.runId == runId && row.state != .cancelled && row.state != .committed &&
      vertexIds.any fun v => (db.createdOf runId v).any fun e => e.scopeId == some scopeId)
    |>.insertionSort fun a b => a.2.openedSeq ≤ b.2.openedSeq

/-- The queued vertices among the given ones that some worker has claimed. -/
def leasedWork (db : Db) (vertexIds : List VertexId) : List VertexId :=
  (db.queue.rowsWhere fun v row => vertexIds.contains v && row.claimedBy.isSome).map Prod.fst

/-- `dequeue_shadowed_work`: shadowed vertices leave the queue, and a shadow is refused
while a scope of theirs is unclosed or some worker holds their work. -/
def dequeueShadowedWork (db : Db) (e : Event) : Except DbError Db :=
  match e.body with
  | .subgraphShadowed [] => ok db
  | .subgraphShadowed vertexIds =>
    match unclosedScopes db e.runId vertexIds with
    | (scopeId, row) :: _ => error (.raised ("cannot shadow members of scope " ++
        toString scopeId ++ " while it is " ++ row.state.name))
    | [] =>
      match leasedWork db vertexIds with
      | [] => ok { db with queue := db.queue.filterRows fun v _ => !vertexIds.contains v }
      | leased => error (.raised ("cannot shadow " ++ toString e.runId ++
          " while its work is leased: \x7b" ++ ",".intercalate (leased.map toString) ++
          "\x7d"))
  | _ => ok db

/-! ### Requests and fences -/

/-- A scope row with its fence raised; a fence already there keeps its time. -/
def ScopeRow.fence (row : ScopeRow) (now : Time) : ScopeRow :=
  { row with fencedAt := some (row.fencedAt.getD now) }

/-- A scope row with an undecided Engine request answered; any other row is unchanged. -/
def ScopeRow.answer (row : ScopeRow) (outcome : RequestOutcome) : ScopeRow :=
  if row.cancelRequestOutcome.any RequestOutcome.isOpen then
    { row with cancelRequestOutcome := some outcome }
  else row

/-- A scope row on which the Engine's request at `seq` is recorded. -/
def ScopeRow.request (row : ScopeRow) (seq : ℕ) (now : Time) : ScopeRow :=
  { row.fence now with
    cancelRequestedSeq := some seq
    cancelRequestOutcome := some .pending
    cancelRequestNextAt := some now }

/-- One scope of a `replan/cancel-requested`: it must be open and unrequested. -/
def registerRequest (e : Event) (db : Db) (scopeId : ScopeId) : Except DbError Db :=
  match db.scopeOf e.runId scopeId with
  | some row =>
    if row.state = .opened ∧ row.cancelRequestedSeq = none then
      ok (db.setScope scopeId (row.request e.runSeq db.now))
    else refused
  | none => refused
where
  /-- The refusal. -/
  refused : Except DbError Db :=
    error (.raised ("engine may request cancellation only of an open, unrequested scope " ++
      toString scopeId))

/-- `register_engine_cancel_request`. -/
def registerEngineCancelRequest (session : Session) (db : Db) (e : Event) : Except DbError Db :=
  if session.inheritCopy then ok db
  else
    match e.body with
    | .replanCancelRequested payload => payload.scopeIds.foldlM (registerRequest e) db
    | _ => ok db

/-- Whether a vertex of this payload is put in the work queue. -/
def VertexPayload.isQueued : VertexPayload → Bool
  | .tool _ => true
  | .barrier => true
  | _ => false

/-- The queue row of a newly created vertex. -/
def queueRow (now : Time) (e : Event) (payload : VertexPayload) : QueueRow where
  runId := e.runId
  readyAt := now
  parentRefs := e.parentRefs
  payload := payload
  scopeId := e.scopeId

/-- `enqueue_vertex_work`: a created tool or barrier vertex becomes work, once. -/
def enqueueVertexWork (session : Session) (db : Db) (e : Event) : Except DbError Db :=
  if session.inheritCopy then ok db
  else
    match e.body with
    | .vertexCreated payload =>
      if payload.isQueued then
        match e.vertexId with
        | none => error (.notNullViolation "work_queue.vertex_id")
        | some v =>
          if (db.queue.lookup v).isSome then ok db
          else ok { db with queue := db.queue.insert v (queueRow db.now e payload) }
      else ok db
    | _ => ok db

/-- The scope table after an event: a failure in an open scope fences it. -/
def fencedScopes (session : Session) (db : Db) (e : Event) : Table ScopeId ScopeRow :=
  if session.inheritCopy then db.scopes
  else
    match e.body with
    | .vertexFailed _ => db.scopes.mapRows fun id row =>
      if e.scopeId = some id ∧ row.runId = e.runId ∧ row.state = .opened then row.fence db.now
      else row
    | _ => db.scopes

/-- `fence_on_scoped_failure`. -/
def fenceOnScopedFailure (session : Session) (db : Db) (e : Event) : Db :=
  { db with scopes := fencedScopes session db e }

/-! ### The transaction projection -/

/-- The inverse tool of a bracket. -/
def BracketRow.inverseTool (row : BracketRow) : Option String :=
  row.cancelTool.or row.compensateTool

/-- The brackets a cancellation has to undo: sealed ones with an inverse tool. -/
def undoable (db : Db) (runId : RunId) (scopeId : ScopeId) : List (String × BracketRow) :=
  db.brackets.rowsWhere fun _ row => row.runId == runId && row.scopeId == scopeId &&
    row.state == .sealed && row.inverseTool.isSome

/-- Whether the log of a run has a `vertex/created` making `parent` a parent of `child`. -/
def parentEdge (db : Db) (runId : RunId) (parent child : VertexId) : Bool :=
  (db.createdOf runId child).any fun e => e.parentRefs.contains parent

/-- The recursive query of the cancellation: the length of the longest path of parent edges
to a member that stays among the members. -/
def dependencyDepth (db : Db) (runId : RunId) (members : List VertexId) (v : VertexId) : ℕ :=
  Dag.depth (parentEdge db runId) members v

/-- The cancel-member row of a bracket. -/
def memberRow (db : Db) (runId : RunId) (members : List VertexId) (key : String)
    (bracket : BracketRow) (inverseTool : String) : MemberRow where
  idempotencyKey := key
  inverseTool := inverseTool
  input := bracket.cancelInput.getD bracket.input
  retryPolicy := bracket.retryPolicy
  trySeq := bracket.trySeq
  dependencyDepth := dependencyDepth db runId members bracket.tryVertexId
  toolViewDigest := bracket.toolViewDigest

/-- The rows a cancellation lists, one for each bracket it has to undo. -/
def memberRows (db : Db) (runId : RunId) (scopeId : ScopeId) : List (MemberKey × MemberRow) :=
  let undo := undoable db runId scopeId
  let members := undo.map fun entry => entry.2.tryVertexId
  undo.filterMap fun entry => entry.2.inverseTool.map fun tool =>
    (⟨runId, scopeId, entry.2.tryVertexId⟩, memberRow db runId members entry.1 entry.2 tool)

/-- The cancel-member table after a cancellation of a scope was requested. -/
def cancelMembers (db : Db) (runId : RunId) (scopeId : ScopeId) : Table MemberKey MemberRow :=
  db.members.insertAll (memberRows db runId scopeId)

/-- Whether a scope holds a sealed bracket past its deadline. -/
def expiredTry (db : Db) (scopeId : ScopeId) : Bool :=
  db.brackets.anyRow fun _ row => row.scopeId == scopeId && row.state == .sealed &&
    decide (row.deadlineAt < db.now)

/-- Whether a scope has a cancel member that is not completed. -/
def incompleteMember (db : Db) (runId : RunId) (scopeId : ScopeId) : Bool :=
  db.members.anyRow fun key row => key.runId == runId && key.scopeId == scopeId &&
    !row.completed

/-- The scope row a `txn/scope` writes: a fresh row, or the old one with its state
replaced, whatever it was. A scope that suspends or cancels answers its pending request. -/
def projectScope (db : Db) (e : Event) (scopeId : ScopeId) (payload : ScopePayload) :
    ScopeRow :=
  let row : ScopeRow :=
    match db.scopes.lookup scopeId with
    | none =>
      { runId := e.runId, state := payload.state, openedSeq := e.runSeq,
        memberVertices := payload.memberVertices,
        requiredTryVertices := payload.requiredTryVertices }
    | some row => { row with state := payload.state }
  if row.runId = e.runId then
    match payload.state with
    | .suspended => row.answer .suspended
    | .cancelled => row.answer .requested
    | _ => row
  else row

/-- The bracket row a `txn/try` writes. -/
def projectTry (e : Event) (scopeId : ScopeId) (v : VertexId) (payload : TryPayload) :
    BracketRow where
  runId := e.runId
  scopeId := scopeId
  state := .sealed
  deadlineAt := payload.deadlineAt
  tryVertexId := v
  trySeq := e.runSeq
  confirmTool := payload.confirmTool
  cancelTool := payload.cancelTool
  compensateTool := payload.compensateTool
  input := payload.input
  retryPolicy := payload.retryPolicy
  toolViewDigest := payload.toolViewDigest
  confirmInput := payload.confirmInput
  cancelInput := payload.cancelInput.or payload.compensateInput

/-- The `txn/try` branch: one bracket for each idempotency key, in an existing scope. -/
def applyTry (db : Db) (e : Event) (payload : TryPayload) : Except DbError Db :=
  match e.scopeId, e.vertexId with
  | some scopeId, some v =>
    if (db.brackets.lookup payload.idempotencyKey).isSome then
      error (.uniqueViolation "txn_bracket_pkey")
    else if (db.scopes.lookup scopeId).isNone then
      error (.foreignKeyViolation "txn_bracket_scope_id_fkey")
    else ok { db with brackets :=
      db.brackets.insert payload.idempotencyKey (projectTry e scopeId v payload) }
  | none, _ => error (.notNullViolation "txn_bracket.scope_id")
  | _, none => error (.notNullViolation "txn_bracket.try_vertex_id")

/-- The `txn/pivot-passed` branch: only the admitted pivot passes. -/
def applyPivotPassed (db : Db) (e : Event) : Except DbError Db :=
  match e.scopeId.bind fun s => (db.scopeOf e.runId s).map (Prod.mk s) with
  | some (scopeId, row) =>
    if row.state = .pivotInflight ∧ e.vertexId.isSome ∧ row.pivotVertexId = e.vertexId then
      ok (db.setScope scopeId { row with state := .pivotPassed })
    else refused
  | none => refused
where
  /-- The refusal. -/
  refused : Except DbError Db :=
    error (.raised ("pivot requires an admitted pivot-inflight scope " ++ showId e.scopeId))

/-- The `txn/confirm` branch. -/
def applyConfirm (db : Db) (e : Event) (key : String) : Except DbError Db :=
  match db.brackets.lookup key with
  | some row =>
    if row.runId = e.runId ∧ some row.scopeId = e.scopeId ∧ row.state = .sealed then
      ok { db with brackets := db.brackets.insert key { row with state := .confirmed } }
    else refused
  | none => refused
where
  /-- The refusal. -/
  refused : Except DbError Db :=
    error (.raised "txn/confirm requires a sealed matching txn/try")

/-- The `requested` phase of `txn/cancel`: authorised by an Engine request or an expired
try, it moves an open scope to cancelling and lists what has to be undone. -/
def applyCancelRequested (db : Db) (e : Event) (scopeId : ScopeId) (key : String) :
    Except DbError Db :=
  match db.scopeOf e.runId scopeId with
  | some row =>
    if row.cancelRequestedSeq.isSome || expiredTry db scopeId then
      if row.state = .opened then
        ok { db.setScope scopeId { row.answer .requested with
              state := .cancelling, cancelIdempotencyKey := some key } with
            members := cancelMembers db e.runId scopeId }
      else error (.raised ("scope cancel requires an open scope " ++ toString scopeId))
    else unauthorised
  | none => unauthorised
where
  /-- The refusal of an unauthorised cancellation. -/
  unauthorised : Except DbError Db :=
    error (.raised ("scope " ++ toString scopeId ++
      " cancellation needs an engine request or an expired try"))

/-- Every sealed bracket of a scope, cancelled. -/
def cancelBrackets (db : Db) (runId : RunId) (scopeId : ScopeId) : Table String BracketRow :=
  db.brackets.mapRows fun _ row =>
    if row.runId = runId ∧ row.scopeId = scopeId ∧ row.state = .sealed then
      { row with state := .cancelled }
    else row

/-- The `completed` phase of `txn/cancel`: every member is undone, and the scope is
cancelling under this key. -/
def applyCancelCompleted (db : Db) (e : Event) (scopeId : ScopeId) (key : String) :
    Except DbError Db :=
  if incompleteMember db e.runId scopeId then
    error (.raised ("scope " ++ toString scopeId ++ " still has incomplete cancel members"))
  else
    match db.scopeOf e.runId scopeId with
    | some row =>
      if row.state = .cancelling ∧ row.cancelIdempotencyKey = some key then
        ok { db.setScope scopeId { row with state := .cancelled } with
          brackets := cancelBrackets db e.runId scopeId }
      else refused
    | none => refused
where
  /-- The refusal. -/
  refused : Except DbError Db :=
    error (.raised ("scope cancel completion requires matching cancelling scope " ++
      toString scopeId))

/-- `apply_txn_projection`. -/
def applyTxnProjection (session : Session) (db : Db) (e : Event) : Except DbError Db :=
  if session.inheritCopy then ok db
  else
    match e.body with
    | .txnScope payload =>
      match e.scopeId with
      | some scopeId => ok (db.setScope scopeId (projectScope db e scopeId payload))
      | none => error (.notNullViolation "txn_scope.scope_id")
    | .txnTry payload => applyTry db e payload
    | .txnPivotPassed => applyPivotPassed db e
    | .txnConfirm key => applyConfirm db e key
    | .txnCancel payload =>
      match e.scopeId, payload.phase with
      | some scopeId, .requested =>
        applyCancelRequested db e scopeId payload.idempotencyKey
      | some scopeId, .completed =>
        applyCancelCompleted db e scopeId payload.idempotencyKey
      | none, .requested => error (.raised ("scope " ++ showId none ++
          " cancellation needs an engine request or an expired try"))
      | none, .completed => error (.raised
          ("scope cancel completion requires matching cancelling scope " ++ showId none))
    | _ => ok db

/-! ### Appending -/

/-- The projections that run once an event is stored, in the order of their triggers. -/
def afterInsert (session : Session) (db : Db) (e : Event) : Except DbError Db := do
  let db ← dequeueShadowedWork db e
  let db ← registerEngineCancelRequest session db e
  let db ← enqueueVertexWork session db e
  applyTxnProjection session (fenceOnScopedFailure session db e) e

/-- One insertion into `run_event_log`, with every trigger around it. -/
def insertEvent (session : Session) (db : Db) (e : Event) : Except DbError Db := do
  checkNoCancelAfterPivot session db e
  checkEventOwnership session db e
  afterInsert session { db with log := db.log ++ [e] } e

/-- The event a draft becomes at a sequence number. -/
def EventDraft.at (draft : EventDraft) (runId : RunId) (seq : ℕ) (inherited : Bool) : Event :=
  { draft with runId := runId, runSeq := seq, inherited := inherited }

/-- One turn of `append_events`: allocate the run's next sequence number and insert. -/
def appendOne (session : Session) (runId : RunId) (db : Db) (draft : EventDraft) :
    Except DbError Db :=
  match db.runs.lookup runId with
  | none => error (.raised ("run " ++ toString runId ++ " does not exist"))
  | some row =>
    insertEvent session
      { db with runs := db.runs.insert runId { row with nextSeq := row.nextSeq + 1 } }
      (draft.at runId row.nextSeq session.inheritCopy)

/-- `append_events`: a non-empty batch, appended in order or not at all. -/
def appendEvents (session : Session) (runId : RunId) (drafts : List EventDraft) (db : Db) :
    Except DbError Db :=
  match drafts with
  | [] => error (.raised "append_events requires a non-empty event array")
  | _ => drafts.foldlM (appendOne session runId) db

end Flory
