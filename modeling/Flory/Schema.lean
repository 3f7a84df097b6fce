import Mathlib.Data.Rat.Init
import Flory.Table

/-!
# The Schema

The data of the run database: identifiers, the payloads of the event log, the rows of the
operational tables, and the database as a whole.

## Conventions

* UUIDs and worker names are natural numbers, only ever compared and ordered. Keys, tools
  and messages are strings.
* Time is counted in milliseconds on one clock, the database's. A `TIMESTAMPTZ` that may
  be null is an `Option Time`.
* A tool's optional companion is the empty string in a vertex payload, as in the
  Coordinator's decoded `TransactionSpec`, and a null column in the bracket table.
* `jsonb` arguments and results are `Json`; every payload whose fields some function reads
  is a structure of those fields.
-/

namespace Flory

/-- A run's UUID. -/
abbrev RunId := ℕ

/-- A transaction scope's UUID. -/
abbrev ScopeId := ℕ

/-- A vertex's UUID. -/
abbrev VertexId := ℕ

/-- A worker's name. -/
abbrev WorkerId := ℕ

/-- Milliseconds on the database's clock. -/
abbrev Time := ℕ

/-- A JSON document. -/
inductive Json
  | null
  | bool (value : Bool)
  | num (value : ℤ)
  | str (value : String)
  | arr (items : List Json)
  | obj (fields : List (String × Json))
  deriving Repr, Inhabited

/-- The value of a field of an object, and nothing for any other document. -/
def Json.field? : Json → String → Option Json
  | .obj fields, name => (fields.find? fun field => field.1 == name).map Prod.snd
  | _, _ => none

/-! ### Vertex payloads -/

/-- What a tool's call does to the world. -/
inductive EffectClass
  | none
  | bufferable
  | reversible
  | irreversible
  deriving DecidableEq, Repr

/-- How a tool takes part in a transaction. -/
inductive Mode
  | plain
  | tcc
  | saga
  deriving DecidableEq, Repr

/-- Whether a successful call of this mode seals a transaction bracket. -/
def Mode.isTry : Mode → Bool
  | .plain => false
  | .tcc => true
  | .saga => true

/-- How often an operation may be attempted. -/
structure RetryPolicy where
  maxAttempts : ℕ
  deriving DecidableEq, Repr

/-- The transaction half of a tool vertex, frozen from the tool's contract. -/
structure TransactionSpec where
  effectClass : EffectClass
  mode : Mode
  idempotencyKey : String := ""
  tryTimeoutS : ℕ := 0
  confirmTool : String := ""
  cancelTool : String := ""
  compensateTool : String := ""
  statusTool : String := ""
  confirmInput : Option Json := none
  cancelInput : Option Json := none
  compensateInput : Option Json := none

/-- The payload of a tool vertex. -/
structure ToolPayload where
  tool : String
  toolVersion : String := ""
  toolViewDigest : String := ""
  input : Json := .obj []
  retryPolicy : RetryPolicy := ⟨1⟩
  txn : TransactionSpec

/-- The payload of `vertex/created`, by role. -/
inductive VertexPayload
  | planner
  | router
  | barrier
  | tool (payload : ToolPayload)

/-- The transaction mode a queue row's payload states; absent means plain. -/
def VertexPayload.mode : VertexPayload → Mode
  | .tool payload => payload.txn.mode
  | _ => .plain

/-- The effect class a queue row's payload states; absent means none. -/
def VertexPayload.effectClass : VertexPayload → EffectClass
  | .tool payload => payload.txn.effectClass
  | _ => .none

/-! ### Events -/

/-- The states of a transaction scope. -/
inductive ScopeState
  | opened
  | cancelling
  | pivotInflight
  | pivotPassed
  | committed
  | cancelled
  | suspended
  deriving DecidableEq, Repr

/-- A scope state as the `state` column spells it. -/
def ScopeState.name : ScopeState → String
  | .opened => "open"
  | .cancelling => "cancelling"
  | .pivotInflight => "pivot-inflight"
  | .pivotPassed => "pivot-passed"
  | .committed => "committed"
  | .cancelled => "cancelled"
  | .suspended => "suspended"

/-- How an adapter classifies the result of an operation. -/
inductive OperationOutcome
  | succeeded
  | retryableFailure
  | permanentFailure
  | unknown
  deriving DecidableEq, Repr

/-- The stable adapter response. -/
structure OperationResponse where
  outcome : OperationOutcome
  result : Json := .null
  error : String := ""

/-- The outcome recorded by `vertex/failed`. -/
inductive FailureOutcome
  | response (outcome : OperationOutcome)
  | confirmedAbsent
  deriving DecidableEq, Repr

/-- The payload of `vertex/started`: an attempt number, or the phase of a vertex that is
not an ordinary call. -/
inductive StartedPayload
  | attempt (number : ℕ)
  | barrierPhase
  | pivotPhase
  deriving DecidableEq, Repr

/-- The payload of `vertex/failed`. -/
structure FailedPayload where
  attempts : ℕ
  error : String
  outcome : FailureOutcome

/-- The payload of `vertex/succeeded`. -/
structure SucceededPayload where
  attempts : Option ℕ := none
  result : Json

/-- The payload of `txn/scope`. -/
structure ScopePayload where
  state : ScopeState
  memberVertices : List VertexId := []
  requiredTryVertices : List VertexId := []
  reason : String := ""
  detail : String := ""

/-- The payload of `txn/try`. -/
structure TryPayload where
  idempotencyKey : String
  deadlineAt : Time
  input : Json
  retryPolicy : RetryPolicy
  toolViewDigest : Option String := none
  confirmTool : Option String := none
  cancelTool : Option String := none
  compensateTool : Option String := none
  confirmInput : Option Json := none
  cancelInput : Option Json := none
  compensateInput : Option Json := none

/-- The two phases of `txn/cancel`. -/
inductive CancelPhase
  | requested
  | completed
  deriving DecidableEq, Repr

/-- The payload of `txn/cancel`. -/
structure CancelPayload where
  idempotencyKey : String
  phase : CancelPhase
  reason : String := ""

/-- Who made a proposal. -/
inductive ProposalSource
  | submitted
  | router
  deriving DecidableEq, Repr

/-- The subgraph events with no projection of their own: a proposal with its source, the
freeze or the refusal of the proposal at a sequence number, and an answer of a planner that
was no proposal. -/
inductive SubgraphEvent
  | proposed (source : ProposalSource)
  | frozen (proposedSeq : ℕ)
  | rejected (proposedSeq : ℕ)
  | unreadable (plannerVertexId : VertexId)
  deriving DecidableEq, Repr

/-- The recovery ladder level one failure reached. -/
inductive RecoveryLevel
  | L1
  | L2
  | L3
  | L4
  deriving DecidableEq, Repr

/-- Why a candidate boundary is ineligible. -/
inductive RejectionReason
  | openBracket
  | belowFloor
  | savepointPrecedes
  | budgetExceeded
  | failureCounterExhausted
  deriving DecidableEq, Repr

/-- A rejection as the log spells it. -/
def RejectionReason.name : RejectionReason → String
  | .openBracket => "open_bracket"
  | .belowFloor => "below_floor"
  | .savepointPrecedes => "savepoint_precedes"
  | .budgetExceeded => "budget_exceeded"
  | .failureCounterExhausted => "failure_counter_exhausted"

/-- The terms of a candidate's price, as exact rationals. -/
structure CandidateTerms where
  contextCost : ℚ
  reworkCost : ℚ
  riskPremium : ℚ
  deriving DecidableEq, Repr

/-- One ancestor planner considered as a place to resume. A rejected one carries no price. -/
structure BoundaryCandidate where
  plannerVertexId : VertexId
  plannerSeq : ℕ
  cost : Option ℚ := none
  currency : Option String := none
  terms : Option CandidateTerms := none
  rejected : Option RejectionReason := none
  requiresCancel : List ScopeId := []
  deriving DecidableEq, Repr

/-- The payload of `replan/boundary`: the answer to one failure. -/
structure BoundaryPayload where
  failedVertexId : VertexId
  level : RecoveryLevel := .L4
  reason : String := ""
  episode : ℕ := 1
  candidates : List BoundaryCandidate := []
  selected : Option VertexId := none
  cancelledScopes : List ScopeId := []
  cancelRequestSeq : Option ℕ := none
  boundarySeq : Option ℕ := none
  estimatedCost : Option (ℚ × String) := none

/-- The payload of `replan/cancel-requested`: the scopes that have to be cancelled before a
failure is answered. -/
structure CancelRequestPayload where
  failedVertexId : VertexId
  scopeIds : List ScopeId
  level : RecoveryLevel := .L3
  reason : String := ""
  intendedBoundaryVertexId : Option VertexId := none
  candidates : List BoundaryCandidate := []

/-- An event's type, of `EVENT_TYPES` or unknown, with the payload fields some function reads. -/
inductive EventBody
  | runStart
  | runEnd
  | runEndSeed
  | forkCreated
  | budgetCharged
  | replanBoundary (payload : BoundaryPayload)
  | replanCancelRequested (payload : CancelRequestPayload)
  | subgraph (event : SubgraphEvent)
  | subgraphShadowed (vertexIds : List VertexId)
  | vertexCreated (payload : VertexPayload)
  | vertexStarted (payload : StartedPayload)
  | vertexRetried (attempt : ℕ) (error : String)
  | vertexSucceeded (payload : SucceededPayload)
  | vertexFailed (payload : FailedPayload)
  | txnScope (payload : ScopePayload)
  | txnTry (payload : TryPayload)
  | txnPivotPassed
  | txnConfirm (idempotencyKey : String)
  | txnCancel (payload : CancelPayload)
  | ruleTemplatePublished
  | unknown (eventType : String)

/-- The `event_type` column. -/
def EventBody.eventType : EventBody → String
  | .runStart => "run/start"
  | .runEnd => "run/end"
  | .runEndSeed => "run/end-seed"
  | .forkCreated => "fork/created"
  | .budgetCharged => "budget/charged"
  | .replanBoundary _ => "replan/boundary"
  | .replanCancelRequested _ => "replan/cancel-requested"
  | .subgraph (.proposed _) => "subgraph/proposed"
  | .subgraph (.frozen _) => "subgraph/frozen"
  | .subgraph (.rejected _) => "subgraph/rejected"
  | .subgraph (.unreadable _) => "subgraph/unreadable"
  | .subgraphShadowed _ => "subgraph/shadowed"
  | .vertexCreated _ => "vertex/created"
  | .vertexStarted _ => "vertex/started"
  | .vertexRetried _ _ => "vertex/retried"
  | .vertexSucceeded _ => "vertex/succeeded"
  | .vertexFailed _ => "vertex/failed"
  | .txnScope _ => "txn/scope"
  | .txnTry _ => "txn/try"
  | .txnPivotPassed => "txn/pivot-passed"
  | .txnConfirm _ => "txn/confirm"
  | .txnCancel _ => "txn/cancel"
  | .ruleTemplatePublished => "rule_template/published"
  | .unknown eventType => eventType

/-- Whether an event creates a vertex. -/
def EventBody.isCreated : EventBody → Bool
  | .vertexCreated _ => true
  | _ => false

/-- Whether an event records the success of a vertex. -/
def EventBody.isSucceeded : EventBody → Bool
  | .vertexSucceeded _ => true
  | _ => false

/-- An event before the database allocates its sequence number. -/
structure EventDraft where
  body : EventBody
  vertexId : Option VertexId := none
  parentRefs : List VertexId := []
  scopeId : Option ScopeId := none
  ignorable : Bool := false

/-- A row of `run_event_log`. -/
structure Event extends EventDraft where
  runId : RunId
  runSeq : ℕ
  inherited : Bool := false

/-! ### Rows -/

/-- The states of a transaction bracket. -/
inductive BracketState
  | sealed
  | confirmed
  | cancelled
  deriving DecidableEq, Repr

/-- How an Engine cancellation request on a scope has been answered. -/
inductive RequestOutcome
  | pending
  | deferred
  | requested
  | duplicate
  | suspended
  deriving DecidableEq, Repr

/-- Whether a request still waits for a decision. -/
def RequestOutcome.isOpen : RequestOutcome → Bool
  | .pending => true
  | .deferred => true
  | _ => false

/-- The legs of the transaction protocol an attempt can belong to. -/
inductive Operation
  | call
  | pivot
  | status
  | confirm
  | inverse
  deriving DecidableEq, Repr

/-- An operation as the `operation` column spells it. -/
def Operation.name : Operation → String
  | .call => "call"
  | .pivot => "pivot"
  | .status => "status"
  | .confirm => "confirm"
  | .inverse => "inverse"

/-- The definitive outcomes of an attempt. An unknown answer is not one of them. -/
inductive AttemptOutcome
  | succeeded
  | retryableFailure
  | permanentFailure
  | confirmedAbsent
  deriving DecidableEq, Repr

/-- Who executes a vertex. -/
inductive ExecutorClass
  | router
  | orchestrator
  | coordinator
  deriving DecidableEq, Repr

/-- A row of `run`. A fork has a seed floor: the last sequence number it inherits. -/
structure RunRow where
  nextSeq : ℕ := 1
  seedFloor : Option ℕ := none
  deriving DecidableEq, Repr

/-- A row of `txn_scope`. -/
structure ScopeRow where
  runId : RunId
  state : ScopeState
  openedSeq : ℕ
  pivotVertexId : Option VertexId := none
  memberVertices : List VertexId := []
  requiredTryVertices : List VertexId := []
  cancelIdempotencyKey : Option String := none
  fencedAt : Option Time := none
  cancelRequestedSeq : Option ℕ := none
  cancelRequestOutcome : Option RequestOutcome := none
  cancelRequestNextAt : Option Time := none
  deriving DecidableEq, Repr

/-- A row of `txn_bracket`, without its key. -/
structure BracketRow where
  runId : RunId
  scopeId : ScopeId
  state : BracketState
  deadlineAt : Time
  tryVertexId : VertexId
  trySeq : ℕ
  confirmTool : Option String
  cancelTool : Option String
  compensateTool : Option String
  input : Json
  retryPolicy : RetryPolicy
  toolViewDigest : Option String
  confirmInput : Option Json
  cancelInput : Option Json

/-- A row of `work_queue`, without its vertex. -/
structure QueueRow where
  runId : RunId
  readyAt : Time
  parentRefs : List VertexId
  payload : VertexPayload
  scopeId : Option ScopeId
  claimedBy : Option WorkerId := none
  leaseUntil : Option Time := none
  attempt : ℕ := 0

/-- The primary key of `scope_cancel_member`. -/
structure MemberKey where
  runId : RunId
  scopeId : ScopeId
  vertexId : VertexId
  deriving DecidableEq, Repr

/-- A row of `scope_cancel_member`, without its key. -/
structure MemberRow where
  idempotencyKey : String
  inverseTool : String
  input : Json
  retryPolicy : RetryPolicy
  trySeq : ℕ
  dependencyDepth : ℕ
  toolViewDigest : Option String
  completed : Bool := false
  claimedBy : Option WorkerId := none
  leaseUntil : Option Time := none

/-- A row of `txn_attempt`, without its id. -/
structure AttemptRow where
  runId : RunId
  scopeId : Option ScopeId
  vertexId : VertexId
  operation : Operation
  attemptNo : ℕ
  tool : String
  idempotencyKey : String
  worker : WorkerId
  outcome : Option AttemptOutcome := none
  deriving DecidableEq, Repr

/-! ### The database -/

/-- The database: its clock, the event log in the order of insertion, and the operational
tables. -/
structure Db where
  now : Time := 0
  runs : Table RunId RunRow := ∅
  log : List Event := []
  scopes : Table ScopeId ScopeRow := ∅
  brackets : Table String BracketRow := ∅
  queue : Table VertexId QueueRow := ∅
  members : Table MemberKey MemberRow := ∅
  attempts : Table ℕ AttemptRow := ∅
  nextAttemptId : ℕ := 1

/-- Why a statement failed. A failed statement rolls its transaction back. -/
inductive DbError
  | raised (message : String)
  | uniqueViolation (constraint : String)
  | foreignKeyViolation (constraint : String)
  | notNullViolation (column : String)
  | checkViolation (constraint : String)
  deriving DecidableEq, Repr

/-- The two service roles. -/
inductive SessionUser
  | engineRole
  | coordinatorRole
  deriving DecidableEq, Repr

/-- A role as error messages spell it. -/
def SessionUser.name : SessionUser → String
  | .engineRole => "engine_role"
  | .coordinatorRole => "coordinator_role"

/-- A database session: who is connected, and whether it is reproducing inherited history
(`flory.inherit_copy`). -/
structure Session where
  user : SessionUser
  inheritCopy : Bool := false

/-- The Coordinator's session. -/
def coordinator : Session :=
  ⟨.coordinatorRole, false⟩

/-- The Engine's session, outside fork seeding. -/
def engine : Session :=
  ⟨.engineRole, false⟩

namespace Db

variable (db : Db)

/-- The scope row of a run, if the scope exists and belongs to it. -/
def scopeOf (runId : RunId) (scopeId : ScopeId) : Option ScopeRow :=
  (db.scopes.lookup scopeId).filter fun row => row.runId == runId

/-- The database with a scope row written. -/
def setScope (scopeId : ScopeId) (row : ScopeRow) : Db :=
  { db with scopes := db.scopes.insert scopeId row }

/-- The `vertex/created` events of a vertex, oldest first. -/
def createdOf (runId : RunId) (vertexId : VertexId) : List Event :=
  db.log.filter fun e => e.body.isCreated && e.runId == runId && e.vertexId == some vertexId

/-- Whether the log of a run records that a vertex succeeded. -/
def succeeded (runId : RunId) (vertexId : VertexId) : Bool :=
  db.log.any fun e => e.body.isSucceeded && e.runId == runId && e.vertexId == some vertexId

end Db

end Flory
