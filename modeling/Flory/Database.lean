import Flory.EventLog

/-!
# The Database Functions

The functions the two services call, each one transaction: queue claims, attempt evidence,
the life of a scope from `ensureTxnScope` to `requestScopeCancel`, and cancellation
members. They are those of the latest migration that defines each of them. Below them are
the Coordinator's read-only queries.

A function that can raise returns `Except DbError`; the others always succeed. All of them
run under the role the database requires of their caller.
-/

namespace Flory

open Except (error ok)

/-! ### The work queue -/

/-- The scope state a claim is decided on: an open scope that is fenced counts as
`fenced`. -/
inductive ClaimState
  | fenced
  | state (state : ScopeState)
  deriving DecidableEq, Repr

/-- `flory_scope_claim_state`. -/
def floryScopeClaimState (row : ScopeRow) : ClaimState :=
  if row.state = .opened ∧ row.fencedAt.isSome then .fenced else .state row.state

/-- `flory_claim_admissible`: which work a scope in this state hands out. -/
def floryClaimAdmissible : Option ClaimState → VertexPayload → Bool
  | none, _ => true
  | some (.state .opened), _ => true
  | some (.state .pivotPassed), payload | some (.state .committed), payload =>
    !payload.mode.isTry && payload.effectClass != .irreversible
  | some _, _ => false

/-- Whether a lease is absent or over. -/
def leaseOver (now : Time) : Option Time → Bool
  | none => true
  | some leaseUntil => decide (leaseUntil < now)

/-- Whether a lease is live. -/
def leaseLive (now : Time) : Option Time → Bool
  | none => false
  | some leaseUntil => decide (now < leaseUntil)

/-- Whether a queue row of a class is ready: due, not leased, all parents succeeded. -/
def ready (db : Db) (cls : ExecutorClass) (row : QueueRow) : Bool :=
  floryExecutorClass row.payload row.scopeId == cls && decide (row.readyAt ≤ db.now) &&
    leaseOver db.now row.leaseUntil && row.parentRefs.all (db.succeeded row.runId)

/-- The order of the queue. -/
def queueOrder (a b : VertexId × QueueRow) : Bool :=
  decide (a.2.readyAt < b.2.readyAt) || (a.2.readyAt == b.2.readyAt && decide (a.1 ≤ b.1))

/-- One leased executable vertex. -/
structure WorkItem where
  vertexId : VertexId
  runId : RunId
  scopeId : Option ScopeId
  parentRefs : List VertexId
  payload : VertexPayload
  attempt : ℕ

/-- The queue row under a new lease. -/
def QueueRow.claim (row : QueueRow) (worker : WorkerId) (leaseUntil : Time) : QueueRow :=
  { row with claimedBy := some worker, leaseUntil := some leaseUntil, attempt := row.attempt + 1 }

/-- The queue row with its lease given up, available again from `readyAt` on. -/
def QueueRow.release (row : QueueRow) (readyAt : Time) : QueueRow :=
  { row with claimedBy := none, leaseUntil := none, readyAt := readyAt }

/-- The work item of a claimed row. -/
def QueueRow.item (row : QueueRow) (v : VertexId) : WorkItem where
  vertexId := v
  runId := row.runId
  scopeId := row.scopeId
  parentRefs := row.parentRefs
  payload := row.payload
  attempt := row.attempt

/-- Leases one queue row and returns its work item. -/
def leaseRow (db : Db) (worker : WorkerId) (leaseMs : ℕ) (v : VertexId) (row : QueueRow) :
    WorkItem × Db :=
  let claimed := row.claim worker (db.now + leaseMs)
  (claimed.item v, { db with queue := db.queue.insert v claimed })

/-- The unlocked discovery query of `claim_ready_work`. -/
def claimCandidates (db : Db) : List (VertexId × QueueRow) :=
  ((db.queue.rowsWhere fun _ row => ready db .coordinator row &&
      floryClaimAdmissible ((row.scopeId.bind db.scopes.lookup).map floryScopeClaimState)
        row.payload).insertionSort fun a b => queueOrder a b).take 8

/-- The decision about one candidate, under the lock of its scope. -/
def claimCandidate (db : Db) (worker : WorkerId) (leaseMs : ℕ) (v : VertexId)
    (candidate : QueueRow) : Option (WorkItem × Db) :=
  if floryClaimAdmissible ((candidate.scopeId.bind (db.scopeOf candidate.runId)).map
      floryScopeClaimState) candidate.payload then
    match db.queue.lookup v with
    | some row => if leaseOver db.now row.leaseUntil then some (leaseRow db worker leaseMs v row)
        else none
    | none => none
  else none

/-- `claim_ready_work`: lease the first candidate the locked decision admits. -/
def claimReadyWork (db : Db) (worker : WorkerId) (leaseMs : ℕ) : Option (WorkItem × Db) :=
  (claimCandidates db).findSome? fun candidate =>
    claimCandidate db worker leaseMs candidate.1 candidate.2

/-- `complete_work`: the claimed row leaves the queue. -/
def completeWork (db : Db) (worker : WorkerId) (v : VertexId) : Except DbError Db :=
  match db.queue.lookup v with
  | some row =>
    if row.claimedBy = some worker then ok { db with queue := db.queue.erase v }
    else refused
  | none => refused
where
  /-- The refusal. -/
  refused : Except DbError Db :=
    error (.raised ("work " ++ toString v ++ " is not claimed by " ++ toString worker))

/-- `release_work`: the claimed row becomes available again after a delay. -/
def releaseWork (db : Db) (worker : WorkerId) (v : VertexId) (delayMs : ℕ) :
    Except DbError Db :=
  match db.queue.lookup v with
  | some row =>
    if row.claimedBy = some worker then
      ok { db with queue := db.queue.insert v (row.release (db.now + delayMs)) }
    else refused
  | none => refused
where
  /-- The refusal. -/
  refused : Except DbError Db :=
    error (.raised ("work " ++ toString v ++ " is not claimed by " ++ toString worker))

/-- `claim_ready_read`: the Engine's claim of an unscoped read. -/
def claimReadyRead (db : Db) (worker : WorkerId) (leaseMs : ℕ) : Option (WorkItem × Db) :=
  match (db.queue.rowsWhere fun _ row => ready db .orchestrator row).insertionSort
      fun a b => queueOrder a b with
  | [] => none
  | (v, row) :: _ => some (leaseRow db worker leaseMs v row)

/-- Whether a row is an Engine read claimed by this worker. -/
def ownsRead (worker : WorkerId) (row : QueueRow) : Bool :=
  row.claimedBy == some worker && floryExecutorClass row.payload row.scopeId == .orchestrator

/-- `complete_read`. -/
def completeRead (db : Db) (worker : WorkerId) (v : VertexId) : Except DbError Db :=
  if (db.queue.lookup v).any (ownsRead worker) then ok { db with queue := db.queue.erase v }
  else error (.raised ("read work " ++ toString v ++ " is not claimed by " ++ toString worker))

/-- `release_read`. -/
def releaseRead (db : Db) (worker : WorkerId) (v : VertexId) (delayMs : ℕ) : Db :=
  match db.queue.lookup v with
  | some row =>
    if ownsRead worker row then
      { db with queue := db.queue.insert v (row.release (db.now + delayMs)) }
    else db
  | none => db

/-! ### Attempt evidence -/

/-- Where the lease that authorises an attempt is held. -/
inductive LeaseSource
  | workQueue
  | cancelMember
  deriving DecidableEq, Repr

/-- A lease source as error messages spell it. -/
def LeaseSource.name : LeaseSource → String
  | .workQueue => "work_queue"
  | .cancelMember => "cancel_member"

/-- One side-effecting request and what authorises it. -/
structure AttemptStart where
  runId : RunId
  scopeId : Option ScopeId
  vertexId : VertexId
  operation : Operation
  attemptNo : ℕ
  tool : String
  idempotencyKey : String
  leaseVertexId : VertexId
  leaseSource : LeaseSource

/-- The scope states in which an attempt of an operation may start. -/
def Operation.admissible : Operation → List ScopeState
  | .call => [.opened, .pivotPassed, .committed]
  | .pivot => [.pivotInflight]
  | .status => [.pivotInflight]
  | .confirm => [.pivotPassed]
  | .inverse => [.cancelling]

/-- Whether a worker holds the live lease an attempt needs. -/
def holdsLease (db : Db) (worker : WorkerId) (start : AttemptStart) : Bool :=
  match start.leaseSource with
  | .workQueue =>
    (db.queue.lookup start.leaseVertexId).any fun row =>
      row.claimedBy == some worker && leaseLive db.now row.leaseUntil
  | .cancelMember =>
    start.scopeId.any fun scopeId =>
      (db.members.lookup ⟨start.runId, scopeId, start.leaseVertexId⟩).any fun row =>
        row.claimedBy == some worker && leaseLive db.now row.leaseUntil

/-- The scope half of `record_attempt_start`: an unscoped attempt takes no scope lock. -/
def checkAttemptScope (db : Db) (start : AttemptStart) : Except DbError Unit :=
  match start.scopeId with
  | none => ok ()
  | some scopeId =>
    match db.scopeOf start.runId scopeId with
    | none => error (.raised ("unknown transaction scope " ++ toString scopeId))
    | some row =>
      if start.operation.admissible.contains row.state then ok ()
      else error (.raised ("a " ++ start.operation.name ++ " attempt requires scope " ++
        toString scopeId ++ " in one of \x7b" ++
        ",".intercalate (start.operation.admissible.map ScopeState.name) ++ "\x7d, not " ++
        row.state.name))

/-- The evidence row of an attempt that starts now. -/
def AttemptStart.row (start : AttemptStart) (worker : WorkerId) : AttemptRow where
  runId := start.runId
  scopeId := start.scopeId
  vertexId := start.vertexId
  operation := start.operation
  attemptNo := start.attemptNo
  tool := start.tool
  idempotencyKey := start.idempotencyKey
  worker := worker

/-- `record_attempt_start`: evidence of a request, written before the request leaves. -/
def recordAttemptStart (db : Db) (worker : WorkerId) (start : AttemptStart) :
    Except DbError (ℕ × Db) := do
  checkAttemptScope db start
  if holdsLease db worker start then
    ok (db.nextAttemptId, { db with
      attempts := db.attempts.insert db.nextAttemptId (start.row worker)
      nextAttemptId := db.nextAttemptId + 1 })
  else
    error (.raised ("worker " ++ toString worker ++ " holds no live " ++
      start.leaseSource.name ++ " lease for vertex " ++ toString start.leaseVertexId))

/-- `resolve_attempt`: the first definitive outcome of an attempt is kept. -/
def resolveAttempt (db : Db) (attemptId : ℕ) (outcome : AttemptOutcome) : Db :=
  { db with attempts := db.attempts.mapRows fun id row =>
      if id = attemptId ∧ row.outcome = none then { row with outcome := some outcome } else row }

/-! ### Scopes -/

/-- The `vertex/created` events of a scope, in the order of the log. -/
def scopeMembers (db : Db) (runId : RunId) (scopeId : ScopeId) :
    List (VertexId × VertexPayload) :=
  db.log.filterMap fun e =>
    if e.runId = runId ∧ e.scopeId = some scopeId then
      match e.body, e.vertexId with
      | .vertexCreated payload, some v => some (v, payload)
      | _, _ => none
    else none

/-- The tries a scope requires before its pivot. -/
def requiredTries (db : Db) (runId : RunId) (scopeId : ScopeId) : List VertexId :=
  ((scopeMembers db runId scopeId).filter fun m => m.2.mode.isTry).map Prod.fst

/-- A `txn/scope` draft. -/
def scopeEvent (scopeId : ScopeId) (payload : ScopePayload) : EventDraft where
  body := .txnScope payload
  scopeId := some scopeId

/-- What `ensure_txn_scope` records of a scope. -/
def openingPayload (db : Db) (runId : RunId) (scopeId : ScopeId) : ScopePayload where
  state := .opened
  memberVertices := (scopeMembers db runId scopeId).map Prod.fst
  requiredTryVertices := requiredTries db runId scopeId

/-- `ensure_txn_scope`: the scope row is created once, from the frozen vertices. -/
def ensureTxnScope (db : Db) (runId : RunId) (scopeId : ScopeId) : Except DbError (Bool × Db) :=
  match db.scopeOf runId scopeId with
  | some _ => ok (false, db)
  | none => do
      let db ← appendEvents coordinator runId
        [scopeEvent scopeId (openingPayload db runId scopeId)] db
      ok (true, db)

/-- The number of required tries of a scope that are sealed. -/
def sealedCount (db : Db) (runId : RunId) (scopeId : ScopeId) (row : ScopeRow) : ℕ :=
  db.brackets.countRows fun _ bracket => bracket.runId == runId &&
    bracket.scopeId == scopeId && bracket.state == .sealed &&
    row.requiredTryVertices.contains bracket.tryVertexId

/-- The event that records a pivot's admission. -/
def admissionEvent (scopeId : ScopeId) (v : VertexId) : EventDraft where
  body := .vertexStarted .pivotPhase
  vertexId := some v
  scopeId := some scopeId

/-- `admit_pivot`: an open, unfenced scope whose required tries are all sealed admits its
pivot. -/
def admitPivot (db : Db) (runId : RunId) (scopeId : ScopeId) (v : VertexId) :
    Except DbError (Bool × Db) :=
  match db.scopeOf runId scopeId with
  | some row =>
    if row.state = .opened ∧ row.fencedAt = none ∧
        sealedCount db runId scopeId row = row.requiredTryVertices.length then do
      let db ← appendEvents coordinator runId [admissionEvent scopeId v]
        (db.setScope scopeId { row with state := .pivotInflight, pivotVertexId := some v })
      ok (true, db)
    else ok (false, db)
  | none => ok (false, db)

/-- `resolve_pivot_absent`: the scope of a pivot that did not happen reopens, fenced. -/
def resolvePivotAbsent (db : Db) (runId : RunId) (scopeId : ScopeId) (v : VertexId) :
    Except DbError Db :=
  match db.scopeOf runId scopeId with
  | some row =>
    if row.state = .pivotInflight ∧ row.pivotVertexId = some v then
      ok (db.setScope scopeId
        { row.fence db.now with state := .opened, pivotVertexId := none })
    else refused
  | none => refused
where
  /-- The refusal. -/
  refused : Except DbError Db :=
    error (.raised ("scope " ++ toString scopeId ++ " has no matching pivot-inflight action"))

/-! ### Cancellation -/

/-- Who asks for a cancellation, which decides what authorises it. -/
inductive CancelOrigin
  | engine
  | timeout
  deriving DecidableEq, Repr

/-- Which path the database took under the scope lock. -/
inductive CancelDecision
  | requested
  | duplicate
  | deferred
  | suspended
  | ineligible
  deriving DecidableEq, Repr

/-- Whether some worker holds a live lease on work of a scope. -/
def liveLease (db : Db) (runId : RunId) (scopeId : ScopeId) : Bool :=
  db.queue.anyRow fun _ row => row.runId == runId && row.scopeId == some scopeId &&
    leaseLive db.now row.leaseUntil

/-- Whether some attempt of a scope has no outcome. -/
def unresolvedAttempt (db : Db) (runId : RunId) (scopeId : ScopeId) : Bool :=
  db.attempts.anyRow fun _ row => row.runId == runId && row.scopeId == some scopeId &&
    row.outcome.isNone

/-- The `txn/cancel` draft of a phase. -/
def cancelEvent (scopeId : ScopeId) (key : String) (phase : CancelPhase) (reason : String) :
    EventDraft where
  body := .txnCancel ⟨key, phase, reason⟩
  scopeId := some scopeId

/-- A cancellation that found a live lease: the Engine's request waits another second. -/
def ScopeRow.defer (row : ScopeRow) (now : Time) : ScopeRow :=
  if row.cancelRequestOutcome.any RequestOutcome.isOpen then
    { row with cancelRequestOutcome := some .deferred, cancelRequestNextAt := some (now + 1000) }
  else row

/-- The queue without the pending work of a cancelled scope. -/
def withoutPendingWork (db : Db) (runId : RunId) (scopeId : ScopeId) :
    Table VertexId QueueRow :=
  db.queue.filterRows fun _ row =>
    !(row.runId == runId && row.scopeId == some scopeId && !leaseLive db.now row.leaseUntil)

/-- The decision about an open scope: its authority is checked, then its leases, then its
evidence. -/
def decideOpenScope (db : Db) (runId : RunId) (scopeId : ScopeId) (row : ScopeRow)
    (key reason : String) (origin : CancelOrigin) : Except DbError (CancelDecision × Db) :=
  if origin = .engine ∧ row.cancelRequestedSeq = none then
    error (.raised ("failure-driven cancellation of scope " ++ toString scopeId ++
      " requires an engine request"))
  else if origin = .timeout ∧ expiredTryOf = false then
    ok (.ineligible, db)
  else if liveLease db runId scopeId then
    ok (.deferred, db.setScope scopeId (row.defer db.now))
  else if unresolvedAttempt db runId scopeId then do
    let db ← appendEvents coordinator runId [scopeEvent scopeId
      ⟨.suspended, [], [], "unresolved attempt", reason⟩] db
    ok (.suspended, db)
  else do
    let db ← appendEvents coordinator runId [cancelEvent scopeId key .requested reason] db
    ok (.requested, { db with queue := withoutPendingWork db runId scopeId })
where
  /-- Whether the scope holds an expired sealed bracket of this run. -/
  expiredTryOf : Bool :=
    db.brackets.anyRow fun _ bracket => bracket.runId == runId &&
      bracket.scopeId == scopeId && bracket.state == .sealed &&
      decide (bracket.deadlineAt < db.now)

/-- `request_scope_cancel`: under the scope lock, whether a scope may cancel at all. -/
def requestScopeCancel (db : Db) (runId : RunId) (scopeId : ScopeId) (key reason : String)
    (origin : CancelOrigin) : Except DbError (CancelDecision × Db) :=
  match db.scopeOf runId scopeId with
  | none => error (.raised ("unknown transaction scope " ++ toString scopeId))
  | some row =>
    if row.state = .cancelling ∨ row.state = .cancelled then
      if row.cancelIdempotencyKey = some key then
        ok (.duplicate, db.setScope scopeId (row.answer .duplicate))
      else error (.raised ("scope " ++ toString scopeId ++
        " has a different cancel idempotency key"))
    else if row.state = .suspended ∧ origin = .engine ∧ row.cancelRequestedSeq.isSome then
      ok (.suspended, db.setScope scopeId (row.answer .suspended))
    else if row.state = .opened then
      decideOpenScope db runId scopeId row key reason origin
    else error (.raised ("cannot cancel scope " ++ toString scopeId ++ " in state " ++
      row.state.name))

/-- The order in which cancel members are claimed: deepest first. -/
def memberOrder (a b : MemberKey × MemberRow) : Bool :=
  decide (b.2.dependencyDepth < a.2.dependencyDepth) ||
    (a.2.dependencyDepth == b.2.dependencyDepth && decide (a.1.vertexId ≤ b.1.vertexId))

/-- The cancel members of a scope a worker may claim, in the order of their claims. -/
def claimableMembers (db : Db) (runId : RunId) (scopeId : ScopeId) :
    List (MemberKey × MemberRow) :=
  (db.members.rowsWhere fun key row => key.runId == runId && key.scopeId == scopeId &&
    !row.completed && leaseOver db.now row.leaseUntil).insertionSort fun a b => memberOrder a b

/-- One claimed inverse operation. -/
structure CancelMember where
  vertexId : VertexId
  idempotencyKey : String
  inverseTool : String
  inverseInput : Json
  retryPolicy : RetryPolicy
  toolViewDigest : String

/-- The member row under a new lease. -/
def MemberRow.claim (row : MemberRow) (worker : WorkerId) (leaseUntil : Time) : MemberRow :=
  { row with claimedBy := some worker, leaseUntil := some leaseUntil }

/-- The member row of a completed inverse operation. -/
def MemberRow.complete (row : MemberRow) : MemberRow :=
  { row with completed := true, claimedBy := none, leaseUntil := none }

/-- The claimed operation of a member row. -/
def MemberRow.member (row : MemberRow) (v : VertexId) : CancelMember where
  vertexId := v
  idempotencyKey := row.idempotencyKey
  inverseTool := row.inverseTool
  inverseInput := row.input
  retryPolicy := row.retryPolicy
  toolViewDigest := row.toolViewDigest.getD ""

/-- `claim_cancel_member`: lease the next inverse operation of a scope. -/
def claimCancelMember (db : Db) (worker : WorkerId) (runId : RunId) (scopeId : ScopeId)
    (leaseMs : ℕ) : Option (CancelMember × Db) :=
  match claimableMembers db runId scopeId with
  | [] => none
  | (key, row) :: _ => some (row.member key.vertexId,
      { db with members := db.members.insert key (row.claim worker (db.now + leaseMs)) })

/-- `complete_cancel_member`: the claimed inverse operation is done. -/
def completeCancelMember (db : Db) (worker : WorkerId) (runId : RunId) (scopeId : ScopeId)
    (v : VertexId) : Except DbError Db :=
  match db.members.lookup ⟨runId, scopeId, v⟩ with
  | some row =>
    if row.claimedBy = some worker then
      ok { db with members := db.members.insert ⟨runId, scopeId, v⟩ row.complete }
    else refused
  | none => refused
where
  /-- The refusal. -/
  refused : Except DbError Db :=
    error (.raised ("cancel member " ++ toString v ++ " is not claimed by " ++ toString worker))

/-! ### The Coordinator's queries -/

/-- `BracketOwner`: the vertex whose try holds an idempotency key. -/
def bracketOwner (db : Db) (key : String) : Option VertexId :=
  (db.brackets.lookup key).map BracketRow.tryVertexId

/-- A scope to be cancelled, with the key of its cancellation. -/
structure ScopeCancellation where
  runId : RunId
  scopeId : ScopeId
  idempotencyKey : String
  deriving DecidableEq, Repr

/-- `PendingCancelRequests`: the first eight Engine requests due for a decision. -/
def pendingCancelRequests (db : Db) : List (RunId × ScopeId) :=
  (((db.scopes.rowsWhere fun _ row => row.cancelRequestOutcome.any RequestOutcome.isOpen &&
      row.cancelRequestNextAt.any (fun at' => decide (at' ≤ db.now)) &&
      row.state == .opened).insertionSort fun a b => requestOrder a b).take 8).map
    fun entry => (entry.2.runId, entry.1)
where
  /-- Oldest request first. -/
  requestOrder (a b : ScopeId × ScopeRow) : Bool :=
    decide (a.2.cancelRequestedSeq.getD 0 < b.2.cancelRequestedSeq.getD 0) ||
      (a.2.cancelRequestedSeq == b.2.cancelRequestedSeq && decide (a.1 ≤ b.1))

/-- `ExpiredScopes`: the open scopes that hold a sealed bracket past its deadline. -/
def expiredScopes (db : Db) : List (RunId × ScopeId) :=
  ((db.brackets.rowsWhere fun _ row => row.state == .sealed && decide (row.deadlineAt < db.now) &&
    (db.scopes.lookup row.scopeId).any fun scope => scope.state == .opened).map
      fun entry => (entry.2.runId, entry.2.scopeId)).dedup

/-- `StuckCancellations`: the cancelling scopes without a live member lease, in order. -/
def stuckCancellations (db : Db) : List ScopeCancellation :=
  ((db.scopes.rowsWhere fun scopeId row => row.state == .cancelling &&
      row.cancelIdempotencyKey.isSome &&
      !db.members.anyRow fun key member => key.runId == row.runId && key.scopeId == scopeId &&
        !member.completed && leaseLive db.now member.leaseUntil).insertionSort
    fun a b => stuckOrder a b).map
      fun entry => ⟨entry.2.runId, entry.1, entry.2.cancelIdempotencyKey.getD ""⟩
where
  /-- By run, then by scope. -/
  stuckOrder (a b : ScopeId × ScopeRow) : Bool :=
    decide (a.2.runId < b.2.runId) || (a.2.runId == b.2.runId && decide (a.1 ≤ b.1))

/-- One confirm operation that remains after a pivot passed. -/
structure SealedBracket where
  vertexId : VertexId
  idempotencyKey : String
  confirmTool : String
  confirmInput : Json
  retryPolicy : RetryPolicy
  toolViewDigest : String

/-- The confirm operation of a bracket row. -/
def BracketRow.confirmWork (row : BracketRow) (key : String) : SealedBracket where
  vertexId := row.tryVertexId
  idempotencyKey := key
  confirmTool := row.confirmTool.getD ""
  confirmInput := row.confirmInput.getD (.obj [])
  retryPolicy := row.retryPolicy
  toolViewDigest := row.toolViewDigest.getD ""

/-- One of a run's scope rows as it stands under the lock. -/
structure LockedScope where
  scopeId : ScopeId
  state : ScopeState
  pivotCount : ℕ
  hasSealedTry : Bool
  hasExpiredTry : Bool
  fenced : Bool
  deriving DecidableEq, Repr

/-- A locked scope row as `lock_run_scopes` returns it. The brackets are looked up by their
scope alone. -/
def ScopeRow.locked (row : ScopeRow) (db : Db) (scopeId : ScopeId) : LockedScope where
  scopeId := scopeId
  state := row.state
  pivotCount := if row.pivotVertexId.isSome then 1 else 0
  hasSealedTry := db.brackets.anyRow fun _ bracket =>
    bracket.scopeId == scopeId && bracket.state == .sealed
  hasExpiredTry := expiredTry db scopeId
  fenced := row.fencedAt.isSome

/-- `lock_run_scopes`: the scope rows of a run, in the order they were opened. -/
def lockRunScopes (db : Db) (runId : RunId) : List LockedScope :=
  ((db.scopes.rowsWhere fun _ row => row.runId == runId).insertionSort
    fun a b => a.2.openedSeq ≤ b.2.openedSeq).map fun entry => entry.2.locked db entry.1

/-- `SealedBrackets`: the confirm operations of a scope, by vertex. -/
def sealedBrackets (db : Db) (runId : RunId) (scopeId : ScopeId) : List SealedBracket :=
  ((db.brackets.rowsWhere fun _ row => row.runId == runId && row.scopeId == scopeId &&
      row.state == .sealed && row.confirmTool.isSome).insertionSort
    fun a b => a.2.tryVertexId ≤ b.2.tryVertexId).map fun entry => entry.2.confirmWork entry.1

/-- `readStream`: the events of one run, in sequence order. -/
def readStream (db : Db) (runId : RunId) : List Event :=
  (db.log.filter fun e => e.runId == runId).insertionSort fun a b => a.runSeq ≤ b.runSeq

end Flory
