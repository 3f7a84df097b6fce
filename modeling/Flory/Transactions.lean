import Flory.RowLocks
import Flory.Append

/-!
# Database Functions Statement by Statement

`Flory.Database` runs every database function at once. Here the functions that lock rows are given
one statement at a time, so that several of them can be under way: which rows a statement locks,
in which mode, whether it waits for them, and what the function does with what it then reads. The
machine is that of `Flory.RowLocks`.

Conventions of the database:

* a `SELECT … FOR UPDATE` locks the rows its condition finds and reads them once it has the locks;
* an `UPDATE` locks what it changes, for anything but a change of key;
* storing a row that references another one locks that one for key share: an attempt its run and
  its scope, a bracket its scope, an event its run;
* `now()` is the time at which the transaction began;
* a transaction that raises releases its locks and writes nothing, like one that commits nothing.

Its writes are published at the end. Within the transaction the later statements see them: an
append carries the events it has inserted, and reads the database as they leave it.

The rows a transaction inserts are its own until it ends, under ids nobody else names, so inserting
is no lock request.
-/

namespace Flory

open Except (error ok)
open RowLocks (Lock Statement)

/-! ### Rows and locks -/

/-- The rows the functions lock. -/
inductive Lockable
  | scope (scopeId : ScopeId)
  | run (runId : RunId)
  | queue (v : VertexId)
  | member (key : MemberKey)
  deriving DecidableEq

/-- `FOR UPDATE`. -/
def forUpdate (row : Lockable) : Lock Lockable :=
  ⟨row, .update⟩

/-- The lock of an `UPDATE` that leaves the key alone. -/
def forNoKeyUpdate (row : Lockable) : Lock Lockable :=
  ⟨row, .noKeyUpdate⟩

/-- The lock of a foreign key check on the row referenced. -/
def forKeyShare (row : Lockable) : Lock Lockable :=
  ⟨row, .keyShare⟩

/-- `SELECT … FROM txn_scope WHERE run_id = … AND scope_id = … FOR UPDATE`. -/
def scopeLock (db : Db) (runId : RunId) (scopeId : ScopeId) : List (Lock Lockable) :=
  if (db.scopeOf runId scopeId).isSome then [forUpdate (.scope scopeId)] else []

/-- The scope rows of a run, in the order `lock_run_scopes` takes them. -/
def runScopes (db : Db) (runId : RunId) : List (ScopeId × ScopeRow) :=
  (db.scopes.rowsWhere fun _ row => row.runId == runId).insertionSort
    fun a b => a.2.openedSeq ≤ b.2.openedSeq

/-! ### The locks of an insertion -/

/-- `check_no_cancel_after_pivot` locks the scope that a `txn/cancel` names. -/
def guardLocks (db : Db) (e : Event) : List (Lock Lockable) :=
  match e.body with
  | .txnCancel _ => e.scopeId.elim [] (scopeLock db e.runId)
  | _ => []

/-- Whether a shadow is refused before it locks anything: by its owner, or for an unclosed
scope. -/
def refusesShadow (session : Session) (own : Db) (e : Event) : Bool :=
  match e.body with
  | .subgraphShadowed vertexIds => (checkEventOwnership session own e).toOption.isNone ||
      !(unclosedScopes own e.runId vertexIds).isEmpty
  | _ => false

/-- `dequeue_shadowed_work` locks the queued work among the shadowed vertices. The rows are those
of the committed queue: what the transaction itself has queued nobody else can have locked. -/
def shadowLocks (db : Db) (e : Event) : List (Lock Lockable) :=
  match e.body with
  | .subgraphShadowed vertexIds =>
    (vertexIds.filter fun v => (db.queue.lookup v).isSome).map fun v => forUpdate (.queue v)
  | _ => []

/-- `register_engine_cancel_request` updates the open, unrequested scopes that are named. -/
def requestLocks (db : Db) (e : Event) : List (Lock Lockable) :=
  match e.body with
  | .replanCancelRequested payload =>
    (payload.scopeIds.filter fun s => (db.scopeOf e.runId s).any fun row =>
      decide (row.state = .opened ∧ row.cancelRequestedSeq = none)).map
        fun s => forNoKeyUpdate (.scope s)
  | _ => []

/-- `fence_on_scoped_failure` updates the open scope of a failure. -/
def fenceLocks (db : Db) (e : Event) : List (Lock Lockable) :=
  match e.body, e.scopeId with
  | .vertexFailed _, some s =>
    if (db.scopeOf e.runId s).any fun row => decide (row.state = .opened) then
      [forNoKeyUpdate (.scope s)]
    else []
  | _, _ => []

/-- `apply_txn_projection` updates the scope of the event, and a bracket references it. -/
def projectionLocks (db : Db) (e : Event) : List (Lock Lockable) :=
  match e.body, e.scopeId with
  | .txnScope _, some s =>
    if (db.scopes.lookup s).isSome then [forNoKeyUpdate (.scope s)] else []
  | .txnTry _, some s =>
    if (db.scopes.lookup s).isSome then [forKeyShare (.run e.runId), forKeyShare (.scope s)]
    else []
  | .txnPivotPassed, some s | .txnCancel _, some s =>
    if (db.scopeOf e.runId s).isSome then [forNoKeyUpdate (.scope s)] else []
  | _, _ => []

/-- The locks one insertion into `run_event_log` takes, in the order of its triggers: `db` is the
committed database, `own` the one the transaction sees. A refused event gets no further than the
guard. -/
def eventLocks (session : Session) (db own : Db) (e : Event) : List (Lock Lockable) :=
  guardLocks own e ++
    match checkNoCancelAfterPivot session own e, checkEventOwnership session own e with
    | ok (), ok () => forKeyShare (.run e.runId) :: (shadowLocks db e ++ requestLocks own e ++
        fenceLocks own e ++ projectionLocks own e)
    | _, _ => []

/-! ### Points -/

/-- An `append_events` inside a transaction: who appends, the scope row the transaction wrote
before, the events inserted so far and those to come, and the scope whose pending work is deleted
afterwards. -/
structure Appending where
  session : Session
  runId : RunId
  written : Option (ScopeId × ScopeRow) := none
  inserted : List EventDraft := []
  rest : List EventDraft
  dequeues : Option ScopeId := none

/-- The database as the transaction sees it: its own writes over the committed rows. -/
def Appending.view (a : Appending) (db : Db) : Except DbError Db :=
  a.inserted.foldlM (appendOne a.session a.runId)
    (a.written.elim db fun entry => db.setScope entry.1 entry.2)

/-- The append after one more insertion. -/
def Appending.next (a : Appending) (draft : EventDraft) (rest : List EventDraft) : Appending :=
  { a with inserted := a.inserted ++ [draft], rest := rest }

/-- What `request_scope_cancel` is called with. -/
structure CancelCall where
  runId : RunId
  scopeId : ScopeId
  key : String
  reason : String
  origin : CancelOrigin

/-- The decision an Engine transaction takes under the scope locks: from what it reads and the
rows it locked, the events to append, or none. -/
abbrev Decide : Type :=
  Db → List LockedScope → Option (List EventDraft)

/-- Where a transaction is in its function. -/
inductive Point
  | claim (worker : WorkerId) (leaseMs : ℕ)
  | candidates (worker : WorkerId) (leaseMs : ℕ) (rest : List (VertexId × QueueRow))
  | candidate (worker : WorkerId) (leaseMs : ℕ) (v : VertexId) (row : QueueRow) (found : Bool)
      (rest : List (VertexId × QueueRow))
  | claimed (worker : WorkerId) (leaseMs : ℕ) (v : VertexId) (rest : List (VertexId × QueueRow))
      (locked : List Lockable)
  | attempt (worker : WorkerId) (start : AttemptStart)
  | attemptScope (worker : WorkerId) (start : AttemptStart)
  | attemptLease (worker : WorkerId) (start : AttemptStart)
  | attemptRow (worker : WorkerId) (start : AttemptStart)
  | cancel (call : CancelCall)
  | cancelScope (call : CancelCall)
  | pivot (runId : RunId) (scopeId : ScopeId) (v : VertexId)
  | pivotScope (runId : RunId) (scopeId : ScopeId) (v : VertexId)
  | scopeAppend (runId : RunId) (scopeId : ScopeId) (drafts : List EventDraft)
  | engine (runId : RunId) (decision : Decide)
  | engineScopes (runId : RunId) (locked : List ScopeId) (decision : Decide)
  | append (a : Appending)
  | insert (a : Appending)
  | dequeue (a : Appending) (locked : List Lockable)

/-- The end of a transaction that writes nothing, by a return or by an exception. -/
def nothing : Statement Lockable Point Db :=
  .finish id

/-- A statement that locks nothing. -/
def goOn (next : Point) : Statement Lockable Point Db :=
  .lock [] next

/-! ### `claim_ready_work` -/

/-- The queue row the claim tries to lease: still there, and its lease over. -/
def leasable (db : Db) (v : VertexId) : List Lockable :=
  if (db.queue.lookup v).any fun row => leaseOver db.now row.leaseUntil then [.queue v] else []

/-- The lease a claim writes. -/
def writeLease (worker : WorkerId) (leaseMs : ℕ) (v : VertexId) (db : Db) : Db :=
  match db.queue.lookup v with
  | some row => (leaseRow db worker leaseMs v row).2
  | none => db

/-! ### `record_attempt_start` -/

/-- The row an attempt is recorded under a lease of. -/
def AttemptStart.leaseKey (start : AttemptStart) : Option Lockable :=
  match start.leaseSource with
  | .workQueue => some (.queue start.leaseVertexId)
  | .cancelMember =>
    start.scopeId.map fun s => .member ⟨start.runId, s, start.leaseVertexId⟩

/-- The lock on the lease row. -/
def leaseLock (start : AttemptStart) : List (Lock Lockable) :=
  (start.leaseKey.map forUpdate).toList

/-- The rows a row of `txn_attempt` references. -/
def attemptReferences (start : AttemptStart) : List (Lock Lockable) :=
  forKeyShare (.run start.runId) :: (start.scopeId.map fun s => forKeyShare (.scope s)).toList

/-- The row of `txn_attempt`. -/
def writeAttempt (worker : WorkerId) (start : AttemptStart) (db : Db) : Db :=
  { db with
    attempts := db.attempts.insert db.nextAttemptId (start.row worker)
    nextAttemptId := db.nextAttemptId + 1 }

/-! ### `request_scope_cancel` -/

/-- The decision about an open scope. -/
def cancelOpen (call : CancelCall) (row : ScopeRow) (db : Db) : Statement Lockable Point Db :=
  if call.origin = .engine ∧ row.cancelRequestedSeq = none then nothing
  else if call.origin = .timeout ∧
      decideOpenScope.expiredTryOf db call.runId call.scopeId = false then nothing
  else if liveLease db call.runId call.scopeId then
    .finish fun db => db.setScope call.scopeId (row.defer db.now)
  else if unresolvedAttempt db call.runId call.scopeId then
    goOn (.append { session := coordinator, runId := call.runId, rest := [scopeEvent call.scopeId
      ⟨.suspended, [], [], "unresolved attempt", call.reason⟩] })
  else
    goOn (.append { session := coordinator, runId := call.runId,
                    rest := [cancelEvent call.scopeId call.key .requested call.reason],
                    dequeues := some call.scopeId })

/-- The decision once the scope row is locked. -/
def cancelDecision (call : CancelCall) (db : Db) : Statement Lockable Point Db :=
  match db.scopeOf call.runId call.scopeId with
  | none => nothing
  | some row =>
    if row.state = .cancelling ∨ row.state = .cancelled then
      if row.cancelIdempotencyKey = some call.key then
        .finish fun db => db.setScope call.scopeId (row.answer .duplicate)
      else nothing
    else if row.state = .suspended ∧ call.origin = .engine ∧ row.cancelRequestedSeq.isSome then
      .finish fun db => db.setScope call.scopeId (row.answer .suspended)
    else if row.state = .opened then cancelOpen call row db
    else nothing

/-- The pending work of a scope that `request_scope_cancel` deletes. -/
def pendingWork (db : Db) (runId : RunId) (scopeId : ScopeId) : List VertexId :=
  (db.queue.rowsWhere fun _ row => row.runId == runId && row.scopeId == some scopeId &&
    !leaseLive db.now row.leaseUntil).map Prod.fst

/-! ### `append_events` -/

/-- The writes of an append, at its end. -/
def Appending.commit (a : Appending) (db : Db) : Db :=
  match a.view db with
  | ok own => own
  | error _ => db

/-- The writes of an append and of the deletion after it. -/
def Appending.commitDequeue (a : Appending) (locked : List Lockable) (db : Db) : Db :=
  match a.view db with
  | ok own => { own with queue := own.queue.filterRows fun v _ => !locked.contains (.queue v) }
  | error _ => db

/-- One turn of the loop of `append_events`, and what follows it. -/
def insertNext (a : Appending) (db : Db) : Statement Lockable Point Db :=
  match a.view db with
  | error _ => nothing
  | ok own =>
    match a.rest, a.dequeues with
    | draft :: rest, _ =>
      if refusesShadow a.session own (own.stamp a.runId draft) then nothing
      else .lock (eventLocks a.session db own (own.stamp a.runId draft))
        (.insert (a.next draft rest))
    | [], some s =>
      .skipLocked ((pendingWork own a.runId s).map Lockable.queue) (.dequeue a)
    | [], none => .finish a.commit

/-! ### Statements -/

/-- The statement at a point. -/
def Point.statement : Point → Db → Statement Lockable Point Db
  | .claim worker leaseMs, db => goOn (.candidates worker leaseMs (claimCandidates db))
  | .candidates _ _ [], _ => nothing
  | .candidates worker leaseMs ((v, row) :: rest), db =>
    let locks := row.scopeId.elim [] (scopeLock db row.runId)
    .lock locks (.candidate worker leaseMs v row (!locks.isEmpty) rest)
  | .candidate worker leaseMs v row found rest, db =>
    if found && !floryClaimAdmissible
        ((row.scopeId.bind (db.scopeOf row.runId)).map floryScopeClaimState) row.payload then
      -- `CONTINUE`: the scope row stays locked
      goOn (.candidates worker leaseMs rest)
    else .skipLocked (leasable db v) (.claimed worker leaseMs v rest)
  | .claimed worker leaseMs _ rest [], _ => goOn (.candidates worker leaseMs rest)
  | .claimed worker leaseMs v _ (_ :: _), _ => .finish (writeLease worker leaseMs v)
  | .attempt worker start, db =>
    match start.scopeId with
    | none => goOn (.attemptScope worker start)
    | some s =>
      if (db.scopeOf start.runId s).isSome then
        .lock [forUpdate (.scope s)] (.attemptScope worker start)
      else nothing
  | .attemptScope worker start, db =>
    match checkAttemptScope db start with
    | ok () =>
      if holdsLease db worker start then .lock (leaseLock start) (.attemptLease worker start)
      else nothing
    | error _ => nothing
  | .attemptLease worker start, db =>
    if holdsLease db worker start then
      .lock (attemptReferences start) (.attemptRow worker start)
    else nothing
  | .attemptRow worker start, _ => .finish (writeAttempt worker start)
  | .cancel call, db =>
    if (db.scopeOf call.runId call.scopeId).isSome then
      .lock [forUpdate (.scope call.scopeId)] (.cancelScope call)
    else nothing
  | .cancelScope call, db => cancelDecision call db
  | .pivot runId scopeId v, db =>
    if (db.scopeOf runId scopeId).any fun row =>
        decide (row.state = .opened ∧ row.fencedAt = none) then
      .lock [forUpdate (.scope scopeId)] (.pivotScope runId scopeId v)
    else nothing
  | .pivotScope runId scopeId v, db =>
    match db.scopeOf runId scopeId with
    | some row =>
      if row.state = .opened ∧ row.fencedAt = none ∧
          sealedCount db runId scopeId row = row.requiredTryVertices.length then
        goOn (.append { session := coordinator, runId := runId,
                        written := some (scopeId, { row with
                          state := .pivotInflight, pivotVertexId := some v }),
                        rest := [admissionEvent scopeId v] })
      else nothing
    | none => nothing
  | .scopeAppend runId scopeId drafts, db =>
    .lock (scopeLock db runId scopeId)
      (.append { session := coordinator, runId := runId, rest := drafts })
  | .engine runId decision, db =>
    .lock ((runScopes db runId).map fun entry => forUpdate (.scope entry.1))
      (.engineScopes runId ((runScopes db runId).map Prod.fst) decision)
  | .engineScopes runId locked decision, db =>
    match decision db ((lockRunScopes db runId).filter fun scope =>
        locked.contains scope.scopeId) with
    | none => nothing
    | some drafts =>
      goOn (.append { session := Flory.engine, runId := runId, rest := drafts })
  | .append a, db =>
    if a.rest.isEmpty then nothing
    else if (db.runs.lookup a.runId).isSome then
      .lock [forUpdate (.run a.runId)] (.insert a)
    else nothing
  | .insert a, db => insertNext a db
  | .dequeue a locked, _ => .finish (a.commitDequeue locked)

/-! ### Transactions in time -/

/-- A transaction reads `now()` as the time it began at. -/
structure Timed where
  began : Time
  point : Point

/-- A write of a transaction that began at a time: the clock itself is nobody's to write. -/
def atTime (began : Time) (write : Db → Db) (db : Db) : Db :=
  { write { db with now := began } with now := db.now }

/-- The statement of a transaction that began at a time. -/
def Timed.statement (txn : Timed) (db : Db) : Statement Lockable Timed Db :=
  match txn.point.statement { db with now := txn.began } with
  | .lock locks next => .lock locks ⟨txn.began, next⟩
  | .skipLocked rows next => .skipLocked rows fun locked => ⟨txn.began, next locked⟩
  | .finish write => .finish (atTime txn.began write)

section Inversion

variable {txn : Timed} {db : Db}

/-- A statement that waits for locks. -/
theorem Timed.statement_lock {locks : List (Lock Lockable)} {next : Timed}
    (h : txn.statement db = .lock locks next) :
    ∃ p, txn.point.statement { db with now := txn.began } = .lock locks p ∧
      next = ⟨txn.began, p⟩ := by
  unfold Timed.statement at h
  split at h
  · cases h
    exact ⟨_, ‹_›, rfl⟩
  · cases h
  · cases h

/-- A statement that skips locked rows. -/
theorem Timed.statement_skipLocked {rows : List Lockable} {next : List Lockable → Timed}
    (h : txn.statement db = .skipLocked rows next) :
    ∃ next', txn.point.statement { db with now := txn.began } = .skipLocked rows next' ∧
      next = fun locked => ⟨txn.began, next' locked⟩ := by
  unfold Timed.statement at h
  split at h
  · cases h
  · cases h
    exact ⟨_, ‹_›, rfl⟩
  · cases h

/-- The end of a transaction. -/
theorem Timed.statement_finish {write : Db → Db} (h : txn.statement db = .finish write) :
    ∃ write', txn.point.statement { db with now := txn.began } = .finish write' ∧
      write = atTime txn.began write' := by
  unfold Timed.statement at h
  split at h
  · cases h
  · cases h
  · cases h
    exact ⟨_, ‹_›, rfl⟩

end Inversion

/-- The functions that transactions are built from. `lockRunScopes` is the Engine's transaction:
the locks, its decision, and the append. -/
inductive DbCall
  | claimReadyWork (worker : WorkerId) (leaseMs : ℕ)
  | recordAttemptStart (worker : WorkerId) (start : AttemptStart)
  | requestScopeCancel (call : CancelCall)
  | admitPivot (runId : RunId) (scopeId : ScopeId) (v : VertexId)
  | appendScopeEvents (runId : RunId) (scopeId : ScopeId) (drafts : List EventDraft)
  | lockRunScopes (runId : RunId) (decision : Decide)

/-- Where a call begins. -/
def DbCall.point : DbCall → Point
  | .claimReadyWork worker leaseMs => .claim worker leaseMs
  | .recordAttemptStart worker start => .attempt worker start
  | .requestScopeCancel call => .cancel call
  | .admitPivot runId scopeId v => .pivot runId scopeId v
  | .appendScopeEvents runId scopeId drafts => .scopeAppend runId scopeId drafts
  | .lockRunScopes runId decision => .engine runId decision

/-- The code of the database. Between the calls, time passes. -/
def lockCode : RowLocks.Code DbCall Lockable Timed Db ℕ where
  enter call db := ⟨db.now, call.point⟩
  statement := Timed.statement
  environment ms db := { db with now := db.now + ms }

end Flory
