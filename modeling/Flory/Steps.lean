import Flory.Append

/-!
# The Steps of the System

Everything one step can do, said once. `WorkerStep` lists the moves of a Coordinator
worker with the database they leave behind in closed form and the guards they passed;
`EnvironmentStep` lists what the Engine and the clock do. The invariants of the later
modules are proved by cases on these two relations and never unfold a database function.

## Main results

* `advance_workerStep`: every transaction of a worker is one of the listed moves.
* `step_actions`, `step_cases`: every step of the system is a move of one worker or a step of
  its environment.
-/

namespace Flory

open Except (error ok)
open Fallible (bind_eq_ok)

variable {v : VertexId}
  {leaseMs : ℕ} {runId : RunId} {scopeId : ScopeId} {item : ScopedItem} {result : Execution}
  {world world' : World} {reader : WorkerId} {a : Action}

/-! ### The moves of a worker -/

/-- Where a worker goes on after a failed statement or a failed tool call. -/
def Pc.recover : Pc → Pc
  | .requests (_ :: rest) => .requests rest
  | .expired (_ :: rest) => .expired rest
  | .record site _ | .calling site _ _ | .retry site _ _ => site.failed
  | .completeMember c _ | .suspendCancel c _ | .completeCancel c => c.resume.failed
  | _ => .idle

/-- A cancellation a worker is about to ask for. -/
structure CancelRequest where
  runId : RunId
  scopeId : ScopeId
  reason : String
  origin : CancelOrigin
  next : CancelDecision → Pc

/-- The cancellation the next transaction of a worker asks for. -/
def Pc.request? : Pc → Option CancelRequest
  | .requests ((runId, scopeId) :: rest) =>
    some ⟨runId, scopeId, "engine request", .engine, afterRequest runId scopeId rest⟩
  | .expired ((runId, scopeId) :: rest) =>
    some ⟨runId, scopeId, "sealed try timeout", .timeout,
      afterDecision runId scopeId (.expired rest) (.expired rest)⟩
  | _ => none

/-- The `txn/cancel {requested}` of a request. -/
def CancelRequest.event (request : CancelRequest) : EventDraft :=
  cancelEvent request.scopeId (cancelKey request.scopeId) .requested request.reason

/-- The database after a `txn/scope` was stored and projected. -/
def Db.pushState (db : Db) (runId : RunId) (scopeId : ScopeId) (payload : ScopePayload) : Db :=
  (db.push runId (scopeEvent scopeId payload)).setScope scopeId
    (projectScope db (db.stamp runId (scopeEvent scopeId payload)) scopeId payload)

/-- The database after a `vertex/failed` was stored and projected. -/
def Db.pushFailure (db : Db) (runId : RunId) (draft : EventDraft) : Db :=
  fenceOnScopedFailure coordinator (db.push runId draft) (db.stamp runId draft)

/-- The database after a try and its success were stored and projected. -/
def Db.pushTry (db : Db) (item : WorkItem) (scopeId : ScopeId) (deadline : Time) : Db :=
  let draft := vertexEvent item (.txnTry (tryPayload item deadline))
  { db.push item.runId draft with
    brackets := db.brackets.insert item.tool.txn.idempotencyKey <|
      projectTry (db.stamp item.runId draft) scopeId item.vertexId (tryPayload item deadline) }

/-- The database after a cancellation was requested. -/
def Db.pushCancel (db : Db) (request : CancelRequest) (row : ScopeRow) : Db :=
  { (db.push request.runId request.event).setScope request.scopeId
      { row.answer .requested with
        state := .cancelling, cancelIdempotencyKey := some (cancelKey request.scopeId) } with
    members := cancelMembers (db.push request.runId request.event) request.runId request.scopeId
    queue := withoutPendingWork db request.runId request.scopeId }

/-- The database with the evidence of a new attempt. -/
def Db.addAttempt (db : Db) (row : AttemptRow) : Db :=
  { db with
    attempts := db.attempts.insert db.nextAttemptId row
    nextAttemptId := db.nextAttemptId + 1 }

/-- The success event of a call. -/
def successEvent (item : WorkItem) (result : Execution) : EventDraft :=
  vertexEvent item (.vertexSucceeded ⟨some result.attempts, result.response.result⟩)

/-- The failure event of a refusal. -/
def refusalEvent (item : WorkItem) (reason : String) (attempts : ℕ) : EventDraft :=
  vertexEvent item (.vertexFailed ⟨attempts, reason, .response .permanentFailure⟩)

/-- The failure event of a pivot that did not happen. -/
def absenceEvent (item : WorkItem) (result : Execution) (detail : String) : EventDraft :=
  vertexEvent item (.vertexFailed ⟨result.attempts, detail, .confirmedAbsent⟩)

/-- **The moves of a worker**: from where it stands, over the database it finds, to the
database it leaves and where it stands next. -/
inductive WorkerStep (cfg : Config) (me : WorkerId) (db : Db) : Pc → Db → Pc → Prop
  | poll : WorkerStep cfg me db .idle db (.requests (pendingCancelRequests db))
  | sweep {order : List (RunId × ScopeId)} (horder : order.Perm (expiredScopes db)) :
      WorkerStep cfg me db .idle db (.expired order)
  | crash (pc : Pc) : WorkerStep cfg me db pc db .idle
  | failed (pc : Pc) : WorkerStep cfg me db pc db pc.recover
  | answered (site : Site) (attempt attemptId : ℕ) (response : OperationResponse) :
      WorkerStep cfg me db (.calling site attempt attemptId) db
        (answered db.now site attempt attemptId response)
  | noRequest : WorkerStep cfg me db (.requests []) db .claim
  | duplicate {pc : Pc} {request : CancelRequest} {row : ScopeRow} (hpc : pc.request? = some request)
      (hrow : db.scopeOf request.runId request.scopeId = some row)
      (hstate : row.state = .cancelling ∨ row.state = .cancelled)
      (hkey : row.cancelIdempotencyKey = some (cancelKey request.scopeId)) :
      WorkerStep cfg me db pc (db.setScope request.scopeId (row.answer .duplicate))
        (request.next .duplicate)
  | stillSuspended {pc : Pc} {request : CancelRequest} {row : ScopeRow}
      (hpc : pc.request? = some request)
      (hrow : db.scopeOf request.runId request.scopeId = some row)
      (hstate : row.state = .suspended) :
      WorkerStep cfg me db pc (db.setScope request.scopeId (row.answer .suspended))
        (request.next .suspended)
  | ineligible {pc : Pc} {request : CancelRequest} (hpc : pc.request? = some request) :
      WorkerStep cfg me db pc db (request.next .ineligible)
  | deferred {pc : Pc} {request : CancelRequest} {row : ScopeRow} (hpc : pc.request? = some request)
      (hrow : db.scopeOf request.runId request.scopeId = some row)
      (hstate : row.state = .opened)
      (hlease : liveLease db request.runId request.scopeId = true) :
      WorkerStep cfg me db pc (db.setScope request.scopeId (row.defer db.now))
        (request.next .deferred)
  | suspended {pc : Pc} {request : CancelRequest} {row : ScopeRow}
      (hpc : pc.request? = some request)
      (hrow : db.scopeOf request.runId request.scopeId = some row)
      (hstate : row.state = .opened)
      (hunresolved : unresolvedAttempt db request.runId request.scopeId = true) :
      WorkerStep cfg me db pc (db.pushState request.runId request.scopeId
        ⟨.suspended, [], [], "unresolved attempt", request.reason⟩) (request.next .suspended)
  | requested {pc : Pc} {request : CancelRequest} {row : ScopeRow}
      (hpc : pc.request? = some request)
      (hrow : db.scopeOf request.runId request.scopeId = some row)
      (hstate : row.state = .opened)
      (hlease : liveLease db request.runId request.scopeId = false)
      (hresolved : unresolvedAttempt db request.runId request.scopeId = false)
      (hauthority : row.cancelRequestedSeq.isSome = true ∨ expiredTry db request.scopeId = true) :
      WorkerStep cfg me db pc (db.pushCancel request row) (request.next .requested)
  | noWork : WorkerStep cfg me db .claim db .idle
  | claimed {v : VertexId} {row : QueueRow} (hrow : db.queue.lookup v = some row)
      (hready : ready db .coordinator row = true)
      (hadmissible : floryClaimAdmissible
        ((row.scopeId.bind (db.scopeOf row.runId)).map floryScopeClaimState) row.payload = true) :
      WorkerStep cfg me db .claim (leaseRow db me cfg.leaseMs v row).2
        (dispatch (leaseRow db me cfg.leaseMs v row).1)
  | barrier (item : WorkItem) :
      WorkerStep cfg me db (.barrier item)
        ((db.push item.runId (vertexEvent item (.vertexStarted .barrierPhase))).push item.runId
          (vertexEvent item (.vertexSucceeded ⟨none, .obj [("barrier", .str "sealed")]⟩)))
        (.complete item)
  | ensured {item : ScopedItem} {row : ScopeRow}
      (hrow : db.scopeOf item.item.runId item.scopeId = some row) :
      WorkerStep cfg me db (.ensure item) db (dispatchScoped item)
  | opened {item : ScopedItem} (hnone : db.scopeOf item.item.runId item.scopeId = none) :
      WorkerStep cfg me db (.ensure item) (db.pushState item.item.runId item.scopeId
        (openingPayload db item.item.runId item.scopeId)) (dispatchScoped item)
  | unowned {item : WorkItem} (howner : bracketOwner db item.tool.txn.idempotencyKey = none) :
      WorkerStep cfg me db (.owner item) db (.start item)
  | ownedBySelf {item : WorkItem}
      (howner : bracketOwner db item.tool.txn.idempotencyKey = some item.vertexId) :
      WorkerStep cfg me db (.owner item) db (.complete item)
  | ownedByOther {item : WorkItem} {owner : VertexId}
      (howner : bracketOwner db item.tool.txn.idempotencyKey = some owner)
      (hne : owner ≠ item.vertexId) :
      WorkerStep cfg me db (.owner item) db (.refuse item (ownedMessage item owner) 0)
  | started (item : WorkItem) :
      WorkerStep cfg me db (.start item)
        (db.push item.runId (vertexEvent item (.vertexStarted (.attempt 1))))
        ((Site.regular item).enter (finishRegular item db.now))
  | completed {item : WorkItem} {row : QueueRow} (hrow : db.queue.lookup item.vertexId = some row)
      (hclaimed : row.claimedBy = some me) :
      WorkerStep cfg me db (.complete item) { db with queue := db.queue.erase item.vertexId } .idle
  | refused (item : WorkItem) (reason : String) (attempts : ℕ) :
      WorkerStep cfg me db (.refuse item reason attempts)
        (db.pushFailure item.runId (refusalEvent item reason attempts)) (.complete item)
  | refusedUnstarted (item : WorkItem) (reason : String) :
      WorkerStep cfg me db (.refuse item reason 0)
        ((db.push item.runId (vertexEvent item (.vertexStarted (.attempt 1)))).pushFailure
          item.runId (refusalEvent item reason 0)) (.complete item)
  | recorded {site : Site} {attempt : ℕ}
      (hscope : ∀ s, site.call.scopeId = some s → ∃ row, db.scopeOf site.call.runId s = some row ∧
        row.state ∈ site.call.operation.admissible)
      (hlease : holdsLease db me (site.call.start attempt) = true) :
      WorkerStep cfg me db (.record site attempt)
        (db.addAttempt ((site.call.start attempt).row me)) (.calling site attempt db.nextAttemptId)
  | resolved {site : Site} {attempt attemptId : ℕ} {response : OperationResponse}
      {outcome : AttemptOutcome} (houtcome : response.outcome.evidence = some outcome) :
      WorkerStep cfg me db (.resolve site attempt attemptId response)
        (resolveAttempt db attemptId outcome) (afterAttempt db.now site attempt attemptId response)
  | unresolved {site : Site} {attempt attemptId : ℕ} {response : OperationResponse}
      (houtcome : response.outcome.evidence = none) :
      WorkerStep cfg me db (.resolve site attempt attemptId response) db
        (afterAttempt db.now site attempt attemptId response)
  | retried (site : Site) (attempt : ℕ) (response : OperationResponse) :
      WorkerStep cfg me db (.retry site attempt response)
        (db.push site.call.runId (retriedEvent site.call (attempt + 1) response.error))
        (.record site (attempt + 1))
  | failedCall (item : WorkItem) (result : Execution) :
      WorkerStep cfg me db (.fail item result)
        (db.pushFailure item.runId (failureEvent item result)) (.complete item)
  | sealed {item : WorkItem} {result : Execution} {deadline : Time} {s : ScopeId}
      (hscope : item.scopeId = some s) (htry : item.tool.txn.mode.isTry = true)
      (hkey : db.brackets.lookup item.tool.txn.idempotencyKey = none)
      (hexists : (db.scopes.lookup s).isSome) :
      WorkerStep cfg me db (.succeed item result deadline)
        ((db.pushTry item s deadline).push item.runId (successEvent item result)) (.complete item)
  | succeeded {item : WorkItem} {result : Execution} {deadline : Time}
      (hplain : item.scopeId = none ∨ item.tool.txn.mode.isTry = false) :
      WorkerStep cfg me db (.succeed item result deadline)
        (db.push item.runId (successEvent item result)) (.complete item)
  | conflict (item : WorkItem) (result : Execution) (deadline : Time) :
      WorkerStep cfg me db (.succeed item result deadline) db
        (.refuse item (conflictMessage item) result.attempts)
  | admitted {item : ScopedItem} {row : ScopeRow}
      (hrow : db.scopeOf item.item.runId item.scopeId = some row) (hstate : row.state = .opened)
      (hfence : row.fencedAt = none)
      (hsealed : sealedCount db item.item.runId item.scopeId row = row.requiredTryVertices.length) :
      WorkerStep cfg me db (.admitPivot item)
        ((db.setScope item.scopeId
          { row with state := .pivotInflight, pivotVertexId := some item.item.vertexId }).push
          item.item.runId (admissionEvent item.scopeId item.item.vertexId))
        ((Site.pivot item).enter (finishPivot item))
  | notAdmitted (item : ScopedItem) : WorkerStep cfg me db (.admitPivot item) db (.release item)
  | released {item : ScopedItem} {row : QueueRow}
      (hrow : db.queue.lookup item.item.vertexId = some row) (hclaimed : row.claimedBy = some me) :
      WorkerStep cfg me db (.release item)
        { db with queue := db.queue.insert item.item.vertexId (row.release (db.now + cfg.pollMs)) }
        .idle
  | occurred (item : ScopedItem) (result : Execution) :
      WorkerStep cfg me db (.occurred item result) (resolveAttempt db result.attemptId .succeeded)
        (.pass item { result with response :=
          { outcome := .succeeded, result := .obj [("status_confirmed", .bool true)] } })
  | suspendedPivot (item : ScopedItem) (result : Execution) :
      WorkerStep cfg me db (.suspendPivot item result)
        ((db.pushFailure item.item.runId (failureEvent item.item result)).pushState
          item.item.runId item.scopeId { state := .suspended }) (.complete item.item)
  | passed {item : ScopedItem} {result : Execution} {row : ScopeRow}
      (hrow : db.scopeOf item.item.runId item.scopeId = some row)
      (hstate : row.state = .pivotInflight) (hpivot : row.pivotVertexId = some item.item.vertexId) :
      WorkerStep cfg me db (.pass item result)
        (((db.push item.item.runId (vertexEvent item.item .txnPivotPassed)).setScope item.scopeId
          { row with state := .pivotPassed }).push item.item.runId (successEvent item.item result))
        (.sealed item)
  | absent (item : ScopedItem) (result : Execution) (detail : String) :
      WorkerStep cfg me db (.absent item result detail)
        (resolveAttempt db result.attemptId .confirmedAbsent) (.reopen item result detail)
  | reopened {item : ScopedItem} {result : Execution} {detail : String} {row : ScopeRow}
      (hrow : db.scopeOf item.item.runId item.scopeId = some row)
      (hstate : row.state = .pivotInflight) (hpivot : row.pivotVertexId = some item.item.vertexId) :
      WorkerStep cfg me db (.reopen item result detail)
        (db.setScope item.scopeId { row.fence db.now with state := .opened, pivotVertexId := none })
        (.failAbsent item result detail)
  | failedAbsent (item : ScopedItem) (result : Execution) (detail : String) :
      WorkerStep cfg me db (.failAbsent item result detail)
        (db.pushFailure item.item.runId (absenceEvent item.item result detail))
        (.complete item.item)
  | listed (item : ScopedItem) :
      WorkerStep cfg me db (.sealed item) db
        (confirmNext item (sealedBrackets db item.item.runId item.scopeId))
  | confirmed {item : ScopedItem} {bracket : SealedBracket} {rest : List SealedBracket}
      {row : BracketRow} (hrow : db.brackets.lookup bracket.idempotencyKey = some row)
      (hrun : row.runId = item.item.runId) (hscope : row.scopeId = item.scopeId)
      (hstate : row.state = .sealed) :
      WorkerStep cfg me db (.confirmed item bracket rest)
        { db.push item.item.runId (confirmEvent item.scopeId bracket) with
          brackets := db.brackets.insert bracket.idempotencyKey { row with state := .confirmed } }
        (confirmNext item rest)
  | suspendedConfirm (item : ScopedItem) :
      WorkerStep cfg me db (.suspendConfirm item)
        (db.pushState item.item.runId item.scopeId { state := .suspended }) (.complete item.item)
  | committed (item : ScopedItem) :
      WorkerStep cfg me db (.commit item)
        (db.pushState item.item.runId item.scopeId { state := .committed }) (.complete item.item)
  | noMember {c : Cancellation} (hnone : claimableMembers db c.runId c.scopeId = []) :
      WorkerStep cfg me db (.claimMember c) db (.completeCancel c)
  | memberClaimed {c : Cancellation} {key : MemberKey} {row : MemberRow}
      {rest : List (MemberKey × MemberRow)}
      (hclaim : claimableMembers db c.runId c.scopeId = (key, row) :: rest) :
      WorkerStep cfg me db (.claimMember c)
        { db with members := db.members.insert key (row.claim me (db.now + cfg.leaseMs)) }
        ((Site.inverse c (row.member key.vertexId)).enter
          (finishInverse c (row.member key.vertexId)))
  | memberCompleted {c : Cancellation} {member : CancelMember} {row : MemberRow}
      (hrow : db.members.lookup ⟨c.runId, c.scopeId, member.vertexId⟩ = some row)
      (hclaimed : row.claimedBy = some me) :
      WorkerStep cfg me db (.completeMember c member)
        { db with members := db.members.insert ⟨c.runId, c.scopeId, member.vertexId⟩ row.complete }
        (.claimMember c)
  | suspendedCancel (c : Cancellation) (member : CancelMember) :
      WorkerStep cfg me db (.suspendCancel c member)
        (db.pushState c.runId c.scopeId { state := .suspended }) c.resume.done
  | cancelCompleted {c : Cancellation} {row : ScopeRow}
      (hrow : db.scopeOf c.runId c.scopeId = some row) (hstate : row.state = .cancelling)
      (hkey : row.cancelIdempotencyKey = some c.idempotencyKey)
      (hmembers : incompleteMember db c.runId c.scopeId = false) :
      WorkerStep cfg me db (.completeCancel c)
        { (db.push c.runId (cancelEvent c.scopeId c.idempotencyKey .completed "")).setScope c.scopeId
            { row with state := .cancelled } with
          brackets := cancelBrackets db c.runId c.scopeId } c.resume.done
  | noExpired : WorkerStep cfg me db (.expired []) db .stuck
  | stuck : WorkerStep cfg me db .stuck db (.resumeStuck (stuckCancellations db))

/-! ### Every transaction is a listed move -/

variable {pc' : Pc}

/-- A statement that is accepted, or leaves the database as it was. -/
theorem WorkerStep.of_proceed {cfg : Config} {me : WorkerId} {db db' : Db} {pc next : Pc}
    {result : Except DbError Db} {failed : DbError → Pc}
    (h : some (proceed db result next failed) = some (db', pc'))
    (hok : ∀ db', result = ok db' → WorkerStep cfg me db pc db' next)
    (hfail : ∀ err, WorkerStep cfg me db pc db (failed err)) : WorkerStep cfg me db pc db' pc' := by
  cases result with
  | ok =>
    cases h
    exact hok _ rfl
  | error err =>
    cases h
    exact hfail err

/-- A statement with a value, accepted or not. -/
theorem WorkerStep.of_proceedWith {α : Type} {cfg : Config} {me : WorkerId} {db db' : Db} {pc : Pc}
    {result : Except DbError (α × Db)} {next : α → Pc} {failed : DbError → Pc}
    (h : some (proceedWith db result next failed) = some (db', pc'))
    (hok : ∀ a db', result = ok (a, db') → WorkerStep cfg me db pc db' (next a))
    (hfail : ∀ err, WorkerStep cfg me db pc db (failed err)) : WorkerStep cfg me db pc db' pc' := by
  cases result with
  | ok =>
    cases h
    exact hok _ _ rfl
  | error err =>
    cases h
    exact hfail err

variable {cfg : Config} {me : WorkerId} {db db' : Db}

/-- A decided cancellation. -/
theorem requestScopeCancel_workerStep (pc : Pc) {request : CancelRequest}
    {decision : CancelDecision} (hpc : pc.request? = some request)
    (h : requestScopeCancel db request.runId request.scopeId (cancelKey request.scopeId)
      request.reason request.origin = ok (decision, db')) :
    WorkerStep cfg me db pc db' (request.next decision) := by
  unfold requestScopeCancel at h
  cases hrow : db.scopeOf request.runId request.scopeId with
  | none => simp [hrow] at h
  | some row =>
    simp only [hrow] at h
    split at h
    · rename_i hstate
      split at h
      · rename_i hkey
        cases h
        exact .duplicate hpc hrow hstate hkey
      · cases h
    · split at h
      · rename_i hstate
        cases h
        exact .stillSuspended hpc hrow hstate.1
      split at h
      · rename_i hopen
        unfold decideOpenScope at h
        split at h
        · cases h
        split at h
        · cases h
          exact .ineligible hpc
        split at h
        · rename_i hlease
          cases h
          exact .deferred hpc hrow hopen hlease
        rename_i hlease
        split at h
        · rename_i hunr
          obtain ⟨mid, hmid, h⟩ := bind_eq_ok.mp h
          cases h
          obtain rfl := appendOne_state (append_single hmid) rfl rfl
          exact .suspended hpc hrow hopen hunr
        · rename_i hres
          obtain ⟨mid, hmid, h⟩ := bind_eq_ok.mp h
          cases h
          obtain ⟨row', hrow', -, haut, rfl⟩ :=
            appendOne_cancelRequested (append_single hmid) rfl rfl rfl
          obtain rfl : row = row' := Option.mem_unique hrow hrow'
          exact .requested hpc hrow hopen (by simpa using hlease) (by simpa using hres) haut
      · cases h

variable {claimed : WorkItem × Db}

/-- A claim of work leases a ready row its scope hands out. -/
theorem claimReadyWork_eq_some (h : claimReadyWork db me leaseMs = some claimed) :
    ∃ v row, db.queue.lookup v = some row ∧ ready db .coordinator row = true ∧
      floryClaimAdmissible ((row.scopeId.bind (db.scopeOf row.runId)).map floryScopeClaimState)
        row.payload = true ∧ claimed = leaseRow db me leaseMs v row := by
  obtain ⟨⟨v, candidate⟩, hmem, hclaim⟩ := List.exists_of_findSome?_eq_some h
  have hcan := List.mem_of_mem_take hmem
  rw [List.mem_insertionSort] at hcan
  obtain ⟨hlook, hcond⟩ := Table.mem_rowsWhere.mp hcan
  obtain ⟨hready, -⟩ := Bool.and_eq_true_iff.mp hcond
  simp only [claimCandidate, hlook] at hclaim
  split at hclaim
  · rename_i hadm
    split at hclaim
    · exact ⟨v, candidate, hlook, hready, hadm, (Option.some.inj hclaim).symm⟩
    · cases hclaim
  · cases hclaim

/-- A completed item was claimed by the worker that completes it. -/
theorem completeWork_ok (h : completeWork db me v = ok db') :
    ∃ row, db.queue.lookup v = some row ∧ row.claimedBy = some me ∧
      db' = { db with queue := db.queue.erase v } := by
  unfold completeWork at h
  cases hrow : db.queue.lookup v with
  | none => simp [hrow, completeWork.refused] at h
  | some row =>
    simp only [hrow] at h
    split at h
    · exact ⟨row, rfl, ‹_›, (Except.ok.inj h).symm⟩
    · simp [completeWork.refused] at h

/-- A released item was claimed by the worker that releases it. -/
theorem releaseWork_ok {delayMs : ℕ} (h : releaseWork db me v delayMs = ok db') :
    ∃ row, db.queue.lookup v = some row ∧ row.claimedBy = some me ∧
      db' = { db with queue := db.queue.insert v (row.release (db.now + delayMs)) } := by
  unfold releaseWork at h
  cases hrow : db.queue.lookup v with
  | none => simp [hrow, releaseWork.refused] at h
  | some row =>
    simp only [hrow] at h
    split at h
    · exact ⟨row, rfl, ‹_›, (Except.ok.inj h).symm⟩
    · simp [releaseWork.refused] at h

/-- A recorded attempt found its scope in an admissible state and its lease live. -/
theorem recordAttemptStart_ok {start : AttemptStart} {attemptId : ℕ}
    (h : recordAttemptStart db me start = ok (attemptId, db')) :
    (∀ s, start.scopeId = some s → ∃ row, db.scopeOf start.runId s = some row ∧
        row.state ∈ start.operation.admissible) ∧
      holdsLease db me start = true ∧ attemptId = db.nextAttemptId ∧
      db' = db.addAttempt (start.row me) := by
  obtain ⟨⟨⟩, hscope, h⟩ := bind_eq_ok.mp h
  split at h
  · rename_i hlease
    cases h
    refine ⟨fun s hs => ?_, hlease, rfl, rfl⟩
    simp only [checkAttemptScope, hs] at hscope
    split at hscope
    · cases hscope
    rename_i row hrow
    refine ⟨row, hrow, ?_⟩
    by_contra hnot
    simp [hnot] at hscope
  · cases h

/-- An admission, or its refusal. -/
theorem admitPivot_ok {admitted : Bool} (h : admitPivot db runId scopeId v = ok (admitted, db')) :
    (admitted = false ∧ db' = db) ∨ (admitted = true ∧ ∃ row, db.scopeOf runId scopeId = some row ∧
      row.state = .opened ∧ row.fencedAt = none ∧
      sealedCount db runId scopeId row = row.requiredTryVertices.length ∧
      db' = (db.setScope scopeId { row with state := .pivotInflight, pivotVertexId := some v }).push
        runId (admissionEvent scopeId v)) := by
  unfold admitPivot at h
  cases hrow : db.scopeOf runId scopeId with
  | none =>
    simp only [hrow] at h
    cases h
    exact .inl ⟨rfl, rfl⟩
  | some row =>
    simp only [hrow] at h
    split at h
    · rename_i hguard
      obtain ⟨_, hmid, h⟩ := bind_eq_ok.mp h
      cases h
      obtain rfl := appendOne_note (append_single hmid) rfl
      exact .inr ⟨rfl, row, rfl, hguard.1, hguard.2.1, hguard.2.2, rfl⟩
    · cases h
      exact .inl ⟨rfl, rfl⟩

/-- A scope that exists, or is opened now. -/
theorem ensureTxnScope_workerStep {created : Bool}
    (h : ensureTxnScope db item.item.runId item.scopeId = ok (created, db')) :
    WorkerStep cfg me db (.ensure item) db' (dispatchScoped item) := by
  unfold ensureTxnScope at h
  cases hrow : db.scopeOf item.item.runId item.scopeId with
  | some =>
    simp only [hrow] at h
    cases h
    exact .ensured hrow
  | none =>
    simp only [hrow] at h
    obtain ⟨_, hmid, h⟩ := bind_eq_ok.mp h
    cases h
    obtain rfl := appendOne_state (append_single hmid) rfl rfl
    exact .opened hrow

/-- A reopened scope was in flight with this pivot. -/
theorem resolvePivotAbsent_ok (h : resolvePivotAbsent db runId scopeId v = ok db') :
    ∃ row, db.scopeOf runId scopeId = some row ∧ row.state = .pivotInflight ∧
      row.pivotVertexId = some v ∧
      db' = db.setScope scopeId { row.fence db.now with state := .opened, pivotVertexId := none } := by
  unfold resolvePivotAbsent at h
  cases hrow : db.scopeOf runId scopeId with
  | none => simp [hrow, resolvePivotAbsent.refused] at h
  | some row =>
    simp only [hrow] at h
    split at h
    · rename_i hguard
      exact ⟨row, rfl, hguard.1, hguard.2, (Except.ok.inj h).symm⟩
    · simp [resolvePivotAbsent.refused] at h

/-- A completed inverse was claimed by the worker that completes it. -/
theorem completeCancelMember_ok (h : completeCancelMember db me runId scopeId v = ok db') :
    ∃ row, db.members.lookup ⟨runId, scopeId, v⟩ = some row ∧ row.claimedBy = some me ∧
      db' = { db with members := db.members.insert ⟨runId, scopeId, v⟩ row.complete } := by
  unfold completeCancelMember at h
  cases hrow : db.members.lookup ⟨runId, scopeId, v⟩ with
  | none => simp [hrow, completeCancelMember.refused] at h
  | some row =>
    simp only [hrow] at h
    split at h
    · exact ⟨row, rfl, ‹_›, (Except.ok.inj h).symm⟩
    · simp [completeCancelMember.refused] at h

/-- The appends of a refusal. -/
theorem append_refusal {item : WorkItem} {reason : String} {attempts : ℕ}
    (h : append db item.runId (refusalEvents item reason attempts) = ok db') :
    WorkerStep cfg me db (.refuse item reason attempts) db' (.complete item) := by
  unfold refusalEvents at h
  by_cases hzero : attempts = 0
  · subst hzero
    rw [if_pos rfl, List.cons_append, List.nil_append] at h
    obtain ⟨_, hstart, hfail⟩ := append_pair h
    obtain rfl := appendOne_note hstart rfl
    obtain rfl := appendOne_failure hfail rfl
    exact .refusedUnstarted item reason
  · rw [if_neg hzero, List.nil_append] at h
    obtain rfl := appendOne_failure (append_single h) rfl
    exact .refused item reason attempts

/-- The appends of a success. -/
theorem append_success {item : WorkItem} {deadline : Time}
    (h : append db item.runId (successEvents item result deadline) = ok db') :
    WorkerStep cfg me db (.succeed item result deadline) db' (.complete item) := by
  unfold successEvents at h
  by_cases htry : (item.scopeId.isSome && item.tool.txn.mode.isTry) = true
  · rw [if_pos htry, List.cons_append, List.nil_append] at h
    obtain ⟨hscope, hmode⟩ := Bool.and_eq_true_iff.mp htry
    obtain ⟨s, hs⟩ := Option.isSome_iff_exists.mp hscope
    obtain ⟨_, hseal, hsuc⟩ := append_pair h
    obtain ⟨hkey, hexis, rfl⟩ := appendOne_try hseal hs rfl rfl
    obtain rfl := appendOne_note hsuc rfl
    exact .sealed hs hmode hkey hexis
  · rw [if_neg htry, List.nil_append] at h
    obtain rfl := appendOne_note (append_single h) rfl
    refine .succeeded ?_
    cases hs : item.scopeId with
    | none => exact .inl rfl
    | some => simpa [hs] using htry

/-- The appends of a suspended pivot. -/
theorem append_suspension
    (h : append db item.item.runId [failureEvent item.item result,
      stateEvent item.scopeId .suspended] = ok db') :
    db' = (db.pushFailure item.item.runId (failureEvent item.item result)).pushState
      item.item.runId item.scopeId { state := .suspended } := by
  obtain ⟨_, hfail, hstate⟩ := append_pair h
  obtain rfl := appendOne_failure hfail rfl
  exact appendOne_state hstate rfl rfl

/-- The appends of a passed pivot. -/
theorem append_pass
    (h : append db item.item.runId [vertexEvent item.item .txnPivotPassed,
      vertexEvent item.item (.vertexSucceeded ⟨some result.attempts, result.response.result⟩)] =
      ok db') :
    WorkerStep cfg me db (.pass item result) db' (.sealed item) := by
  obtain ⟨_, hpass, hsuc⟩ := append_pair h
  obtain ⟨_, hrow, hstate, hpiv, rfl⟩ := appendOne_pivotPassed hpass item.inScope rfl
  obtain rfl := appendOne_note hsuc rfl
  exact .passed hrow hstate hpiv

/-- The part of a worker's loop that a point belongs to. -/
inductive Pc.Part
  | dispatch
  | call
  | pivot
  | confirm
  | cancel

def Pc.part : Pc → Pc.Part
  | .idle | .requests _ | .claim | .barrier _ | .ensure _ | .owner _ | .start _ | .complete _
  | .refuse .. => .dispatch
  | .record .. | .calling .. | .resolve .. | .retry .. | .fail .. | .succeed .. => .call
  | .admitPivot _ | .release _ | .occurred .. | .suspendPivot .. | .pass .. | .absent .. | .reopen ..
  | .failAbsent .. => .pivot
  | .sealed _ | .confirmed .. | .suspendConfirm .. | .commit _ => .confirm
  | .claimMember _ | .completeMember .. | .suspendCancel .. | .completeCancel _ | .expired _
  | .stuck => .cancel

/-- Asking for cancellations, claiming an item and handing it on. -/
theorem dispatch_workerStep {pc : Pc} (hpart : pc.part = .dispatch)
    (h : advance cfg me db pc = some (db', pc')) : WorkerStep cfg me db pc db' pc' := by
  cases pc with
  | idle => cases h
  | requests list =>
    cases list with
    | nil =>
      cases h
      exact .noRequest
    | cons request rest =>
      refine .of_proceedWith h (fun d _ hok => ?_) fun _ => .failed (.requests (request :: rest))
      exact requestScopeCancel_workerStep (.requests (request :: rest)) rfl hok
  | claim =>
    simp only [advance, Option.some.injEq] at h
    split at h
    · rename_i item db₁ hclaim
      cases h
      obtain ⟨v, row, hrow, hready, hadm, heq⟩ := claimReadyWork_eq_some hclaim
      cases heq
      exact .claimed hrow hready hadm
    · cases h
      exact .noWork
  | barrier item =>
    refine .of_proceed h (fun _ hok => ?_) fun _ => .crash _
    obtain ⟨_, hstart, hdone⟩ := append_pair hok
    obtain rfl := appendOne_note hstart rfl
    obtain rfl := appendOne_note hdone rfl
    exact .barrier item
  | ensure =>
    refine .of_proceedWith h (fun _ _ hok => ?_) fun _ => .crash _
    exact ensureTxnScope_workerStep hok
  | owner item =>
    simp only [advance, Option.some.injEq] at h
    split at h
    · rename_i hnone
      cases h
      exact .unowned hnone
    rename_i owner hown
    split at h
    · rename_i hself
      subst hself
      cases h
      exact .ownedBySelf hown
    · rename_i hoth
      cases h
      exact .ownedByOther hown hoth
  | start item =>
    refine .of_proceed h (fun _ hok => ?_) fun _ => .crash _
    obtain rfl := appendOne_note (append_single hok) rfl
    exact .started item
  | complete =>
    refine .of_proceed h (fun _ hok => ?_) fun _ => .crash _
    obtain ⟨row, hrow, hclaimed, rfl⟩ := completeWork_ok hok
    exact .completed hrow hclaimed
  | refuse =>
    refine .of_proceed h (fun _ hok => ?_) fun _ => .crash _
    exact append_refusal hok
  | _ => cases hpart

/-- A call with its attempts, and the end of an item. -/
theorem call_workerStep {pc : Pc} (hpart : pc.part = .call)
    (h : advance cfg me db pc = some (db', pc')) : WorkerStep cfg me db pc db' pc' := by
  cases pc with
  | calling => cases h
  | record site attempt =>
    refine .of_proceedWith h (fun id _ hok => ?_) fun _ => .failed (.record site attempt)
    obtain ⟨hscope, hlease, rfl, rfl⟩ := recordAttemptStart_ok hok
    exact .recorded hscope hlease
  | resolve site attempt attemptId response =>
    cases h
    cases hout : response.outcome.evidence with
    | some => exact .resolved hout
    | none => exact .unresolved hout
  | retry site attempt response =>
    refine .of_proceed h (fun _ hok => ?_) fun _ => .failed (.retry site attempt response)
    obtain rfl := appendOne_note (append_single hok) rfl
    exact .retried site attempt response
  | fail item result =>
    refine .of_proceed h (fun _ hok => ?_) fun _ => .crash _
    obtain rfl := appendOne_failure (append_single hok) rfl
    exact .failedCall item result
  | succeed item result deadline =>
    refine .of_proceed h (fun _ hok => append_success hok) fun err => ?_
    by_cases hcon : isBracketKeyConflict err = true
    · rw [if_pos hcon]
      exact .conflict item result deadline
    · rw [if_neg hcon]
      exact .crash _
  | _ => cases hpart

/-- The admission of a pivot and what its outcome leads to. -/
theorem pivot_workerStep {pc : Pc} (hpart : pc.part = .pivot)
    (h : advance cfg me db pc = some (db', pc')) : WorkerStep cfg me db pc db' pc' := by
  cases pc with
  | admitPivot item =>
    refine .of_proceedWith h (fun _ _ hok => ?_) fun _ => .crash _
    rcases admitPivot_ok hok with ⟨rfl, rfl⟩ | ⟨rfl, row, hrow, hstate, hfen, hseal, rfl⟩
    · exact .notAdmitted item
    · exact .admitted hrow hstate hfen hseal
  | release =>
    refine .of_proceed h (fun _ hok => ?_) fun _ => .crash _
    obtain ⟨row, hrow, hclaimed, rfl⟩ := releaseWork_ok hok
    exact .released hrow hclaimed
  | occurred item result =>
    cases h
    exact .occurred item result
  | suspendPivot item result =>
    refine .of_proceed h (fun _ hok => ?_) fun _ => .crash _
    obtain rfl := append_suspension hok
    exact .suspendedPivot item result
  | pass =>
    refine .of_proceed h (fun _ hok => ?_) fun _ => .crash _
    exact append_pass hok
  | absent item result detail =>
    cases h
    exact .absent item result detail
  | reopen =>
    refine .of_proceed h (fun _ hok => ?_) fun _ => .crash _
    obtain ⟨row, hrow, hstate, hpiv, rfl⟩ := resolvePivotAbsent_ok hok
    exact .reopened hrow hstate hpiv
  | failAbsent item result detail =>
    refine .of_proceed h (fun _ hok => ?_) fun _ => .crash _
    obtain rfl := appendOne_failure (append_single hok) rfl
    exact .failedAbsent item result detail
  | _ => cases hpart

/-- The brackets behind a passed pivot. -/
theorem confirm_workerStep {pc : Pc} (hpart : pc.part = .confirm)
    (h : advance cfg me db pc = some (db', pc')) : WorkerStep cfg me db pc db' pc' := by
  cases pc with
  | sealed item =>
    cases h
    exact .listed item
  | confirmed =>
    refine .of_proceed h (fun _ hok => ?_) fun _ => .crash _
    obtain ⟨row, hrow, hrun, hscope, hstate, rfl⟩ := appendOne_confirm (append_single hok) rfl
    exact .confirmed hrow hrun (Option.some.inj hscope) hstate
  | suspendConfirm item =>
    refine .of_proceed h (fun _ hok => ?_) fun _ => .crash _
    obtain rfl := appendOne_state (append_single hok) rfl rfl
    exact .suspendedConfirm item
  | commit item =>
    refine .of_proceed h (fun _ hok => ?_) fun _ => .crash _
    obtain rfl := appendOne_state (append_single hok) rfl rfl
    exact .committed item
  | _ => cases hpart

/-- The members of a cancellation, and the sweeps. -/
theorem cancel_workerStep {pc : Pc} (hpart : pc.part = .cancel)
    (h : advance cfg me db pc = some (db', pc')) : WorkerStep cfg me db pc db' pc' := by
  cases pc with
  | claimMember c =>
    simp only [advance, Option.some.injEq, claimCancelMember] at h
    cases hclaim : claimableMembers db c.runId c.scopeId with
    | nil =>
      simp only [hclaim] at h
      cases h
      exact .noMember hclaim
    | cons =>
      simp only [hclaim] at h
      cases h
      exact .memberClaimed hclaim
  | completeMember c member =>
    refine .of_proceed h (fun _ hok => ?_) fun _ => .failed (.completeMember c member)
    obtain ⟨row, hrow, hclaimed, rfl⟩ := completeCancelMember_ok hok
    exact .memberCompleted hrow hclaimed
  | suspendCancel c member =>
    refine .of_proceed h (fun _ hok => ?_) fun _ => .failed (.suspendCancel c member)
    obtain rfl := appendOne_state (append_single hok) rfl rfl
    exact .suspendedCancel c member
  | completeCancel c =>
    refine .of_proceed h (fun _ hok => ?_) fun _ => .failed (.completeCancel c)
    obtain ⟨row, hrow, hstate, hkey, hmem, rfl⟩ :=
      appendOne_cancelCompleted (append_single hok) rfl rfl rfl
    exact .cancelCompleted hrow hstate hkey hmem
  | expired list =>
    cases list with
    | nil =>
      cases h
      exact .noExpired
    | cons request rest =>
      refine .of_proceedWith h (fun d _ hok => ?_) fun _ => .failed (.expired (request :: rest))
      exact requestScopeCancel_workerStep (.expired (request :: rest)) rfl hok
  | stuck =>
    cases h
    exact .stuck
  | _ => cases hpart

/-- **Every transaction of a worker is one of the listed moves.** -/
theorem advance_workerStep {pc : Pc} (h : advance cfg me db pc = some (db', pc')) :
    WorkerStep cfg me db pc db' pc' := by
  cases hpart : pc.part with
  | dispatch => exact dispatch_workerStep hpart h
  | call => exact call_workerStep hpart h
  | pivot => exact pivot_workerStep hpart h
  | confirm => exact confirm_workerStep hpart h
  | cancel => exact cancel_workerStep hpart h

/-! ### The environment -/

/-- **What the Engine and the clock do.** -/
inductive EnvironmentStep (db : Db) : Db → Prop
  | tick (ms : ℕ) : EnvironmentStep db { db with now := db.now + ms }
  | createRun {runId : RunId} (hnew : db.runs.lookup runId = none) :
      EnvironmentStep db { db with runs := db.runs.insert runId {} }
  | freeze {runId : RunId} {vertices : List FrozenVertex} {proposedSeq : ℕ} {db' : Db}
      (hfreezable : freezable db runId vertices = true)
      (hchange : FreezeChange runId vertices (freezeDrafts vertices proposedSeq) db db') :
      EnvironmentStep db db'
  | engineAppend {runId : RunId} {drafts : List EventDraft} {db' : Db}
      (hdrafts : drafts.all engineDraft = true)
      (happend : appendEvents engine runId drafts db = ok db')
      (hchange : EngineChange db db') : EnvironmentStep db db'
  | claimRead {v : VertexId} {row : QueueRow} (reader : WorkerId) (leaseMs : ℕ)
      (hrow : db.queue.lookup v = some row)
      (hclass : floryExecutorClass row.payload row.scopeId = .orchestrator) :
      EnvironmentStep db (leaseRow db reader leaseMs v row).2
  | completeRead {v : VertexId} {row : QueueRow} (hrow : db.queue.lookup v = some row)
      (hclass : floryExecutorClass row.payload row.scopeId = .orchestrator) :
      EnvironmentStep db { db with queue := db.queue.erase v }
  | releaseRead {v : VertexId} {row : QueueRow} (readyAt : Time)
      (hrow : db.queue.lookup v = some row)
      (hclass : floryExecutorClass row.payload row.scopeId = .orchestrator) :
      EnvironmentStep db { db with queue := db.queue.insert v (row.release readyAt) }
  | same : EnvironmentStep db db

/-- A statement of the Engine that was accepted. -/
theorem commit_eq_some {result : Except DbError Db} (h : world.commit result = some world') :
    result = ok world'.db ∧ world'.workers = world.workers := by
  cases result with
  | ok =>
    cases h
    exact ⟨rfl, rfl⟩
  | error => cases h

/-- The Engine claims a queued read. -/
theorem claimReadyRead_eq_some (h : claimReadyRead db reader leaseMs = some claimed) :
    ∃ v row, db.queue.lookup v = some row ∧
      floryExecutorClass row.payload row.scopeId = .orchestrator ∧
      claimed = leaseRow db reader leaseMs v row := by
  unfold claimReadyRead at h
  split at h
  · cases h
  rename_i v row rest hsor
  cases h
  have hmem : (v, row) ∈ db.queue.rowsWhere fun _ row => ready db .orchestrator row := by
    rw [← List.mem_insertionSort fun a b => queueOrder a b = true, hsor]
    exact List.mem_cons_self
  obtain ⟨hrow, hready⟩ := Table.mem_rowsWhere.mp hmem
  simp only [ready, Bool.and_eq_true, beq_iff_eq] at hready
  exact ⟨v, row, hrow, hready.1.1.1, rfl⟩

/-- The Engine claims reads only. -/
theorem claimReadyRead_step (h : claimReadyRead db reader leaseMs = some claimed) :
    EnvironmentStep db claimed.2 ∧ claimed.2.log = db.log ∧ claimed.2.now = db.now := by
  obtain ⟨v, _, hrow, hclass, rfl⟩ := claimReadyRead_eq_some h
  exact ⟨.claimRead reader leaseMs hrow hclass, rfl, rfl⟩

/-- The Engine completes reads only. -/
theorem completeRead_step (h : completeRead db reader v = ok db') :
    EnvironmentStep db db' ∧ db'.log = db.log ∧ db'.now = db.now := by
  unfold completeRead at h
  split at h
  · rename_i howns
    cases h
    cases hrow : db.queue.lookup v with
    | none => simp [hrow] at howns
    | some =>
      simp only [hrow, Option.any_some, ownsRead, Bool.and_eq_true, beq_iff_eq] at howns
      exact ⟨.completeRead hrow howns.2, rfl, rfl⟩
  · cases h

/-- The Engine releases reads only. -/
theorem releaseRead_step (reader : WorkerId) (v : VertexId) (delayMs : ℕ) :
    EnvironmentStep db (releaseRead db reader v delayMs) ∧
      (releaseRead db reader v delayMs).log = db.log ∧
      (releaseRead db reader v delayMs).now = db.now := by
  unfold releaseRead
  split
  · rename_i row hrow
    split
    · rename_i howns
      simp only [ownsRead, Bool.and_eq_true, beq_iff_eq] at howns
      exact ⟨.releaseRead _ hrow howns.2, rfl, rfl⟩
    · exact ⟨.same, rfl, rfl⟩
  · exact ⟨.same, rfl, rfl⟩

/-- The step of one worker, seen from the world. Only `advance` touches the database. -/
structure WorkerMove (cfg : Config) (world : World) (a : Action) (world' : World) (w : WorkerId) :
    Prop where
  step : WorkerStep cfg w world.db (world.workers w) world'.db (world'.workers w)
  others : ∀ w', w' ≠ w → world'.workers w' = world.workers w'
  action : a = .advance w ∨ world'.db = world.db

/-- A worker's move, as the world records it. -/
theorem workerMove_of_step {w : WorkerId} {next : Db × Pc}
    (h : WorkerStep cfg w world.db (world.workers w) next.1 next.2)
    (hact : a = .advance w ∨ next.1 = world.db) :
    WorkerMove cfg world a (world.move w next) w where
  step := by simpa [World.move] using h
  others := fun w' hw => by simp [World.move, hw]
  action := hact

/-- **What the Engine wrote with an action**: a freeze, a batch of its other events, or
nothing. -/
inductive EngineAction (db : Db) : Action → Db → Prop
  | freeze {runId : RunId} {vertices : List FrozenVertex} {proposedSeq : ℕ} {db' : Db}
      (hfreezable : freezable db runId vertices = true)
      (happend : appendEvents engine runId (freezeDrafts vertices proposedSeq) db = ok db') :
      EngineAction db (.freeze runId vertices proposedSeq) db'
  | batch {runId : RunId} {drafts : List EventDraft} {db' : Db}
      (hdrafts : drafts.all engineDraft = true)
      (happend : appendEvents engine runId drafts db = ok db') :
      EngineAction db (.engineAppend runId drafts) db'
  | silent {a : Action} {db' : Db} (hlog : db'.log = db.log) : EngineAction db a db'

/-- **Every step of the system** is a move of one worker or a step of its environment, which
writes what the action says, and moves the clock by `tick` only. -/
theorem step_actions (h : step cfg world a = some world') :
    (∃ w, WorkerMove cfg world a world' w) ∨
      (EnvironmentStep world.db world'.db ∧ world'.workers = world.workers ∧
        EngineAction world.db a world'.db ∧
        ((∃ ms, a = .tick ms) ∨ world'.db.now = world.db.now)) := by
  cases a with
  | poll w =>
    simp only [step] at h
    split at h
    · rename_i hidle
      cases h
      exact .inl ⟨w, workerMove_of_step (hidle ▸ .poll) (.inr rfl)⟩
    · cases h
  | sweep w order =>
    simp only [step] at h
    split at h
    · rename_i hidle
      split at h
      · rename_i hord
        cases h
        exact .inl ⟨w, workerMove_of_step (hidle ▸ .sweep hord) (.inr rfl)⟩
      · cases h
    · cases h
  | advance w =>
    obtain ⟨_, hnext, rfl⟩ := Option.map_eq_some_iff.mp h
    exact .inl ⟨w, workerMove_of_step (advance_workerStep hnext) (.inl rfl)⟩
  | answer w response =>
    simp only [step] at h
    split at h
    · rename_i hpc
      cases h
      exact .inl ⟨w, workerMove_of_step (hpc ▸ .answered _ _ _ _) (.inr rfl)⟩
    · rename_i site attempt attemptId hpc
      cases h
      exact .inl ⟨w, workerMove_of_step (hpc ▸ .failed (.calling site attempt attemptId))
        (.inr rfl)⟩
    · cases h
  | crash w =>
    cases h
    exact .inl ⟨w, workerMove_of_step (.crash _) (.inr rfl)⟩
  | tick ms =>
    cases h
    exact .inr ⟨.tick ms, rfl, .silent rfl, .inl ⟨ms, rfl⟩⟩
  | createRun runId =>
    obtain ⟨hok, hwor⟩ := commit_eq_some h
    unfold createRun at hok
    split at hok
    · cases hok
    rename_i hnew
    rw [← Except.ok.inj hok]
    exact .inr ⟨.createRun (by simpa using hnew), hwor, .silent rfl, .inr rfl⟩
  | freeze runId vertices proposedSeq =>
    simp only [step] at h
    split at h
    · rename_i hfreez
      obtain ⟨hok, hwor⟩ := commit_eq_some h
      have hchan := freeze_change hok
      exact .inr ⟨.freeze hfreez hchan, hwor, .freeze hfreez hok, .inr hchan.now⟩
    · cases h
  | engineAppend runId drafts =>
    simp only [step] at h
    split at h
    · rename_i hdraf
      obtain ⟨hok, hwor⟩ := commit_eq_some h
      have hchan := engineAppend_change hdraf hok
      exact .inr ⟨.engineAppend hdraf hok hchan, hwor, .batch hdraf hok, .inr hchan.now⟩
    · cases h
  | claimRead =>
    obtain ⟨_, hclaim, rfl⟩ := Option.map_eq_some_iff.mp h
    obtain ⟨henv, hlog, hnow⟩ := claimReadyRead_step hclaim
    exact .inr ⟨henv, rfl, .silent hlog, .inr hnow⟩
  | completeRead =>
    obtain ⟨hok, hwor⟩ := commit_eq_some h
    obtain ⟨henv, hlog, hnow⟩ := completeRead_step hok
    exact .inr ⟨henv, hwor, .silent hlog, .inr hnow⟩
  | releaseRead reader v delayMs =>
    cases h
    obtain ⟨henv, hlog, hnow⟩ := releaseRead_step reader v delayMs
    exact .inr ⟨henv, rfl, .silent hlog, .inr hnow⟩

/-- Every step of the system is a move of one worker or a step of its environment. -/
theorem step_cases (h : step cfg world a = some world') :
    (∃ w, WorkerMove cfg world a world' w) ∨
      (EnvironmentStep world.db world'.db ∧ world'.workers = world.workers) :=
  (step_actions h).imp_right fun ⟨henv, hwor, _⟩ => ⟨henv, hwor⟩

end Flory
