import Flory.Rows

/-!
# Program Points

What a worker holds at each program point, and how a move changes it. A worker is free,
or works on a claimed item, or holds an admitted pivot whose scope is inflight, or holds a
passed pivot whose scope awaits its confirms, or runs a cancellation (`Stage`). The
invariants about scopes are stated over stages, so they never mention a program point.

## Main results

* `finish_finished`, `enter_entered`, `afterAttempt_cases`: where a call can end.
* `loose_request_next`, `handed_dispatch`: where a worker goes that makes no call.
* `WorkerStep.stage`: how a move changes the stage of its worker.
-/

namespace Flory

variable {result : Execution} {pivot : Execution} {item : ScopedItem} {request : CancelRequest}

/-! ### Where a call ends -/

/-- The pivot call whose outcome a site settles: the pivot's own, or the one its status
query is about. -/
def Site.settles : Site → Execution → Option (ScopedItem × ℕ)
  | .pivot item, result => some (item, result.attemptId)
  | .status item admitted, _ => some (item, admitted.attemptId)
  | _, _ => none

/-- **Where a call can end**, and with which outcome. -/
inductive Finished : Site → Execution → Pc → Prop
  | succeed {item : WorkItem} {result : Execution} (deadline : Time)
      (h : result.response.outcome = .succeeded) :
      Finished (.regular item) result (.succeed item result deadline)
  | fail (item : WorkItem) (result : Execution) : Finished (.regular item) result (.fail item result)
  | query (item : ScopedItem) (result : Execution) :
      Finished (.pivot item) result (.record (.status item result) 1)
  | pass {item : ScopedItem} {result : Execution} (h : result.response.outcome = .succeeded) :
      Finished (.pivot item) result (.pass item result)
  | occurred (item : ScopedItem) (pivot result : Execution) :
      Finished (.status item pivot) result (.occurred item pivot)
  | suspendPivot {site : Site} {result pivot : Execution} {item : ScopedItem}
      (h : site.settles result = some (item, pivot.attemptId)) :
      Finished site result (.suspendPivot item pivot)
  | absent {site : Site} {result pivot : Execution} {item : ScopedItem} (detail : String)
      (h : site.settles result = some (item, pivot.attemptId)) :
      Finished site result (.absent item pivot detail)
  | reopen {site : Site} {result pivot : Execution} {item : ScopedItem} (detail : String)
      (h : site.settles result = some (item, pivot.attemptId)) :
      Finished site result (.reopen item pivot detail)
  | confirmed {item : ScopedItem} {bracket : SealedBracket} {rest : List SealedBracket}
      {result : Execution} (h : result.response.outcome = .succeeded) :
      Finished (.confirm item bracket rest) result (.confirmed item bracket rest)
  | suspendConfirm (item : ScopedItem) (bracket : SealedBracket) (rest : List SealedBracket)
      (result : Execution) : Finished (.confirm item bracket rest) result (.suspendConfirm item)
  | completeMember {c : Cancellation} {member : CancelMember} {result : Execution}
      (h : result.response.outcome = .succeeded) :
      Finished (.inverse c member) result (.completeMember c member)
  | suspendCancel (c : Cancellation) (member : CancelMember) (result : Execution) :
      Finished (.inverse c member) result (.suspendCancel c member)

variable {site : Site}

section

variable (h : site.settles result = some (item, pivot.attemptId))

include h

/-- An absent pivot ends its call. -/
theorem failAbsentPivot_finished (detail : String) :
    Finished site result (failAbsentPivot item pivot detail) := by
  unfold failAbsentPivot
  split
  · exact .absent detail h
  · exact .reopen detail h

/-- A settled pivot that did not succeed ends its call. -/
theorem settlePivot_finished (hne : pivot.response.outcome ≠ .succeeded) :
    Finished site result (settlePivot item pivot) := by
  unfold settlePivot
  split
  · exact absurd ‹_› hne
  · exact .suspendPivot h
  · exact failAbsentPivot_finished h _

/-- A status query ends the call it is about, too. -/
theorem finishStatus_finished (status : Execution)
    (hocc : status.response.outcome = .succeeded → Finished site result (.occurred item pivot)) :
    Finished site result (finishStatus item pivot status) := by
  unfold finishStatus
  split
  · rename_i hsuc
    split
    · exact hocc hsuc
    · exact failAbsentPivot_finished h _
    · exact settlePivot_finished (by exact h) (by simp)
  · exact settlePivot_finished (by exact h) (by simp)

end

/-- **Every call ends at a listed point.** -/
theorem finish_finished (now : Time) (site : Site) (result : Execution) :
    Finished site result (site.finish now result) := by
  cases site with
  | regular =>
    simp only [Site.finish, finishRegular]
    split
    · exact .succeed _ ‹_›
    · exact .fail _ _
  | pivot =>
    simp only [Site.finish, finishPivot]
    split
    · unfold Site.enter
      split
      · exact .query _ _
      · exact finishStatus_finished rfl _ (by simp [exhausted])
    · simp only [settlePivot]
      split
      · exact .pass ‹_›
      · exact .suspendPivot rfl
      · exact failAbsentPivot_finished rfl _
  | status => exact finishStatus_finished rfl _ fun _ => .occurred _ _ _
  | confirm =>
    simp only [Site.finish, finishConfirm]
    split
    · exact .confirmed ‹_›
    · exact .suspendConfirm _ _ _ _
  | inverse =>
    simp only [Site.finish, finishInverse]
    split
    · exact .completeMember ‹_›
    · exact .suspendCancel _ _ _

/-- **Where a call begins**: at its first attempt, or at its end when none is allowed. -/
inductive Entered (site : Site) : Pc → Prop
  | record : Entered site (.record site 1)
  | finished {result : Execution} {pc : Pc} (hid : result.attemptId = 0)
      (hne : result.response.outcome ≠ .succeeded) (h : Finished site result pc) : Entered site pc

/-- A site is entered at its first attempt, or is over at once. -/
theorem enter_entered (now : Time) (site : Site) : Entered site (site.enter (site.finish now)) := by
  unfold Site.enter
  split
  · exact .record
  · exact .finished rfl (by simp [exhausted]) (finish_finished now site _)

/-- The entry of a regular call. -/
theorem entered_regular {item : WorkItem} {now : Time} :
    Entered (.regular item) ((Site.regular item).enter (finishRegular item now)) :=
  enter_entered now (.regular item)

/-- The entry of a pivot. -/
theorem entered_pivot :
    Entered (.pivot item) ((Site.pivot item).enter (finishPivot item)) :=
  enter_entered 0 (.pivot item)

/-- The call of a confirm. -/
theorem entered_confirm {bracket : SealedBracket} {rest : List SealedBracket} :
    Entered (.confirm item bracket rest)
      ((Site.confirm item bracket rest).enter (finishConfirm item bracket rest)) :=
  enter_entered 0 (.confirm item bracket rest)

/-- The entry of an inverse. -/
theorem entered_inverse {c : Cancellation} {member : CancelMember} :
    Entered (.inverse c member) ((Site.inverse c member).enter (finishInverse c member)) :=
  enter_entered 0 (.inverse c member)

/-- After an attempt the call ends, or another attempt follows a retryable failure. -/
theorem afterAttempt_cases (now : Time) (site : Site) (attempt attemptId : ℕ)
    (response : OperationResponse) :
    Finished site ⟨response, attempt, attemptId⟩ (afterAttempt now site attempt attemptId response) ∨
      (response.outcome = .retryableFailure ∧
        afterAttempt now site attempt attemptId response = .retry site attempt response) := by
  unfold afterAttempt
  split
  · exact .inl (finish_finished now site _)
  rename_i h
  simp only [ne_eq, not_or, not_not] at h
  exact .inr ⟨h.1, rfl⟩

/-- **Where a call goes on**: at one of its attempts, or at its end. -/
inductive GoesOn (site : Site) : Pc → Prop
  | record (n : ℕ) : GoesOn site (.record site n)
  | retry (n : ℕ) (response : OperationResponse) : GoesOn site (.retry site n response)
  | finished {result : Execution} {pc : Pc} (h : Finished site result pc) : GoesOn site pc

variable {pc : Pc} {now : Time} {attempt attemptId : ℕ} {response : OperationResponse}

/-- To enter a site is to go on at it. -/
theorem Entered.goesOn (h : Entered site pc) : GoesOn site pc := by
  cases h with
  | record => exact .record 1
  | finished _ _ h => exact .finished h

/-- After an attempt a worker goes on at its site. -/
theorem goesOn_afterAttempt : GoesOn site (afterAttempt now site attempt attemptId response) := by
  rcases afterAttempt_cases now site attempt attemptId response with h | ⟨-, h⟩
  · exact .finished h
  · rw [h]
    exact .retry _ _

/-! ### Workers without a call -/

/-- A worker that holds no item and makes no call: it looks for work, or turns to the members of a
cancellation. -/
inductive Pc.Loose : Pc → Prop
  | idle : Loose .idle
  | requests (rest : List (RunId × ScopeId)) : Loose (.requests rest)
  | expired (rest : List (RunId × ScopeId)) : Loose (.expired rest)
  | claimMember (c : Cancellation) : Loose (.claimMember c)

/-- The sweep of stuck cancellations holds no item. -/
@[simp] theorem loose_resumeStuck (rest : List ScopeCancellation) : (Pc.resumeStuck rest).Loose := by
  cases rest with
  | nil => exact .idle
  | cons => exact .claimMember _

/-- Nor does a worker whose cancellation returned. -/
@[simp] theorem loose_done (resume : Resume) : resume.done.Loose := by
  cases resume with
  | requests => exact .idle
  | expired rest => exact .expired rest
  | stuck rest => exact loose_resumeStuck rest

/-- Nor does one whose cancellation failed. -/
theorem loose_resume_failed (resume : Resume) : resume.failed.Loose := by
  cases resume with
  | requests rest => exact .requests rest
  | expired rest => exact .expired rest
  | stuck rest => exact loose_resumeStuck rest

/-- Nor does one whose call failed. -/
theorem loose_failed (site : Site) : site.failed.Loose := by
  cases site with
  | inverse c => exact loose_resume_failed c.resume
  | _ => exact .idle

/-- Nor does one that recovers from an error. -/
@[simp] theorem loose_recover : pc.recover.Loose := by
  unfold Pc.recover
  split <;> first | exact loose_failed _ | exact loose_resume_failed _ | constructor

/-- Nor does one that asked for a cancellation, whatever the answer. -/
theorem loose_request_next (h : pc.request? = some request) {decision : CancelDecision} :
    (request.next decision).Loose := by
  unfold Pc.request? at h
  split at h <;> cases h <;> cases decision <;> constructor

/-- **Where an item is handed to**: a barrier to its own branch, an item of a scope to the scope
first, an irreversible call to the admission of its pivot, any other to `processRegular`. -/
inductive Handed (work : WorkItem) : Pc → Prop
  | barrier (h : work.payload = .barrier) : Handed work (.barrier work)
  | ensure {held : ScopedItem} (hitem : held.item = work) (h : work.payload ≠ .barrier) :
      Handed work (.ensure held)
  | refuse (reason : String) : Handed work (.refuse work reason 0)
  | owner (h : work.tool.txn.effectClass ≠ .irreversible) : Handed work (.owner work)
  | start (h : work.tool.txn.effectClass ≠ .irreversible) : Handed work (.start work)
  | admitPivot {held : ScopedItem} (hitem : held.item = work)
      (h : work.tool.txn.effectClass = .irreversible) : Handed work (.admitPivot held)

/-- `processRegular` hands over an item that is no pivot. -/
theorem handed_processRegular {work : WorkItem} (h : work.tool.txn.effectClass ≠ .irreversible) :
    Handed work (processRegular work) := by
  unfold processRegular
  split
  · exact .owner h
  · exact .start h

/-- `dispatch` hands over the item it is given. -/
theorem handed_dispatch {work : WorkItem} : Handed work (dispatch work) := by
  unfold dispatch
  split
  · exact .barrier ‹_›
  rename_i hpay
  split
  · exact .ensure rfl hpay
  split
  · exact .refuse _
  · exact handed_processRegular ‹_›

/-- So does the dispatch of an item whose scope is known. -/
theorem handed_dispatchScoped : Handed item.item (dispatchScoped item) := by
  unfold dispatchScoped
  split
  · exact .admitPivot rfl ‹_›
  · exact handed_processRegular ‹_›

/-! ### Stages -/

/-- What a worker holds. -/
inductive Stage
  | free
  | working (item : WorkItem)
  | inflight (item : ScopedItem)
  | passed (item : ScopedItem)
  | cancelling (c : Cancellation)

/-- What a worker holds while it makes a call. -/
def Site.stage : Site → Stage
  | .regular item => .working item
  | .pivot item | .status item _ => .inflight item
  | .confirm item _ _ => .passed item
  | .inverse c _ => .cancelling c

/-- What a worker holds at a program point. -/
def Pc.stage : Pc → Stage
  | .barrier item | .owner item | .start item | .complete item => .working item
  | .refuse item _ _ | .fail item _ | .succeed item _ _ => .working item
  | .ensure item | .admitPivot item | .release item | .failAbsent item _ _ => .working item.item
  | .record site _ | .calling site _ _ | .resolve site _ _ _ | .retry site _ _ => site.stage
  | .occurred item _ | .suspendPivot item _ | .pass item _ => .inflight item
  | .absent item _ _ | .reopen item _ _ => .inflight item
  | .sealed item | .confirmed item _ _ | .suspendConfirm item | .commit item => .passed item
  | .claimMember c | .completeMember c _ | .suspendCancel c _ | .completeCancel c => .cancelling c
  | _ => .free

/-- The cancellations a worker turns to when the current one is over. -/
def Resume.cancellations : Resume → List ScopeCancellation
  | .stuck rest => rest
  | _ => []

/-- The cancellations a worker runs, the current one first. -/
def Cancellation.all (c : Cancellation) : List ScopeCancellation :=
  c.toScopeCancellation :: c.resume.cancellations

namespace Stage

/-- The item a worker works on. -/
def item? : Stage → Option WorkItem
  | .working item => some item
  | .inflight item | .passed item => some item.item
  | _ => none

/-- The admitted pivot a worker holds. -/
def pivot? : Stage → Option ScopedItem
  | .inflight item | .passed item => some item
  | _ => none

/-- The cancellations a worker runs. -/
def cancellations : Stage → List ScopeCancellation
  | .cancelling c => c.all
  | _ => []

end Stage

/-- Whether a scope state belongs to a cancellation that was decided on. -/
def ScopeState.isCancelSide : ScopeState → Bool
  | .cancelling | .cancelled | .suspended => true
  | _ => false

/-- The scope of a cancellation exists under its key, on the side of cancellation. -/
def Db.Cancelling (db : Db) (c : ScopeCancellation) : Prop :=
  ∃ row, db.scopes.lookup c.scopeId = some row ∧ row.runId = c.runId ∧
    row.state.isCancelSide = true ∧ row.cancelIdempotencyKey = some c.idempotencyKey

/-- The admitted pivot of a scope is inflight. -/
def Db.Inflight (db : Db) (item : ScopedItem) : Prop :=
  ∃ row, db.scopes.lookup item.scopeId = some row ∧ row.runId = item.item.runId ∧
    row.state = .pivotInflight ∧ row.pivotVertexId = some item.item.vertexId

/-- The admitted pivot of a scope has passed. -/
def Db.Passed (db : Db) (item : ScopedItem) : Prop :=
  ∃ row, db.scopes.lookup item.scopeId = some row ∧ row.runId = item.item.runId ∧
    row.state = .pivotPassed

/-- A site that settles a pivot holds it. -/
theorem stage_settles {attemptId : ℕ} (h : site.settles result = some (item, attemptId)) :
    site.stage = .inflight item := by
  cases site <;> simp only [Site.settles, Option.some.injEq, Prod.mk.injEq, reduceCtorEq] at h <;>
    rw [← h.1] <;> rfl

/-- Going on at a site is being at its stage. -/
theorem GoesOn.stage (h : GoesOn site pc) : pc.stage = site.stage := by
  cases h with
  | finished h =>
    cases h with
    | suspendPivot h | absent detail h | reopen detail h => exact (stage_settles h).symm
    | _ => rfl
  | _ => rfl

/-- So is entering it. -/
theorem Entered.stage (h : Entered site pc) : pc.stage = site.stage :=
  h.goesOn.stage

/-- An attempt that is over leaves the stage. -/
@[simp] theorem stage_afterAttempt :
    (afterAttempt now site attempt attemptId response).stage = site.stage :=
  goesOn_afterAttempt.stage

/-- So does an answer. -/
@[simp] theorem stage_answered :
    (answered now site attempt attemptId response).stage = site.stage := by
  unfold answered
  split
  · rfl
  · exact stage_afterAttempt

/-- Confirming brackets is behind the passed pivot. -/
@[simp] theorem stage_confirmNext (brackets : List SealedBracket) :
    (confirmNext item brackets).stage = .passed item := by
  cases brackets with
  | nil => rfl
  | cons => exact entered_confirm.stage

/-- An item that was handed over is being worked on. -/
theorem Handed.stage {work : WorkItem} (h : Handed work pc) : pc.stage = .working work := by
  cases h with
  | ensure hitem | admitPivot hitem => exact congrArg Stage.working hitem
  | _ => rfl

/-- So is a dispatched one. -/
@[simp] theorem stage_dispatch (item : WorkItem) : (dispatch item).stage = .working item :=
  handed_dispatch.stage

/-- And one dispatched in its scope. -/
@[simp] theorem stage_dispatchScoped : (dispatchScoped item).stage = .working item.item :=
  handed_dispatchScoped.stage

/-- A worker without an item is at a stage without one. -/
theorem Pc.Loose.no_item (h : pc.Loose) : pc.stage.item? = none := by
  cases h <;> rfl

/-- A worker that asks for a cancellation is free. -/
theorem stage_request (h : pc.request? = some request) : pc.stage = .free := by
  unfold Pc.request? at h
  split at h
  · rfl
  · rfl
  · cases h

/-- A stage is free, or it is that of the given cancellations. -/
def Stage.Runs (stage : Stage) (rest : List ScopeCancellation) : Prop :=
  stage = .free ∨ ∃ c : Cancellation, stage = .cancelling c ∧ c.all = rest

/-- The sweep runs the cancellations that are left. -/
theorem runs_resumeStuck (rest : List ScopeCancellation) : (Pc.resumeStuck rest).stage.Runs rest := by
  cases rest with
  | nil => exact .inl rfl
  | cons => exact .inr ⟨_, rfl, rfl⟩

/-- A cancellation that returns leaves those behind it. -/
theorem runs_done (resume : Resume) : resume.done.stage.Runs resume.cancellations := by
  cases resume with
  | stuck rest => exact runs_resumeStuck rest
  | _ => exact .inl rfl

/-- So does one that fails. -/
theorem runs_failed (resume : Resume) : resume.failed.stage.Runs resume.cancellations := by
  cases resume with
  | stuck rest => exact runs_resumeStuck rest
  | _ => exact .inl rfl

/-- A stuck cancellation is one. -/
theorem cancelling_of_stuck {db : Db} {c : ScopeCancellation} (h : c ∈ stuckCancellations db) :
    db.Cancelling c := by
  simp only [stuckCancellations, List.mem_map, List.mem_insertionSort] at h
  obtain ⟨⟨s, row⟩, hmem, rfl⟩ := h
  obtain ⟨hrow, hcond⟩ := Table.mem_rowsWhere.mp hmem
  simp only [Bool.and_eq_true, beq_iff_eq, Option.isSome_iff_exists] at hcond
  obtain ⟨⟨hstate, _, hkey⟩, -⟩ := hcond
  exact ⟨row, hrow, rfl, by rw [hstate]; rfl, by simp [hkey]⟩

/-- **How a move changes the stage of its worker**, with what it leaves in the database. -/
inductive StageStep (cfg : Config) (me : WorkerId) (db db' : Db) : Stage → Stage → Prop
  | freed (stage : Stage) : StageStep cfg me db db' stage .free
  | working (item : WorkItem) : StageStep cfg me db db' (.working item) (.working item)
  | kept (stage : Stage) (hscopes : db'.scopes = db.scopes) : StageStep cfg me db db' stage stage
  | claimed {v : VertexId} {row : QueueRow} (hrow : db.queue.lookup v = some row)
      (hready : ready db .coordinator row = true)
      (hadmissible : floryClaimAdmissible
        ((row.scopeId.bind (db.scopeOf row.runId)).map floryScopeClaimState) row.payload = true) :
      StageStep cfg me db db' .free (.working ((row.claim me (db.now + cfg.leaseMs)).item v))
  | admitted {item : ScopedItem} {row : ScopeRow} (hrow : db.scopes.lookup item.scopeId = some row)
      (hstate : row.state = .opened) (h : db'.Inflight item) :
      StageStep cfg me db db' (.working item.item) (.inflight item)
  | passed {item : ScopedItem} (h : db'.Passed item) :
      StageStep cfg me db db' (.inflight item) (.passed item)
  | left {stage : Stage} {item : ScopedItem} (h : stage = .inflight item ∨ stage = .passed item) :
      StageStep cfg me db db' stage (.working item.item)
  | decided {c : Cancellation} (h : ∀ x ∈ c.all, db'.Cancelling x) :
      StageStep cfg me db db' .free (.cancelling c)
  | resumed {c c' : Cancellation} (h : c'.all = c.resume.cancellations) :
      StageStep cfg me db db' (.cancelling c) (.cancelling c')

variable {cfg : Config} {me : WorkerId} {db db' : Db} {pc pc' : Pc}

/-- A worker whose cancellation was decided on runs it; otherwise it is free. -/
theorem stageStep_request (hpc : pc.request? = some request) {decision : CancelDecision}
    (h : decision = .requested ∨ decision = .duplicate →
      db'.Cancelling ⟨request.runId, request.scopeId, cancelKey request.scopeId⟩) :
    StageStep cfg me db db' pc.stage (request.next decision).stage := by
  rw [stage_request hpc]
  unfold Pc.request? at hpc
  split at hpc <;> cases hpc <;> cases decision
  all_goals first
    | exact .freed _
    | exact .decided (List.forall_mem_singleton.mpr (h (by simp)))

/-- A cancellation is followed by those behind it. -/
theorem StageStep.next {c : Cancellation} {stage : Stage} (h : stage.Runs c.resume.cancellations) :
    StageStep cfg me db db' (.cancelling c) stage := by
  rcases h with rfl | ⟨c', rfl, hall⟩
  · exact .freed _
  · exact .resumed hall

/-- A worker recovers free, or with the next of its cancellations. -/
theorem stageStep_recover (pc : Pc) : StageStep cfg me db db' pc.stage pc.recover.stage := by
  have hsite : ∀ site : Site, StageStep cfg me db db' site.stage site.failed.stage := by
    intro site
    cases site with
    | inverse c => exact .next (runs_failed c.resume)
    | _ => exact .freed _
  unfold Pc.recover
  split <;> first | exact .freed _ | exact hsite _ | exact .next (runs_failed _)

/-- **Stages, move by move.** -/
theorem WorkerStep.stage (h : WorkerStep cfg me db pc db' pc') :
    StageStep cfg me db db' pc.stage pc'.stage := by
  cases h with
  | crash | completed | released => exact .freed _
  | failed pc => exact stageStep_recover pc
  | answered =>
    rw [stage_answered]
    exact .kept _ rfl
  | duplicate hpc hrow hstate hkey =>
    rename_i request row
    refine stageStep_request hpc fun _ => ?_
    obtain ⟨hlook, hrun⟩ := Db.scopeOf_eq_some_iff.mp hrow
    have hans := row.becomes_answer .duplicate
    refine ⟨row.answer .duplicate, by rw [Db.lookup_setScope, if_pos rfl],
      hans.runId_eq.trans hrun, ?_, hans.key_eq.trans hkey⟩
    rw [hans.state_eq]
    rcases hstate with hstate | hstate <;> rw [hstate] <;> rfl
  | stillSuspended hpc | ineligible hpc | deferred hpc
  | suspended hpc => exact stageStep_request hpc (by simp)
  | requested hpc hrow hstate hlease hres haut =>
    rename_i request row
    refine stageStep_request hpc fun _ => ?_
    have hrun := (Db.scopeOf_eq_some_iff.mp hrow).2
    exact ⟨_, (Db.lookup_setScope _ _ _ _).trans (if_pos rfl),
      (row.becomes_answer .requested).runId_eq.trans hrun, rfl, rfl⟩
  | claimed hrow hready hadm =>
    rw [stage_dispatch]
    exact .claimed hrow hready hadm
  | ensured | opened =>
    rw [stage_dispatchScoped]
    exact .working _
  | started =>
    rw [entered_regular.stage]
    exact .working _
  | recorded | retried | occurred
  | absent | noMember | memberCompleted => exact .kept _ rfl
  | resolved | unresolved =>
    rw [stage_afterAttempt]
    exact .kept _ rfl
  | admitted hrow hstate hfen hseal =>
    rename_i item row
    rw [entered_pivot.stage]
    obtain ⟨hlook, hrun⟩ := Db.scopeOf_eq_some_iff.mp hrow
    exact .admitted hlook hstate
      ⟨_, (Db.lookup_setScope _ _ _ _).trans (if_pos rfl), hrun, rfl, rfl⟩
  | suspendedPivot | reopened => exact .left (.inl rfl)
  | passed hrow =>
    have hrun := (Db.scopeOf_eq_some_iff.mp hrow).2
    exact .passed ⟨_, (Db.lookup_setScope _ _ _ _).trans (if_pos rfl), hrun, rfl⟩
  | listed | confirmed =>
    rw [stage_confirmNext]
    exact .kept _ rfl
  | suspendedConfirm | committed => exact .left (.inr rfl)
  | memberClaimed hclaim =>
    rename_i c key row rest
    rw [entered_inverse.stage]
    exact .kept _ rfl
  | suspendedCancel c => exact .next (runs_done c.resume)
  | cancelCompleted => exact .next (runs_done _)
  | stuck =>
    rcases runs_resumeStuck (stuckCancellations db) with hfree | ⟨c, hc, hall⟩
    · rw [hfree]
      exact .freed _
    rw [hc]
    refine .decided fun x hx => ?_
    rw [hall] at hx
    exact cancelling_of_stuck hx
  | _ => first | exact .freed _ | exact .working _

end Flory
