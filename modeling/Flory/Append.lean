import Flory.Fallible
import Flory.System

/-!
# Specifications of Appends

What an accepted append does to the database, one lemma for each batch the services
append. An append of the Coordinator first stores the event (`Db.push`) and then applies
the one projection its type has; every other table is untouched.

## Main results

* `projected_of_appendOne`: the database after an accepted event, kind by kind; `appendOne_note`
  and those behind it are its closed forms.
* `engineAppend_change`, `freeze_change`: what an accepted batch of the Engine can change.
-/

namespace Flory

open Except (error ok)
open Fallible (bind_eq_ok foldlM_ok)

variable {db : Db} {runId : RunId} {scopeId : ScopeId} {db₁ db₂ db₃ db' : Db} {draft : EventDraft}
  {session : Session} {e : Event} {vertexIds : List VertexId}

namespace Db

variable (db : Db)

/-- The sequence number the next event of a run gets. -/
def nextSeq (runId : RunId) : ℕ :=
  ((db.runs.lookup runId).map RunRow.nextSeq).getD 1

/-- The event a draft becomes when it is appended now. -/
def stamp (runId : RunId) (draft : EventDraft) : Event :=
  draft.at runId (db.nextSeq runId) false

/-- The database with an event stored and its sequence number used up, before any
projection. -/
def push (runId : RunId) (draft : EventDraft) : Db :=
  { db with
    runs := db.runs.insert runId
      { (db.runs.lookup runId).getD {} with nextSeq := db.nextSeq runId + 1 }
    log := db.log ++ [db.stamp runId draft] }

variable (runId : RunId) (draft : EventDraft)

@[simp] theorem push_log : (db.push runId draft).log = db.log ++ [db.stamp runId draft] := rfl

@[simp] theorem push_scopes : (db.push runId draft).scopes = db.scopes := rfl

@[simp] theorem push_queue : (db.push runId draft).queue = db.queue := rfl

@[simp] theorem push_members : (db.push runId draft).members = db.members := rfl

@[simp] theorem stamp_runId : (db.stamp runId draft).runId = runId := rfl

@[simp] theorem stamp_runSeq : (db.stamp runId draft).runSeq = db.nextSeq runId := rfl

@[simp] theorem stamp_inherited : (db.stamp runId draft).inherited = false := rfl

@[simp] theorem stamp_body : (db.stamp runId draft).body = draft.body := rfl

variable (scopeId : ScopeId) (row : ScopeRow)

@[simp] theorem setScope_log : (db.setScope scopeId row).log = db.log := rfl

theorem lookup_setScope (scopeId' : ScopeId) :
    (db.setScope scopeId row).scopes.lookup scopeId' =
      if scopeId' = scopeId then some row else db.scopes.lookup scopeId' :=
  Table.lookup_insert_eq

/-- The scope row of a run is the scope's row, and it names the run. -/
theorem scopeOf_eq_some_iff {db : Db} {runId : RunId} {scopeId : ScopeId} {row : ScopeRow} :
    db.scopeOf runId scopeId = some row ↔
      db.scopes.lookup scopeId = some row ∧ row.runId = runId := by
  simp [scopeOf, Option.filter_eq_some_iff]

end Db

/-! ### The stored events -/

/-- The log and the sequence counters of `db'` are those of `db` after storing some more
events. -/
inductive Pushes (db : Db) : Db → Prop
  | same {db' : Db} (hruns : db'.runs = db.runs) (hlog : db'.log = db.log) : Pushes db db'
  | push {mid db' : Db} {runId : RunId} {draft : EventDraft} (h : Pushes db mid)
      (hruns : db'.runs = (mid.push runId draft).runs)
      (hlog : db'.log = (mid.push runId draft).log) : Pushes db db'

/-- Only the log and the counters matter. -/
theorem Pushes.congr (h : Pushes db db₁) (hruns : db₂.runs = db₁.runs) (hlog : db₂.log = db₁.log) :
    Pushes db db₂ := by
  cases h with
  | same hr hl => exact .same (hruns.trans hr) (hlog.trans hl)
  | push h hr hl => exact .push h (hruns.trans hr) (hlog.trans hl)

theorem Pushes.trans (h₁ : Pushes db₁ db₂) (h₂ : Pushes db₂ db₃) : Pushes db₁ db₃ := by
  induction h₂ with
  | same hr hl => exact h₁.congr hr hl
  | push _ hr hl ih => exact .push ih hr hl

theorem Pushes.one (hruns : db'.runs = (db.push runId draft).runs)
    (hlog : db'.log = (db.push runId draft).log) : Pushes db db' :=
  .push (.same rfl rfl) hruns hlog

/-! ### One event -/

/-- An accepted event passed both checks, and its projections ran on the database that
already holds it. -/
theorem appendOne_ok (hcopy : session.inheritCopy = false)
    (h : appendOne session runId db draft = ok db') :
    (db.runs.lookup runId).isSome ∧
      checkNoCancelAfterPivot session db (db.stamp runId draft) = ok () ∧
      checkEventOwnership session db (db.stamp runId draft) = ok () ∧
      afterInsert session (db.push runId draft) (db.stamp runId draft) = ok db' := by
  unfold appendOne at h
  split at h
  · cases h
  rename_i row hrow
  have hseq : db.nextSeq runId = row.nextSeq := by simp [Db.nextSeq, hrow]
  simp only [insertEvent, bind_eq_ok, hcopy] at h
  obtain ⟨⟨⟩, hcan, ⟨⟩, hown, haft⟩ := h
  simp only [Db.stamp, Db.push, hseq, hrow]
  exact ⟨rfl, hcan, hown, haft⟩

/-! ### What the projections of an event do -/

/-- Whether an event has no projection. -/
def EventBody.isNote : EventBody → Bool
  | .replanCancelRequested _ | .subgraphShadowed _ | .vertexCreated _ | .vertexFailed _ => false
  | .txnScope _ | .txnTry _ | .txnPivotPassed | .txnConfirm _ | .txnCancel _ => false
  | _ => true

/-- An event without a projection changes nothing beyond the log. -/
theorem afterInsert_note (session : Session) (db : Db) (h : e.body.isNote = true) :
    afterInsert session db e = ok db := by
  unfold afterInsert dequeueShadowedWork registerEngineCancelRequest enqueueVertexWork
    fenceOnScopedFailure fencedScopes applyTxnProjection
  cases hbody : e.body <;> simp_all [EventBody.isNote, bind, Except.bind]

@[simp] theorem coordinator_inheritCopy : coordinator.inheritCopy = false := rfl

/-- **What the projections of an event do**: at most one trigger acts, and an inherited event
sets off none but the shadow's. -/
inductive Projected (db : Db) (e : Event) : Bool → Db → Prop
  | note {copy : Bool} (hbody : e.body.isNote = true) : Projected db e copy db
  | inherited (hbody : ∀ vertexIds, e.body ≠ .subgraphShadowed vertexIds) :
      Projected db e true db
  | shadowed {copy : Bool} {vertexIds : List VertexId}
      (hbody : e.body = .subgraphShadowed vertexIds)
      (hclosed : unclosedScopes db e.runId vertexIds = []) (hfree : leasedWork db vertexIds = []) :
      Projected db e copy
        { db with queue := db.queue.filterRows fun v _ => !vertexIds.contains v }
  | requested {payload : CancelRequestPayload} {db' : Db}
      (hbody : e.body = .replanCancelRequested payload)
      (hscopes : payload.scopeIds.foldlM (registerRequest e) db = ok db') :
      Projected db e false db'
  | idle {payload : VertexPayload} (hbody : e.body = .vertexCreated payload)
      (hidle : payload.isQueued = true → ∃ v row, e.vertexId = some v ∧
        db.queue.lookup v = some row) : Projected db e false db
  | queued {payload : VertexPayload} {v : VertexId} (hbody : e.body = .vertexCreated payload)
      (hqueued : payload.isQueued = true) (hvertex : e.vertexId = some v)
      (hnew : db.queue.lookup v = none) :
      Projected db e false { db with queue := db.queue.insert v (queueRow db.now e payload) }
  | fenced {payload : FailedPayload} (hbody : e.body = .vertexFailed payload) :
      Projected db e false (fenceOnScopedFailure coordinator db e)
  | scope {payload : ScopePayload} {s : ScopeId} (hbody : e.body = .txnScope payload)
      (hscope : e.scopeId = some s) :
      Projected db e false (db.setScope s (projectScope db e s payload))
  | tried {payload : TryPayload} {s : ScopeId} {v : VertexId} (hbody : e.body = .txnTry payload)
      (hscope : e.scopeId = some s) (hvertex : e.vertexId = some v)
      (hkey : db.brackets.lookup payload.idempotencyKey = none)
      (hexists : (db.scopes.lookup s).isSome) :
      Projected db e false { db with
        brackets := db.brackets.insert payload.idempotencyKey (projectTry e s v payload) }
  | passed {s : ScopeId} {row : ScopeRow} (hbody : e.body = .txnPivotPassed)
      (hscope : e.scopeId = some s) (hrow : db.scopeOf e.runId s = some row)
      (hstate : row.state = .pivotInflight) (hvertex : e.vertexId.isSome)
      (hpivot : row.pivotVertexId = e.vertexId) :
      Projected db e false (db.setScope s { row with state := .pivotPassed })
  | confirmed {key : String} {row : BracketRow} (hbody : e.body = .txnConfirm key)
      (hrow : db.brackets.lookup key = some row) (hrun : row.runId = e.runId)
      (hscope : some row.scopeId = e.scopeId) (hsealed : row.state = .sealed) :
      Projected db e false
        { db with brackets := db.brackets.insert key { row with state := .confirmed } }
  | cancelling {payload : CancelPayload} {s : ScopeId} {row : ScopeRow}
      (hbody : e.body = .txnCancel payload) (hphase : payload.phase = .requested)
      (hscope : e.scopeId = some s) (hrow : db.scopeOf e.runId s = some row)
      (hopen : row.state = .opened)
      (hauthority : row.cancelRequestedSeq.isSome = true ∨ expiredTry db s = true) :
      Projected db e false { db.setScope s { row.answer .requested with
          state := .cancelling, cancelIdempotencyKey := some payload.idempotencyKey } with
        members := cancelMembers db e.runId s }
  | cancelled {payload : CancelPayload} {s : ScopeId} {row : ScopeRow}
      (hbody : e.body = .txnCancel payload) (hphase : payload.phase = .completed)
      (hscope : e.scopeId = some s) (hrow : db.scopeOf e.runId s = some row)
      (hstate : row.state = .cancelling)
      (hkey : row.cancelIdempotencyKey = some payload.idempotencyKey)
      (hmembers : incompleteMember db e.runId s = false) :
      Projected db e false { db.setScope s { row with state := .cancelled } with
        brackets := cancelBrackets db e.runId s }

/-- Recording one requested scope, in closed form. -/
theorem registerRequest_eq_ok {s : ScopeId} :
    registerRequest e db s = ok db' ↔ ∃ row, db.scopeOf e.runId s = some row ∧
      row.state = .opened ∧ row.cancelRequestedSeq = none ∧
      db' = db.setScope s (row.request e.runSeq db.now) := by
  unfold registerRequest
  cases hrow : db.scopeOf e.runId s with
  | none => simp [registerRequest.refused]
  | some row =>
    by_cases hguard : row.state = .opened ∧ row.cancelRequestedSeq = none
    · simp [hguard, eq_comm]
    · simpa [hguard, registerRequest.refused] using fun hopen hnone => absurd ⟨hopen, hnone⟩ hguard

/-- A shadow, in closed form. -/
theorem dequeueShadowedWork_eq_ok (hbody : e.body = .subgraphShadowed vertexIds) :
    dequeueShadowedWork db e = ok db' ↔
      unclosedScopes db e.runId vertexIds = [] ∧ leasedWork db vertexIds = [] ∧
      db' = { db with queue := db.queue.filterRows fun v _ => !vertexIds.contains v } := by
  cases vertexIds with
  | nil =>
    simp [dequeueShadowedWork, hbody, unclosedScopes, leasedWork, Table.rowsWhere]
    exact eq_comm
  | cons first rest =>
    simp only [dequeueShadowedWork, hbody]
    cases unclosedScopes db e.runId (first :: rest) with
    | cons => simp
    | nil => cases leasedWork db (first :: rest) with
      | cons => simp
      | nil => simp [eq_comm]

theorem dequeueShadowedWork_of_ne (db : Db) (h : ∀ vertexIds, e.body ≠ .subgraphShadowed vertexIds) :
    dequeueShadowedWork db e = ok db := by
  unfold dequeueShadowedWork
  cases hbody : e.body <;> simp_all

/-- A try seals a new bracket of a known scope. -/
theorem projected_try {payload : TryPayload} (hbody : e.body = .txnTry payload)
    (h : applyTry db e payload = ok db') : Projected db e false db' := by
  unfold applyTry at h
  split at h
  · rename_i hscope hver
    split at h
    · cases h
    rename_i hkey
    split at h
    · cases h
    rename_i hexis
    exact Except.ok.inj h ▸ .tried hbody hscope hver (by simpa using hkey)
      (by simpa [Option.isSome_iff_ne_none] using hexis)
  · cases h
  · cases h

/-- A pivot that passes was admitted. -/
theorem projected_pivotPassed (hbody : e.body = .txnPivotPassed)
    (h : applyPivotPassed db e = ok db') : Projected db e false db' := by
  unfold applyPivotPassed applyPivotPassed.refused at h
  split at h
  · rename_i s row hfound
    obtain ⟨s, hscope, hmap⟩ := Option.bind_eq_some_iff.mp hfound
    obtain ⟨row, hrow, hpair⟩ := Option.map_eq_some_iff.mp hmap
    cases hpair
    split at h
    · rename_i hguard
      exact Except.ok.inj h ▸ .passed hbody hscope hrow hguard.1 hguard.2.1 hguard.2.2
    · cases h
  · cases h

/-- A confirm is of a sealed bracket. -/
theorem projected_confirm {key : String} (hbody : e.body = .txnConfirm key)
    (h : applyConfirm db e key = ok db') : Projected db e false db' := by
  unfold applyConfirm applyConfirm.refused at h
  split at h
  · rename_i row hrow
    split at h
    · rename_i hguard
      exact Except.ok.inj h ▸ .confirmed hbody hrow hguard.1 hguard.2.1 hguard.2.2
    · cases h
  · cases h

/-- A cancellation begins in an open scope, on the authority of a request or an expired try. -/
theorem projected_cancelRequested {payload : CancelPayload} {s : ScopeId}
    (hbody : e.body = .txnCancel payload)
    (hphase : payload.phase = .requested) (hscope : e.scopeId = some s)
    (h : applyCancelRequested db e s payload.idempotencyKey = ok db') :
    Projected db e false db' := by
  unfold applyCancelRequested applyCancelRequested.unauthorised at h
  split at h
  · rename_i row hrow
    split at h
    · rename_i haut
      split at h
      · rename_i hopen
        exact Except.ok.inj h ▸ .cancelling hbody hphase hscope hrow hopen
          (Bool.or_eq_true_iff.mp haut)
      · cases h
    · cases h
  · cases h

/-- It is completed under its own key, when every member is. -/
theorem projected_cancelCompleted {payload : CancelPayload} {s : ScopeId}
    (hbody : e.body = .txnCancel payload)
    (hphase : payload.phase = .completed) (hscope : e.scopeId = some s)
    (h : applyCancelCompleted db e s payload.idempotencyKey = ok db') :
    Projected db e false db' := by
  unfold applyCancelCompleted applyCancelCompleted.refused at h
  split at h
  · cases h
  rename_i hmem
  split at h
  · rename_i row hrow
    split at h
    · rename_i hguard
      exact Except.ok.inj h ▸ .cancelled hbody hphase hscope hrow hguard.1 hguard.2
        (Bool.eq_false_of_not_eq_true hmem)
    · cases h
  · cases h

/-- **Accepted projections do one of these.** -/
theorem projected_of_afterInsert (h : afterInsert session db e = ok db') :
    Projected db e session.inheritCopy db' := by
  obtain ⟨_, copy⟩ := session
  by_cases hnote : e.body.isNote = true
  · rw [afterInsert_note _ db hnote] at h
    exact Except.ok.inj h ▸ .note hnote
  by_cases hshad : ∃ vertexIds, e.body = .subgraphShadowed vertexIds
  · obtain ⟨vertexIds, hbody⟩ := hshad
    simp only [afterInsert, registerEngineCancelRequest, enqueueVertexWork, fenceOnScopedFailure,
      fencedScopes, applyTxnProjection, hbody, ite_self, bind_eq_ok, Except.ok.injEq] at h
    obtain ⟨_, hshadow, _, rfl, _, rfl, rfl⟩ := h
    obtain ⟨hclos, hfree, rfl⟩ := (dequeueShadowedWork_eq_ok hbody).mp hshadow
    exact .shadowed hbody hclos hfree
  have hshadow := dequeueShadowedWork_of_ne db (not_exists.mp hshad)
  cases copy with
  | true =>
    simp only [afterInsert, hshadow, registerEngineCancelRequest, enqueueVertexWork,
      fenceOnScopedFailure, fencedScopes, applyTxnProjection, if_true, bind_eq_ok,
      Except.ok.injEq] at h
    obtain ⟨_, rfl, _, rfl, _, rfl, rfl⟩ := h
    exact .inherited (not_exists.mp hshad)
  | false =>
    simp only [afterInsert, hshadow, registerEngineCancelRequest, enqueueVertexWork,
      fenceOnScopedFailure, fencedScopes, applyTxnProjection, bind, Except.bind,
      Bool.false_eq_true, if_false] at h
    cases hbody : e.body <;> simp only [hbody, Except.ok.injEq] at h
    case replanCancelRequested payload =>
      cases hscop : payload.scopeIds.foldlM (registerRequest e) db with
      | error => simp [hscop] at h
      | ok =>
        rw [hscop] at h
        exact Except.ok.inj h ▸ .requested hbody hscop
    case vertexCreated payload =>
      by_cases hqueued : payload.isQueued = true
      · cases hver : e.vertexId with
        | none => simp [hqueued, hver] at h
        | some v =>
          cases hrow : db.queue.lookup v with
          | none =>
            simp [hqueued, hver, hrow] at h
            exact h ▸ .queued hbody hqueued hver hrow
          | some row =>
            simp [hqueued, hver, hrow] at h
            exact h ▸ .idle hbody fun _ => ⟨v, row, hver, hrow⟩
      · simp [hqueued] at h
        exact h ▸ .idle hbody fun hqueued' => absurd hqueued' hqueued
    case vertexFailed payload =>
      have hfen : Projected db e false _ := .fenced hbody
      simpa [fenceOnScopedFailure, fencedScopes, hbody, h] using hfen
    case txnScope payload =>
      cases hscope : e.scopeId with
      | none => simp [hscope] at h
      | some =>
        simp only [hscope, Except.ok.injEq] at h
        exact h ▸ .scope hbody hscope
    case txnTry payload => exact projected_try hbody h
    case txnPivotPassed => exact projected_pivotPassed hbody h
    case txnConfirm key => exact projected_confirm hbody h
    case txnCancel payload =>
      split at h
      · exact projected_cancelRequested hbody ‹_› ‹_› h
      · exact projected_cancelCompleted hbody ‹_› ‹_› h
      · cases h
      · cases h
    all_goals simp_all [EventBody.isNote]

/-- An accepted event of a run's own. -/
theorem projected_of_appendOne (hcopy : session.inheritCopy = false)
    (h : appendOne session runId db draft = ok db') :
    Projected (db.push runId draft) (db.stamp runId draft) false db' := by
  obtain ⟨-, -, -, haft⟩ := appendOne_ok hcopy h
  exact hcopy ▸ projected_of_afterInsert haft

/-- The tables no projection of an event touches. -/
structure Kept (db db' : Db) : Prop where
  now : db'.now = db.now
  runs : db'.runs = db.runs
  log : db'.log = db.log
  attempts : db'.attempts = db.attempts

/-- **The projections of an event leave the log, the counters and the attempts alone.** -/
theorem afterInsert_kept (h : afterInsert session db e = ok db') : Kept db db' := by
  have hproj := projected_of_afterInsert h
  generalize session.inheritCopy = copy at hproj
  cases hproj with
  | requested hbody hscop =>
    refine Fallible.foldlM_invariant (I := Kept db) (fun mid s mid' _ hmid hturn => ?_)
      ⟨rfl, rfl, rfl, rfl⟩ hscop
    obtain ⟨_, -, -, -, rfl⟩ := registerRequest_eq_ok.mp hturn
    exact ⟨hmid.now, hmid.runs, hmid.log, hmid.attempts⟩
  | _ => exact ⟨rfl, rfl, rfl, rfl⟩

/-- One turn of an append stores its event. -/
theorem appendOne_log (hcopy : session.inheritCopy = false)
    (h : appendOne session runId db draft = ok db') :
    db'.log = db.log ++ [db.stamp runId draft] := by
  obtain ⟨-, -, -, haft⟩ := appendOne_ok hcopy h
  exact (afterInsert_kept haft).log

/-- **A batch stores its drafts**, in order, under its run. -/
theorem appendEvents_log (hcopy : session.inheritCopy = false) {drafts : List EventDraft}
    (h : appendEvents session runId drafts db = ok db') :
    ∃ new, db'.log = db.log ++ new ∧ new.map Event.toEventDraft = drafts ∧
      ∀ e ∈ new, e.runId = runId := by
  unfold appendEvents at h
  split at h
  · cases h
  rename_i hne
  clear hne
  induction drafts generalizing db with
  | nil =>
    cases h
    exact ⟨[], by simp⟩
  | cons draft rest ih =>
    simp only [List.foldlM_cons, bind_eq_ok] at h
    obtain ⟨_, hmid, hrest⟩ := h
    obtain ⟨new, hlog, hmap, hrun⟩ := ih hrest
    refine ⟨db.stamp runId draft :: new, ?_, by rw [List.map_cons, hmap]; rfl, ?_⟩
    · rw [hlog, appendOne_log hcopy hmid, List.append_assoc, List.singleton_append]
    · simpa using hrun

/-! ### The Coordinator's events -/

section Accepted

variable (h : appendOne coordinator runId db draft = ok db')

include h

/-- An accepted event without a projection. -/
theorem appendOne_note (hbody : draft.body.isNote = true) : db' = db.push runId draft := by
  obtain ⟨-, -, -, haft⟩ := appendOne_ok rfl h
  rw [afterInsert_note coordinator _ hbody] at haft
  exact (Except.ok.inj haft).symm

/-- An accepted failure fences its scope if that is open. -/
theorem appendOne_failure {payload : FailedPayload} (hbody : draft.body = .vertexFailed payload) :
    db' = fenceOnScopedFailure coordinator (db.push runId draft) (db.stamp runId draft) := by
  cases projected_of_appendOne rfl h with
  | fenced => rfl
  | _ => simp_all [EventBody.isNote]

/-- An accepted `txn/confirm` confirms a sealed bracket of its scope. -/
theorem appendOne_confirm {key : String} (hbody : draft.body = .txnConfirm key) :
    ∃ row, db.brackets.lookup key = some row ∧ row.runId = runId ∧
      some row.scopeId = draft.scopeId ∧ row.state = .sealed ∧
      db' = { db.push runId draft with
        brackets := db.brackets.insert key { row with state := .confirmed } } := by
  cases projected_of_appendOne rfl h with
  | confirmed hbody' hrow hrun hscope hseal =>
    obtain rfl := EventBody.txnConfirm.inj (hbody.symm.trans hbody')
    exact ⟨_, hrow, hrun, hscope, hseal, rfl⟩
  | _ => simp_all [EventBody.isNote]

variable (hscope : draft.scopeId = some scopeId)

include hscope

/-- An accepted `txn/scope` writes the state it names, whatever the state was. -/
theorem appendOne_state {payload : ScopePayload} (hbody : draft.body = .txnScope payload) :
    db' = (db.push runId draft).setScope scopeId
      (projectScope db (db.stamp runId draft) scopeId payload) := by
  cases projected_of_appendOne rfl h with
  | scope hbody' hscope' =>
    obtain rfl := EventBody.txnScope.inj (hbody.symm.trans hbody')
    obtain rfl := Option.mem_unique hscope hscope'
    rfl
  | _ => simp_all [EventBody.isNote]

/-- An accepted `txn/try` seals a bracket under a key no bracket has, in a scope that
exists. -/
theorem appendOne_try {payload : TryPayload} {v : VertexId} (hbody : draft.body = .txnTry payload)
    (hver : draft.vertexId = some v) :
    db.brackets.lookup payload.idempotencyKey = none ∧ (db.scopes.lookup scopeId).isSome ∧
      db' = { db.push runId draft with
        brackets := db.brackets.insert payload.idempotencyKey <|
          projectTry (db.stamp runId draft) scopeId v payload } := by
  cases projected_of_appendOne rfl h with
  | tried hbody' hscope' hver' hkey hexis =>
    obtain rfl := EventBody.txnTry.inj (hbody.symm.trans hbody')
    obtain rfl := Option.mem_unique hscope hscope'
    obtain rfl := Option.mem_unique hver hver'
    exact ⟨hkey, hexis, rfl⟩
  | _ => simp_all [EventBody.isNote]

/-- An accepted `txn/pivot-passed` is that of the admitted pivot. -/
theorem appendOne_pivotPassed (hbody : draft.body = .txnPivotPassed) :
    ∃ row, db.scopeOf runId scopeId = some row ∧ row.state = .pivotInflight ∧
      row.pivotVertexId = draft.vertexId ∧
      db' = (db.push runId draft).setScope scopeId { row with state := .pivotPassed } := by
  cases projected_of_appendOne rfl h with
  | passed _ hscope' hrow hstate _ hpiv =>
    obtain rfl := Option.mem_unique hscope hscope'
    exact ⟨_, hrow, hstate, hpiv, rfl⟩
  | _ => simp_all [EventBody.isNote]

/-- An accepted `txn/cancel {requested}` moves an open scope to cancelling and lists its
members. -/
theorem appendOne_cancelRequested {payload : CancelPayload}
    (hbody : draft.body = .txnCancel payload) (hphase : payload.phase = .requested) :
    ∃ row, db.scopeOf runId scopeId = some row ∧ row.state = .opened ∧
      (row.cancelRequestedSeq.isSome = true ∨ expiredTry db scopeId = true) ∧
      db' = { (db.push runId draft).setScope scopeId { row.answer .requested with
                state := .cancelling, cancelIdempotencyKey := some payload.idempotencyKey } with
              members := cancelMembers (db.push runId draft) runId scopeId } := by
  cases projected_of_appendOne rfl h with
  | cancelling hbody' _ hscope' hrow hopen haut =>
    obtain rfl := EventBody.txnCancel.inj (hbody.symm.trans hbody')
    obtain rfl := Option.mem_unique hscope hscope'
    exact ⟨_, hrow, hopen, haut, rfl⟩
  | _ => simp_all [EventBody.isNote]

/-- An accepted `txn/cancel {completed}` finds every member completed, and the scope
cancelling under its key. -/
theorem appendOne_cancelCompleted {payload : CancelPayload}
    (hbody : draft.body = .txnCancel payload) (hphase : payload.phase = .completed) :
    ∃ row, db.scopeOf runId scopeId = some row ∧ row.state = .cancelling ∧
      row.cancelIdempotencyKey = some payload.idempotencyKey ∧
      incompleteMember db runId scopeId = false ∧
      db' = { (db.push runId draft).setScope scopeId { row with state := .cancelled } with
        brackets := cancelBrackets db runId scopeId } := by
  cases projected_of_appendOne rfl h with
  | cancelled hbody' _ hscope' hrow hstate hkey hmem =>
    obtain rfl := EventBody.txnCancel.inj (hbody.symm.trans hbody')
    obtain rfl := Option.mem_unique hscope hscope'
    exact ⟨_, hrow, hstate, hkey, hmem, rfl⟩
  | _ => simp_all [EventBody.isNote]

end Accepted

theorem append_single (h : append db runId [draft] = ok db') :
    appendOne coordinator runId db draft = ok db' := by
  simpa [append, appendEvents, List.foldlM] using h

/-- A batch of two. -/
theorem append_pair {draft' : EventDraft} (h : append db runId [draft, draft'] = ok db') :
    ∃ mid, appendOne coordinator runId db draft = ok mid ∧
      appendOne coordinator runId mid draft' = ok db' := by
  simpa [append, appendEvents, List.foldlM, bind_eq_ok] using h

/-! ### The Engine's batches -/

/-- The executor class of a vertex depends on the created vertices only. -/
theorem floryVertexExecutorClass_append {new : List Event} (hlog : db'.log = db.log ++ new)
    (hnew : ∀ e ∈ new, e.body.isCreated = false) (runId : RunId) (v : Option VertexId) :
    floryVertexExecutorClass db' runId v = floryVertexExecutorClass db runId v := by
  have hcreat : ∀ u, db'.createdOf runId u = db.createdOf runId u := by
    intro u
    have hnil : new.filter (fun e => e.body.isCreated && e.runId == runId &&
        e.vertexId == some u) = [] := by
      rw [List.filter_eq_nil_iff]
      intro e he
      simp [hnew e he]
    simp [Db.createdOf, hlog, List.filter_append, hnil]
  simp [floryVertexExecutorClass, hcreat]

/-- An event the Engine may append: of its own making, and an execution event only for a
vertex it executes. -/
structure EngineEvent (db : Db) (e : Event) : Prop where
  draft : engineDraft e.toEventDraft = true
  notInherited : e.inherited = false
  executes : floryEventOwner e.body = some .executor →
    ∃ cls, floryVertexExecutorClass db e.runId e.vertexId = some cls ∧
      SessionUser.engineRole.owns cls = true

theorem EngineEvent.not_created (h : EngineEvent db e) : e.body.isCreated = false := by
  have hdraft := h.draft
  cases hbody : e.body <;> simp_all [engineDraft, EventBody.isCreated]

/-- **What the Engine can change** outside a freeze: it appends events, requests the
cancellation of open scopes, and takes unclaimed work out of the queue. -/
structure EngineChange (db db' : Db) : Prop where
  now : db'.now = db.now
  brackets : db'.brackets = db.brackets
  members : db'.members = db.members
  attempts : db'.attempts = db.attempts
  nextAttemptId : db'.nextAttemptId = db.nextAttemptId
  pushes : Pushes db db'
  log : ∃ new, db'.log = db.log ++ new ∧ ∀ e ∈ new, EngineEvent db e
  scopes : ∀ s, db'.scopes.lookup s = db.scopes.lookup s ∨
    ∃ row seq, db.scopes.lookup s = some row ∧ row.state = .opened ∧
      row.cancelRequestedSeq = none ∧ db'.scopes.lookup s = some (row.request seq db.now)
  queue : ∀ v, db'.queue.lookup v = db.queue.lookup v ∨
    db'.queue.lookup v = none ∧ ∃ row, db.queue.lookup v = some row ∧ row.claimedBy = none

theorem EngineChange.refl (db : Db) : EngineChange db db :=
  ⟨rfl, rfl, rfl, rfl, rfl, .same rfl rfl, ⟨[], by simp⟩, fun _ => .inl rfl, fun _ => .inl rfl⟩

/-- Changes of the Engine compose. -/
theorem EngineChange.trans (h₁ : EngineChange db₁ db₂) (h₂ : EngineChange db₂ db₃) :
    EngineChange db₁ db₃ where
  now := h₂.now.trans h₁.now
  brackets := h₂.brackets.trans h₁.brackets
  members := h₂.members.trans h₁.members
  attempts := h₂.attempts.trans h₁.attempts
  nextAttemptId := h₂.nextAttemptId.trans h₁.nextAttemptId
  pushes := h₁.pushes.trans h₂.pushes
  log := by
    obtain ⟨new₁, hlog₁, hnew₁⟩ := h₁.log
    obtain ⟨new₂, hlog₂, hnew₂⟩ := h₂.log
    refine ⟨new₁ ++ new₂, by rw [hlog₂, hlog₁, List.append_assoc], ?_⟩
    intro e he
    rcases List.mem_append.mp he with he | he
    · exact hnew₁ e he
    refine ⟨(hnew₂ e he).draft, (hnew₂ e he).notInherited, fun hexec => ?_⟩
    obtain ⟨cls, hcls, howns⟩ := (hnew₂ e he).executes hexec
    rw [floryVertexExecutorClass_append hlog₁ fun e he => (hnew₁ e he).not_created] at hcls
    exact ⟨cls, hcls, howns⟩
  scopes := by
    intro s
    rcases h₁.scopes s with h | ⟨row, seq, hrow, hopen, hnone, hnew⟩
    · rcases h₂.scopes s with h' | ⟨row, seq, hrow, hopen, hnone, hnew⟩
      · exact .inl (h'.trans h)
      · rw [h₁.now] at hnew
        exact .inr ⟨row, seq, h ▸ hrow, hopen, hnone, hnew⟩
    · rcases h₂.scopes s with h' | ⟨row', seq', hrow', -, hnone', -⟩
      · exact .inr ⟨row, seq, hrow, hopen, hnone, h'.trans hnew⟩
      rw [hnew] at hrow'
      obtain rfl := Option.some.inj hrow'
      simp [ScopeRow.request] at hnone'
  queue := by
    intro v
    rcases h₁.queue v with h | ⟨hgone, row, hrow, hfree⟩
    · rcases h₂.queue v with h' | ⟨hgone, row, hrow, hfree⟩
      · exact .inl (h'.trans h)
      · exact .inr ⟨hgone, row, h ▸ hrow, hfree⟩
    rcases h₂.queue v with h' | ⟨hgone', -, -, -⟩
    · exact .inr ⟨h'.trans hgone, row, hrow, hfree⟩
    · exact .inr ⟨hgone', row, hrow, hfree⟩

/-- Recording one requested scope is a change of the Engine. -/
theorem registerRequest_change {s : ScopeId} (h : registerRequest e db s = ok db') :
    EngineChange db db' := by
  obtain ⟨row, hrow, hopen, hnone, rfl⟩ := registerRequest_eq_ok.mp h
  refine ⟨rfl, rfl, rfl, rfl, rfl, .same rfl rfl, ⟨[], by simp⟩, fun s' => ?_, fun _ => .inl rfl⟩
  rw [Db.lookup_setScope]
  by_cases hs : s' = s
  · subst hs
    exact .inr ⟨row, e.runSeq, (Db.scopeOf_eq_some_iff.mp hrow).1, hopen, hnone, by simp⟩
  exact .inl (by simp [hs])

/-- A shadow finds no leased work when all the work it names is unclaimed. -/
theorem leasedWork_eq_nil_iff :
    leasedWork db vertexIds = [] ↔
      ∀ v ∈ vertexIds, ∀ row, db.queue.lookup v = some row → row.claimedBy = none := by
  rw [leasedWork, List.map_eq_nil_iff]
  simp only [List.eq_nil_iff_forall_not_mem, Prod.forall, Table.mem_rowsWhere, Bool.and_eq_true,
    List.contains_iff_mem, Option.isSome_iff_ne_none]
  constructor
  · intro h v hv row hrow
    by_contra hclaim
    exact h v row ⟨hrow, hv, hclaim⟩
  · rintro h v row ⟨hrow, hv, hclaim⟩
    exact hclaim (h v hv row hrow)

/-- Taking unclaimed work out of the queue is a change of the Engine. -/
theorem shadow_change (h : leasedWork db vertexIds = []) :
    EngineChange db
      { db with queue := db.queue.filterRows fun v _ => !vertexIds.contains v } := by
  refine ⟨rfl, rfl, rfl, rfl, rfl, .same rfl rfl, ⟨[], by simp⟩, fun _ => .inl rfl, fun v => ?_⟩
  simp only [Table.lookup_filterRows]
  cases hrow : db.queue.lookup v with
  | none => exact .inl rfl
  | some row =>
    by_cases hv : vertexIds.contains v = true
    · exact .inr ⟨by simp_all, row, rfl,
        leasedWork_eq_nil_iff.mp h v (List.contains_iff_mem.mp hv) row hrow⟩
    exact .inl (by simp_all)

/-- Storing an event of the Engine is a change of the Engine. -/
theorem push_change (hdraft : engineDraft draft = true)
    (hown : checkEventOwnership engine db (db.stamp runId draft) = ok ()) :
    EngineChange db (db.push runId draft) := by
  refine ⟨rfl, rfl, rfl, rfl, rfl, .one rfl rfl, ⟨[db.stamp runId draft], rfl, ?_⟩,
    fun _ => .inl rfl, fun _ => .inl rfl⟩
  intro e he
  obtain rfl := List.mem_singleton.mp he
  refine ⟨hdraft, rfl, fun hexec => ?_⟩
  simp only [checkEventOwnership, hexec, engine, reduceCtorEq, false_and, if_false,
    Bool.false_eq_true, if_true] at hown
  split at hown
  · cases hown
  rename_i cls hcls
  refine ⟨cls, hcls, ?_⟩
  by_contra howns
  simp [howns] at hown

/-- The Engine's own vertices are in no scope, so their failures fence none. -/
theorem fenceOnScopedFailure_engine (hdraft : engineDraft e.toEventDraft = true)
    {payload : FailedPayload} (hbody : e.body = .vertexFailed payload) :
    fenceOnScopedFailure session db e = db := by
  have hnone : e.scopeId = none := by simp_all [engineDraft]
  simp [fenceOnScopedFailure, fencedScopes, hbody, hnone]

/-- One event of the Engine: only a shadow and a request have a projection. -/
theorem appendOne_engine (hdraft : engineDraft draft = true)
    (h : appendOne engine runId db draft = ok db') : EngineChange db db' := by
  obtain ⟨-, -, hown, -⟩ := appendOne_ok rfl h
  refine (push_change hdraft hown).trans ?_
  cases projected_of_appendOne rfl h with
  | note => exact .refl _
  | shadowed _ _ hfree => exact shadow_change hfree
  | requested _ hscop =>
    exact foldlM_ok EngineChange.refl (fun _ _ _ => EngineChange.trans)
      (fun _ _ _ _ => registerRequest_change) hscop
  | fenced hbody =>
    rw [fenceOnScopedFailure_engine hdraft hbody]
    exact .refl _
  | _ => simp_all [engineDraft]

/-- **The Engine's batches outside a freeze.** -/
theorem engineAppend_change {drafts : List EventDraft} (hdraf : drafts.all engineDraft = true)
    (h : appendEvents engine runId drafts db = ok db') : EngineChange db db' := by
  unfold appendEvents at h
  split at h
  · cases h
  · exact foldlM_ok EngineChange.refl (fun _ _ _ => EngineChange.trans)
      (fun _ _ _ hmem => appendOne_engine (List.all_eq_true.mp hdraf _ hmem)) h

/-! ### Freezes -/

/-- The queue row of a frozen vertex. -/
def FrozenVertex.queueRow (v : FrozenVertex) (runId : RunId) (now : Time) : QueueRow where
  runId := runId
  readyAt := now
  parentRefs := v.parentRefs
  payload := v.payload
  scopeId := v.scopeId

/-- **What a freeze changes**: it appends its drafts, in order, and queues the tool and
barrier vertices among them. -/
structure FreezeChange (runId : RunId) (vertices : List FrozenVertex) (drafts : List EventDraft)
    (db db' : Db) : Prop where
  now : db'.now = db.now
  scopes : db'.scopes = db.scopes
  brackets : db'.brackets = db.brackets
  members : db'.members = db.members
  attempts : db'.attempts = db.attempts
  nextAttemptId : db'.nextAttemptId = db.nextAttemptId
  pushes : Pushes db db'
  log : ∃ new : List Event, db'.log = db.log ++ new ∧ new.map Event.toEventDraft = drafts ∧
    ∀ e ∈ new, e.runId = runId ∧ e.inherited = false
  queue : ∀ v, db'.queue.lookup v = db.queue.lookup v ∨
    db.queue.lookup v = none ∧ ∃ fv ∈ vertices, fv.vertexId = v ∧ fv.payload.isQueued = true ∧
      db'.queue.lookup v = some (fv.queueRow runId db.now)
  queued : ∀ fv ∈ vertices, fv.payload.isQueued = true → (db'.queue.lookup fv.vertexId).isSome
  kept : ∀ v row, db.queue.lookup v = some row → db'.queue.lookup v = some row

theorem FreezeChange.refl (runId : RunId) (db : Db) : FreezeChange runId [] [] db db :=
  ⟨rfl, rfl, rfl, rfl, rfl, rfl, .same rfl rfl, ⟨[], by simp⟩, fun _ => .inl rfl,
    by simp, fun _ _ h => h⟩

/-- Freezes compose. -/
theorem FreezeChange.trans {vs₁ vs₂ : List FrozenVertex} {ds₁ ds₂ : List EventDraft}
    (h₁ : FreezeChange runId vs₁ ds₁ db₁ db₂) (h₂ : FreezeChange runId vs₂ ds₂ db₂ db₃) :
    FreezeChange runId (vs₁ ++ vs₂) (ds₁ ++ ds₂) db₁ db₃ where
  now := h₂.now.trans h₁.now
  scopes := h₂.scopes.trans h₁.scopes
  brackets := h₂.brackets.trans h₁.brackets
  members := h₂.members.trans h₁.members
  attempts := h₂.attempts.trans h₁.attempts
  nextAttemptId := h₂.nextAttemptId.trans h₁.nextAttemptId
  pushes := h₁.pushes.trans h₂.pushes
  log := by
    obtain ⟨new₁, hlog₁, hmap₁, hnew₁⟩ := h₁.log
    obtain ⟨new₂, hlog₂, hmap₂, hnew₂⟩ := h₂.log
    refine ⟨new₁ ++ new₂, by rw [hlog₂, hlog₁, List.append_assoc], by simp [hmap₁, hmap₂], ?_⟩
    intro e he
    exact (List.mem_append.mp he).elim (hnew₁ e) (hnew₂ e)
  queue := by
    intro v
    rcases h₂.queue v with h | ⟨hnone, fv, hfv, hid, hq, hrow⟩
    · rcases h₁.queue v with h' | ⟨hnone, fv, hfv, hid, hq, hrow⟩
      · exact .inl (h.trans h')
      · exact .inr ⟨hnone, fv, by simp [hfv], hid, hq, h.trans hrow⟩
    rcases h₁.queue v with h' | ⟨hnone', fv', hfv', hid', hq', hrow'⟩
    · rw [h₁.now] at hrow
      exact .inr ⟨h' ▸ hnone, fv, by simp [hfv], hid, hq, hrow⟩
    · rw [hnone] at hrow'
      cases hrow'
  queued := by
    intro fv hfv hq
    rcases List.mem_append.mp hfv with hfv | hfv
    · obtain ⟨row, hrow⟩ := Option.isSome_iff_exists.mp (h₁.queued fv hfv hq)
      exact Option.isSome_iff_exists.mpr ⟨row, h₂.kept _ _ hrow⟩
    · exact h₂.queued fv hfv hq
  kept := fun v row h => h₂.kept v row (h₁.kept v row h)

/-- A note of the Engine inside a freeze. -/
theorem appendOne_freeze_note (hbody : draft.body.isNote = true)
    (h : appendOne engine runId db draft = ok db') : FreezeChange runId [] [draft] db db' := by
  obtain ⟨-, -, -, haft⟩ := appendOne_ok rfl h
  rw [afterInsert_note engine _ hbody] at haft
  cases haft
  exact ⟨rfl, rfl, rfl, rfl, rfl, rfl, .one rfl rfl,
    ⟨[db.stamp runId draft], rfl, rfl, by simp⟩, fun _ => .inl rfl, by simp, fun _ _ h => h⟩

/-- One created vertex. -/
theorem appendOne_created {fv : FrozenVertex} (h : appendOne engine runId db fv.draft = ok db') :
    FreezeChange runId [fv] [fv.draft] db db' := by
  have hlog : (db.push runId fv.draft).log = db.log ++ [db.stamp runId fv.draft] ∧
      [db.stamp runId fv.draft].map Event.toEventDraft = [fv.draft] ∧
      ∀ e ∈ [db.stamp runId fv.draft], e.runId = runId ∧ e.inherited = false :=
    ⟨rfl, rfl, by simp⟩
  cases projected_of_appendOne rfl h with
  | idle hbody hidle =>
    obtain rfl := EventBody.vertexCreated.inj hbody
    refine ⟨rfl, rfl, rfl, rfl, rfl, rfl, .one rfl rfl, ⟨_, hlog⟩, fun _ => .inl rfl, ?_,
      fun _ _ h => h⟩
    intro fv' hfv' hqueued
    obtain rfl := List.mem_singleton.mp hfv'
    obtain ⟨v, row, hver, hrow⟩ := hidle hqueued
    cases hver
    exact Option.isSome_iff_exists.mpr ⟨row, hrow⟩
  | queued hbody hqueued hver hnew =>
    obtain rfl := EventBody.vertexCreated.inj hbody
    cases hver
    refine ⟨rfl, rfl, rfl, rfl, rfl, rfl, .one rfl rfl, ⟨_, hlog⟩, fun v => ?_, ?_, ?_⟩
    · rw [Table.lookup_insert_eq]
      by_cases hv : v = fv.vertexId
      · subst hv
        exact .inr ⟨hnew, fv, by simp, rfl, hqueued, by simp; rfl⟩
      exact .inl (by simp [hv])
    · intro fv' hfv' _
      obtain rfl := List.mem_singleton.mp hfv'
      simp
    intro v row hv
    rw [Table.lookup_insert_eq]
    by_cases hid : v = fv.vertexId
    · rw [hid] at hv
      exact absurd (hnew.symm.trans hv) (Option.some_ne_none row).symm
    simpa [hid] using hv
  | _ => simp_all [FrozenVertex.draft, EventBody.isNote]

/-- The created vertices of a freeze, in order. -/
theorem foldlM_created {vertices : List FrozenVertex}
    (h : (vertices.map FrozenVertex.draft).foldlM (appendOne engine runId) db = ok db') :
    FreezeChange runId vertices (vertices.map FrozenVertex.draft) db db' := by
  induction vertices generalizing db with
  | nil =>
    obtain rfl := Except.ok.inj h
    exact .refl runId db
  | cons fv rest ih =>
    simp only [List.map_cons, List.foldlM_cons, bind_eq_ok] at h
    obtain ⟨_, hmid, hrest⟩ := h
    exact (appendOne_created hmid).trans (ih hrest)

/-- **A whole freeze.** -/
theorem freeze_change {vertices : List FrozenVertex} {proposedSeq : ℕ}
    (h : appendEvents engine runId (freezeDrafts vertices proposedSeq) db = ok db') :
    FreezeChange runId vertices (freezeDrafts vertices proposedSeq) db db' := by
  simp only [appendEvents, freezeDrafts, List.foldlM_cons, bind_eq_ok] at h
  obtain ⟨_, hmid, hrest⟩ := h
  exact (appendOne_freeze_note rfl hmid).trans (foldlM_created hrest)

end Flory
