import Flory.Database
import Flory.OrderedMap

/-!
# The Scope Fold

How the recovery ladder reads the scopes of a run off its log: the fold of a stream into the
phase of each scope, and the facts about a scope that a decision reads.

## Main results

* `get?_foldEvent`: one event's step of the fold, seen from one scope.
* `folded_induction`: induction on the fold.
-/

namespace Flory

/-! ### The phases of a scope -/

/-- Where one transaction scope stands, as far as a replan is concerned. -/
inductive ScopePhase
  | unmaterialized
  | opened
  | fenced
  | cancelRequested
  | cancelling
  | cancelled
  | suspended
  | pivotInflight
  | pivotPassed
  | committed
  deriving DecidableEq, Repr

/-- `CANCELLABLE`: the phases that can be cancelled, or are being. -/
def ScopePhase.cancellable : ScopePhase → Bool
  | .opened | .fenced | .cancelRequested | .cancelling => true
  | _ => false

/-- `UNRECOVERABLE`: the phases no cancellation can close. -/
def ScopePhase.unrecoverable : ScopePhase → Bool
  | .suspended | .pivotInflight | .pivotPassed => true
  | _ => false

/-- `TRANSIENT`: the phases that refuse every freeze in the run until they settle. -/
def ScopePhase.transient : ScopePhase → Bool
  | .fenced | .cancelRequested | .cancelling | .pivotInflight | .pivotPassed => true
  | _ => false

/-- One scope's phase and the facts about it a recovery decision reads. -/
structure FoldedScope where
  scopeId : ScopeId
  phase : ScopePhase := .unmaterialized
  members : List VertexId := []
  firstMemberSeq : ℕ
  tries : List String := []
  fencedBy : Option VertexId := none
  requestSeq : Option ℕ := none
  requestedFor : Option VertexId := none
  cancelledSeq : Option ℕ := none
  suspendedSeq : Option ℕ := none
  deriving DecidableEq, Repr

/-- `materialize`: a scope the Coordinator has handed out work in is open at least. -/
def FoldedScope.materialize (scope : FoldedScope) : FoldedScope :=
  if scope.phase = .unmaterialized then { scope with phase := .opened } else scope

/-- What a cancellation request does to a scope it names. -/
def FoldedScope.request (scope : FoldedScope) (seq : ℕ) (failed : VertexId) : FoldedScope :=
  { scope with
    phase :=
      if scope.phase = .opened ∨ scope.phase = .fenced then .cancelRequested else scope.phase
    requestSeq := some seq
    requestedFor := some failed }

/-- What an event does to the scope it is recorded in. -/
def FoldedScope.apply (scope : FoldedScope) (e : Event) : FoldedScope :=
  match e.body with
  | .vertexCreated _ =>
    { scope with
      members := scope.members ++ e.vertexId.toList
      firstMemberSeq := min scope.firstMemberSeq e.runSeq }
  | .txnScope payload =>
    match payload.state with
    | .opened => scope.materialize
    | .suspended => { scope with phase := .suspended, suspendedSeq := some e.runSeq }
    | .committed => { scope with phase := .committed }
    | .cancelled => { scope with phase := .cancelled, cancelledSeq := some e.runSeq }
    | _ => scope
  | .txnTry payload =>
    { scope.materialize with
      tries := OrderedSet.add scope.tries payload.idempotencyKey }
  | .txnConfirm key => { scope with tries := scope.tries.filter fun held => held != key }
  | .vertexStarted .pivotPhase => { scope with phase := .pivotInflight }
  | .txnPivotPassed => { scope with phase := .pivotPassed }
  | .vertexFailed payload =>
    -- An open scope, or a pivot the status query proved never happened.
    if scope.phase = .opened ∨
        (scope.phase = .pivotInflight ∧ payload.outcome = .confirmedAbsent) then
      { scope with phase := .fenced, fencedBy := e.vertexId }
    else scope
  | .txnCancel payload =>
    match payload.phase with
    | .completed =>
      { scope with phase := .cancelled, cancelledSeq := some e.runSeq, tries := [] }
    | .requested => { scope with phase := .cancelling }
  | _ => scope

/-- `scopeAt`: the scope as folded so far, or a new one no work was handed out in. -/
def scopeAt (scopes : OrderedMap ScopeId FoldedScope) (scopeId : ScopeId) (seq : ℕ) :
    FoldedScope :=
  (scopes.get? scopeId).getD { scopeId := scopeId, firstMemberSeq := seq }

/-- One event's step of the fold. -/
def foldEvent (scopes : OrderedMap ScopeId FoldedScope) (e : Event) :
    OrderedMap ScopeId FoldedScope :=
  match e.body with
  | .replanCancelRequested payload =>
    payload.scopeIds.foldl (fun scopes scopeId =>
      scopes.set scopeId ((scopeAt scopes scopeId e.runSeq).request e.runSeq
        payload.failedVertexId)) scopes
  | _ =>
    match e.scopeId with
    | none => scopes
    | some scopeId => scopes.set scopeId ((scopeAt scopes scopeId e.runSeq).apply e)

/-- `scopeCancellations`: folds the log into each scope's phase. -/
def scopeCancellations (events : List Event) : OrderedMap ScopeId FoldedScope :=
  events.foldl foldEvent .empty

/-- The state of a scope row that a phase stands for. A requested cancellation is a fence to
the row; a scope that was never opened has no row. -/
def ScopePhase.coarse : ScopePhase → Option ClaimState
  | .unmaterialized => none
  | .opened => some (.state .opened)
  | .fenced => some .fenced
  | .cancelRequested => some .fenced
  | .cancelling => some (.state .cancelling)
  | .cancelled => some (.state .cancelled)
  | .suspended => some (.state .suspended)
  | .pivotInflight => some (.state .pivotInflight)
  | .pivotPassed => some (.state .pivotPassed)
  | .committed => some (.state .committed)

/-- The state of a locked row, a fence on an open scope included. -/
def LockedScope.stored (row : LockedScope) : ClaimState :=
  if row.state = .opened ∧ row.fenced = true then .fenced else .state row.state

/-- `disagreeingScopes`: the locked rows the fold does not describe. -/
def disagreeingScopes (scopes : OrderedMap ScopeId FoldedScope) (locked : List LockedScope) :
    List ScopeId :=
  (locked.filter fun row =>
    match scopes.get? row.scopeId with
    | none => true
    | some folded => folded.phase.coarse != some row.stored).map (·.scopeId)

/-! ### One event's step -/

/-- Whether the fold of an event touches a scope: a request concerns the scopes it names, any
other event the scope it is recorded in. -/
def Event.concerns (e : Event) (s : ScopeId) : Prop :=
  match e.body with
  | .replanCancelRequested payload => s ∈ payload.scopeIds
  | _ => e.scopeId = some s

instance (e : Event) (s : ScopeId) : Decidable (e.concerns s) := by
  unfold Event.concerns
  split <;> infer_instance

/-- What an event does to a scope it concerns. -/
def FoldedScope.react (scope : FoldedScope) (e : Event) : FoldedScope :=
  match e.body with
  | .replanCancelRequested payload => scope.request e.runSeq payload.failedVertexId
  | _ => scope.apply e

/-- An event that is no request concerns the scope it is recorded in. -/
theorem Event.concerns_iff {e : Event} (h : ∀ payload, e.body ≠ .replanCancelRequested payload)
    {s : ScopeId} : e.concerns s ↔ e.scopeId = some s := by
  unfold Event.concerns
  split
  · rename_i payload hbody
    exact absurd hbody (h payload)
  · rfl

/-- The reaction to an event that is no request. -/
theorem FoldedScope.react_eq {e : Event} (h : ∀ payload, e.body ≠ .replanCancelRequested payload)
    (scope : FoldedScope) : scope.react e = scope.apply e := by
  unfold FoldedScope.react
  split
  · rename_i payload hbody
    exact absurd hbody (h payload)
  · rfl

/-- Asking twice in one event is asking once. -/
theorem FoldedScope.request_request (scope : FoldedScope) (seq : ℕ) (failed : VertexId) :
    (scope.request seq failed).request seq failed = scope.request seq failed := by
  unfold FoldedScope.request
  by_cases hphase : scope.phase = .opened ∨ scope.phase = .fenced <;> simp [hphase]

/-- What a request's names leave of a scope. -/
theorem get?_foldl_request {seq : ℕ} {failed : VertexId} {scopeIds : List ScopeId} (s : ScopeId)
    (scopes : OrderedMap ScopeId FoldedScope) :
    (scopeIds.foldl (fun scopes scopeId =>
        scopes.set scopeId ((scopeAt scopes scopeId seq).request seq failed)) scopes).get? s =
      if s ∈ scopeIds then some ((scopeAt scopes s seq).request seq failed)
      else scopes.get? s := by
  induction scopeIds generalizing scopes with
  | nil => simp
  | cons t rest ih =>
    rw [List.foldl_cons, ih]
    simp only [scopeAt, OrderedMap.get?_set, List.mem_cons]
    by_cases hst : s = t
    · subst hst
      by_cases hmem : s ∈ rest <;> simp [hmem, FoldedScope.request_request]
    · by_cases hmem : s ∈ rest <;> simp [hst, hmem]

/-- **One event's step of the fold**: a scope the event concerns reacts to it, and every other
scope is as it was. -/
theorem get?_foldEvent (scopes : OrderedMap ScopeId FoldedScope) (e : Event) (s : ScopeId) :
    (foldEvent scopes e).get? s =
      if e.concerns s then some ((scopeAt scopes s e.runSeq).react e) else scopes.get? s := by
  by_cases hreq : ∃ payload, e.body = .replanCancelRequested payload
  · obtain ⟨payload, hbody⟩ := hreq
    simp only [foldEvent, Event.concerns, FoldedScope.react, hbody]
    exact get?_foldl_request s scopes
  rw [not_exists] at hreq
  simp only [foldEvent, Event.concerns_iff hreq, FoldedScope.react_eq hreq]
  cases hscope : e.scopeId with
  | none => simp
  | some t =>
    simp only [OrderedMap.get?_set, Option.some.injEq]
    by_cases hst : s = t
    · subst hst
      simp
    · simp [hst, Ne.symm hst]

theorem scopeCancellations_append (events : List Event) (e : Event) :
    scopeCancellations (events ++ [e]) = foldEvent (scopeCancellations events) e := by
  simp [scopeCancellations]

/-- **Induction on the fold.** What holds of a scope when an event first concerns it, is kept
by the events that concern it, and by those that do not, holds of the scope a stream folds
to. -/
theorem folded_induction {s : ScopeId} {P : List Event → FoldedScope → Prop}
    (hnew : ∀ events e, e.concerns s → (scopeCancellations events).get? s = none →
      P (events ++ [e]) (FoldedScope.react { scopeId := s, firstMemberSeq := e.runSeq } e))
    (hreact : ∀ events scope e, e.concerns s → P events scope → P (events ++ [e]) (scope.react e))
    (hskip : ∀ events scope e, ¬ e.concerns s → P events scope → P (events ++ [e]) scope)
    {events : List Event} {scope : FoldedScope}
    (h : (scopeCancellations events).get? s = some scope) : P events scope := by
  induction events using List.reverseRecOn generalizing scope with
  | nil => simp [scopeCancellations, OrderedMap.empty, OrderedMap.get?] at h
  | append_singleton events e ih =>
    rw [scopeCancellations_append, get?_foldEvent] at h
    split at h
    · rename_i hcon
      cases h
      unfold scopeAt
      cases hold : (scopeCancellations events).get? s with
      | none => exact hnew events e hcon hold
      | some old => exact hreact events old e hcon (ih hold)
    · rename_i hcon
      exact hskip events scope e hcon (ih h)

end Flory
