import Flory.Members

/-!
# Trace Validation

The Coordinator's offline check of a recorded event stream (`trace.Validate`): it reads the
events of a run in the order of their sequence numbers and rejects the first that breaks an
invariant of the transaction protocol. It shares no code with the triggers that enforce
these invariants when an event is stored.

## Main results

* `validate_ok`: a stream is accepted when its events are known, none of them is inherited,
  every charge names its planner, and no two of them are in an order the protocol forbids.
-/

namespace Flory

open Except (error ok)

/-! ### The validator -/

/-- `knownEvents`. -/
def knownEvents : List String :=
  ["run/start", "run/end", "run/end-seed", "subgraph/proposed", "subgraph/frozen",
    "subgraph/rejected", "subgraph/shadowed", "subgraph/unreadable", "replan/boundary",
    "replan/cancel-requested", "fork/created", "vertex/created", "vertex/started",
    "vertex/succeeded", "vertex/failed", "vertex/retried", "txn/scope", "txn/try", "txn/confirm",
    "txn/cancel", "txn/pivot-passed", "budget/charged", "rule_template/published"]

/-- What the validator remembers of the events it has read: the scopes whose pivot passed,
the scopes of inherited tries, and the scopes whose cancellation completed. A null scope is
the empty string there. -/
structure TraceState where
  pivoted : List (Option ScopeId) := []
  inheritedTryScopes : List (Option ScopeId) := []
  bracketTerminal : List (Option ScopeId) := []

/-- A scope in a message of the validator. -/
def traceScope : Option ScopeId → String
  | none => ""
  | some id => toString id

/-- Whether an event mutates the brackets of its scope. -/
def EventBody.mutatesBracket : EventBody → Bool
  | .txnConfirm _ | .txnCancel _ => true
  | _ => false

/-- Whether an event is a try that a fork inherited. -/
def Event.isInheritedTry (e : Event) : Bool :=
  e.inherited && match e.body with
    | .txnTry _ => true
    | _ => false

/-- Whether an event is a charge that names no planner. -/
def Event.isAnonymousCharge (e : Event) : Bool :=
  e.vertexId.isNone && match e.body with
    | .budgetCharged => true
    | _ => false

/-- The gate of `Validate`: passed pivots, cancellations and confirms. -/
def validateGate (st : TraceState) (e : Event) : Except String TraceState :=
  match e.body with
  | .txnPivotPassed =>
    if st.pivoted.contains e.scopeId then
      error ("I4/I5: scope " ++ traceScope e.scopeId ++ " passed more than one pivot")
    else ok { st with pivoted := e.scopeId :: st.pivoted }
  | .txnCancel payload =>
    if st.pivoted.contains e.scopeId then
      error ("I3: scope " ++ traceScope e.scopeId ++ " cancelled after pivot")
    else if payload.phase = .completed then
      ok { st with bracketTerminal := e.scopeId :: st.bracketTerminal }
    else ok st
  | .txnConfirm _ =>
    if st.bracketTerminal.contains e.scopeId then
      error ("I6: scope " ++ traceScope e.scopeId ++ " confirmed after completed cancellation")
    else ok st
  | _ => ok st

/-- One turn of `Validate`. -/
def validateEvent (st : TraceState) (e : Event) : Except String TraceState :=
  if knownEvents.contains e.body.eventType = false then
    if e.ignorable then ok st
    else error ("unknown non-ignorable event type \"" ++ e.body.eventType ++ "\" at run_seq " ++
      toString e.runSeq)
  else if e.isAnonymousCharge then
    error ("budget/charged at run_seq " ++ toString e.runSeq ++ " must identify its planner vertex")
  else
    let st := if e.isInheritedTry then
      { st with inheritedTryScopes := e.scopeId :: st.inheritedTryScopes } else st
    if !e.inherited && st.inheritedTryScopes.contains e.scopeId && e.body.mutatesBracket then
      error ("I7: inherited bracket for scope " ++ traceScope e.scopeId ++ " mutated by the fork")
    else validateGate st e

/-- `Validate`: the events of a run, by sequence number. -/
def validate (events : List Event) : Except String Unit :=
  ((events.insertionSort fun a b => a.runSeq ≤ b.runSeq).foldlM validateEvent {}).map fun _ => ()

/-! ### Accepted streams -/

/-- Whether an event belongs to the vocabulary. -/
def EventBody.isKnown : EventBody → Bool
  | .unknown _ => false
  | _ => true

/-- Whether an event completes a cancellation. -/
def EventBody.isCompletion : EventBody → Bool
  | .txnCancel payload => payload.phase == .completed
  | _ => false

/-- Whether an event is a passed pivot. -/
def EventBody.isPivotPassed : EventBody → Bool
  | .txnPivotPassed => true
  | _ => false

/-- Whether an event is a cancellation. -/
def EventBody.isCancel : EventBody → Bool
  | .txnCancel _ => true
  | _ => false

/-- Whether an event is a confirm. -/
def EventBody.isConfirm : EventBody → Bool
  | .txnConfirm _ => true
  | _ => false

/-- What the validator asks of one event, whatever came before it. -/
structure Event.Proper (e : Event) : Prop where
  known : e.body.isKnown = true
  own : e.inherited = false
  charged : e.isAnonymousCharge = false

/-- The orders the protocol allows within a scope: nothing cancels a passed pivot, it does
not pass again, and nothing confirms behind a completed cancellation. -/
structure Event.Before (e e' : Event) : Prop where
  pivot : e.scopeId = e'.scopeId → e.body.isPivotPassed = true →
    e'.body.isPivotPassed = false ∧ e'.body.isCancel = false
  cancel : e.scopeId = e'.scopeId → e.body.isCompletion = true → e'.body.isConfirm = false

/-- The vocabulary is the validator's. -/
theorem contains_knownEvents {body : EventBody} (h : body.isKnown = true) :
    knownEvents.contains body.eventType = true := by
  cases body with
  | unknown => cases h
  | subgraph event => cases event <;> simp [EventBody.eventType, knownEvents]
  | _ => simp [EventBody.eventType, knownEvents]

/-- What the validator remembers after an event it accepted. -/
structure TraceState.Extends (st st' : TraceState) (e : Event) : Prop where
  inherited : st'.inheritedTryScopes = st.inheritedTryScopes
  pivoted : ∀ s ∈ st'.pivoted, s ∈ st.pivoted ∨ (s = e.scopeId ∧ e.body.isPivotPassed = true)
  terminal : ∀ s ∈ st'.bracketTerminal, s ∈ st.bracketTerminal ∨
    (s = e.scopeId ∧ e.body.isCompletion = true)

theorem TraceState.Extends.refl (st : TraceState) (e : Event) : st.Extends st e :=
  ⟨rfl, fun _ => .inl, fun _ => .inl⟩

variable {st : TraceState}

/-- The gate accepts an event that no earlier one of its scope forbids. -/
theorem validateGate_ok {e : Event}
    (hpiv : e.scopeId ∈ st.pivoted → e.body.isPivotPassed = false ∧ e.body.isCancel = false)
    (hter : e.scopeId ∈ st.bracketTerminal → e.body.isConfirm = false) :
    ∃ st', validateGate st e = ok st' ∧ st.Extends st' e := by
  unfold validateGate
  cases hbody : e.body with
  | txnPivotPassed =>
    have hnew : e.scopeId ∉ st.pivoted := fun hmem => by
      have := (hpiv hmem).1
      rw [hbody] at this
      cases this
    refine ⟨_, if_neg (by simpa using hnew), rfl, fun s hs => ?_, fun s => .inl⟩
    rcases List.mem_cons.mp hs with rfl | hs
    · exact .inr ⟨rfl, by rw [hbody]; rfl⟩
    · exact .inl hs
  | txnCancel payload =>
    have hnew : e.scopeId ∉ st.pivoted := fun hmem => by
      have := (hpiv hmem).2
      rw [hbody] at this
      cases this
    simp only [List.contains_iff_mem, hnew, if_false]
    split
    · rename_i hphase
      refine ⟨_, rfl, rfl, fun s => .inl, fun s hs => ?_⟩
      rcases List.mem_cons.mp hs with rfl | hs
      · exact .inr ⟨rfl, by simp [hbody, EventBody.isCompletion, hphase]⟩
      · exact .inl hs
    · exact ⟨_, rfl, .refl st e⟩
  | txnConfirm =>
    have hnew : e.scopeId ∉ st.bracketTerminal := fun hmem => by
      have := hter hmem
      rw [hbody] at this
      cases this
    exact ⟨_, if_neg (by simpa using hnew), .refl st e⟩
  | _ => exact ⟨_, rfl, .refl st e⟩

/-- A proper event that no earlier one of its scope forbids is accepted. -/
theorem validateEvent_ok {e : Event} (hprop : e.Proper) (hinh : st.inheritedTryScopes = [])
    (hpiv : e.scopeId ∈ st.pivoted → e.body.isPivotPassed = false ∧ e.body.isCancel = false)
    (hter : e.scopeId ∈ st.bracketTerminal → e.body.isConfirm = false) :
    ∃ st', validateEvent st e = ok st' ∧ st.Extends st' e := by
  have hgate := validateGate_ok hpiv hter
  have htry : e.isInheritedTry = false := by simp [Event.isInheritedTry, hprop.own]
  have hknown : e.body.eventType ∈ knownEvents :=
    List.contains_iff_mem.mp (contains_knownEvents hprop.known)
  simpa [validateEvent, hknown, hprop.charged, htry, hinh] using hgate

/-- Proper events in allowed orders are accepted one after the other. -/
theorem foldlM_validateEvent {events : List Event} (hprop : ∀ e ∈ events, e.Proper)
    (hbef : events.Pairwise Event.Before) (hinh : st.inheritedTryScopes = [])
    (hpiv : ∀ e ∈ events, e.scopeId ∈ st.pivoted → e.body.isPivotPassed = false ∧ e.body.isCancel = false)
    (hter : ∀ e ∈ events, e.scopeId ∈ st.bracketTerminal → e.body.isConfirm = false) :
    ∃ st', events.foldlM validateEvent st = ok st' := by
  induction events generalizing st with
  | nil => exact ⟨st, rfl⟩
  | cons e rest ih =>
    obtain ⟨hhead, hrest⟩ := List.pairwise_cons.mp hbef
    obtain ⟨_, hmid, hext⟩ := validateEvent_ok (hprop e (by simp)) hinh
      (hpiv e (by simp)) (hter e (by simp))
    obtain ⟨st', hst'⟩ := ih (fun e' he' => hprop e' (by simp [he'])) hrest
      (hext.inherited.trans hinh)
      (fun e' he' hmem => by
        rcases hext.pivoted _ hmem with hold | ⟨hscope, hpas⟩
        · exact hpiv e' (by simp [he']) hold
        · exact (hhead e' he').pivot hscope.symm hpas)
      (fun e' he' hmem => by
        rcases hext.terminal _ hmem with hold | ⟨hscope, hcom⟩
        · exact hter e' (by simp [he']) hold
        · exact (hhead e' he').cancel hscope.symm hcom)
    exact ⟨st', by simp [List.foldlM_cons, hmid, hst', bind, Except.bind]⟩

/-- **Accepted streams**: proper events in order of their sequence numbers, no two of them
in an order the protocol forbids. -/
theorem validate_ok {events : List Event} (hsor : events.Pairwise fun a b => a.runSeq ≤ b.runSeq)
    (hprop : ∀ e ∈ events, e.Proper) (hbef : events.Pairwise Event.Before) :
    validate events = ok () := by
  obtain ⟨st', hst'⟩ : ∃ st', events.foldlM validateEvent {} = ok st' :=
    foldlM_validateEvent hprop hbef rfl (by simp) (by simp)
  rw [validate, List.Pairwise.insertionSort_eq hsor, hst']
  rfl

end Flory
