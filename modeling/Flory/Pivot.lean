import Flory.Trace

/-!
# The Pivot Is a One-Way Gate

The history of a scope, as its log records it. An admission is the event that `admit_pivot`
appends when it returns true; it needs an open scope that is not fenced, and every way
back to `open` raises a fence that nothing lowers, so a scope is admitted once. Its pivot
passes from `pivot-inflight` only, which is never entered again, and a cancellation is
requested from `open` only.

## Main results

* `ordered_of_reachable`: the events of a run are stored in the order of their sequence
  numbers.
* `gated_of_reachable`: what the log says of a scope agrees with the scope's row.
* `pivot_one_way`: one admission and one passed pivot for each scope, no pivot call before
  the one and no cancellation after the other; every log is accepted by `trace.Validate`.
-/

namespace Flory

variable {db : Db} {cfg : Config} {world : World} {db' : Db} {world' : World} {w : WorkerId}

/-! ### Sequence numbers -/

/-- The events of a run carry increasing sequence numbers, all of them used up. -/
structure Ordered (db : Db) : Prop where
  bound : ∀ e ∈ db.log, e.runSeq < db.nextSeq e.runId
  order : db.log.Pairwise fun e e' => e.runId = e'.runId → e.runSeq < e'.runSeq

/-- Storing an event uses up one sequence number of its run. -/
theorem nextSeq_push (runId r : RunId) (draft : EventDraft) :
    (db.push runId draft).nextSeq r = if r = runId then db.nextSeq r + 1 else db.nextSeq r := by
  simp only [Db.nextSeq, Db.push, Table.lookup_insert_eq]
  split
  · rename_i heq
    subst heq
    rfl
  · rfl

/-- Storing an event keeps the order. -/
theorem Ordered.push (h : Ordered db) (runId : RunId) (draft : EventDraft) :
    Ordered (db.push runId draft) := by
  refine ⟨fun e he => ?_, ?_⟩
  · rw [nextSeq_push]
    rcases List.mem_append.mp he with hold | hnew
    · have := h.bound e hold
      split <;> omega
    · obtain rfl := List.mem_singleton.mp hnew
      simp
  · rw [Db.push_log, List.pairwise_append]
    refine ⟨h.order, List.pairwise_singleton _ _, fun e he e' he' hrun => ?_⟩
    obtain rfl := List.mem_singleton.mp he'
    rw [Db.stamp_runId] at hrun
    rw [Db.stamp_runSeq, ← hrun]
    exact h.bound e he

theorem Ordered.congr (h : Ordered db) (hruns : db'.runs = db.runs) (hlog : db'.log = db.log) :
    Ordered db' :=
  ⟨by simpa [Db.nextSeq, hruns, hlog] using h.bound, by rw [hlog]; exact h.order⟩

theorem Pushes.ordered (hpus : Pushes db db') (h : Ordered db) : Ordered db' := by
  induction hpus with
  | same hruns hlog => exact h.congr hruns hlog
  | push _ hruns hlog ih => exact (ih.push _ _).congr hruns hlog

/-- A worker's move stores events. -/
theorem WorkerStep.pushes {me : WorkerId} {pc pc' : Pc} (h : WorkerStep cfg me db pc db' pc') :
    Pushes db db' := by
  have htwo : ∀ runId draft draft' (db' : Db),
      db'.runs = ((db.push runId draft).push runId draft').runs →
      db'.log = ((db.push runId draft).push runId draft').log → Pushes db db' :=
    fun runId draft draft' db' hruns hlog => .push (.one rfl rfl) hruns hlog
  cases h with
  | suspended | requested | opened | started | refused | retried | failedCall
  | suspendedCancel | cancelCompleted => exact .one rfl rfl
  | succeeded | admitted | failedAbsent | confirmed | suspendedConfirm | committed =>
    exact .one rfl rfl
  | barrier | refusedUnstarted | sealed | suspendedPivot | passed => exact htwo _ _ _ _ rfl rfl
  | _ => exact .same rfl rfl

/-- **Sequence numbers, in every reachable world.** -/
theorem ordered_of_reachable (h : Reachable cfg world) : Ordered world.db := by
  refine h.invariant (I := fun world => Ordered world.db)
    ⟨by simp [World.initial], by simp [World.initial]⟩ ?_
  intro mid mid' a hord _ hstep
  rcases step_cases hstep with ⟨w, hmove⟩ | ⟨henv, -⟩
  · exact hmove.step.pushes.ordered hord
  generalize mid'.db = db' at henv
  cases henv with
  | freeze hfreez hchan | engineAppend _ _ hchan => exact hchan.pushes.ordered hord
  | createRun hnew =>
    rename_i runId
    refine ⟨fun e he => ?_, hord.order⟩
    have hbound := hord.bound e he
    simp only [Db.nextSeq, Table.lookup_insert_eq] at hbound ⊢
    split
    · rename_i heq
      rw [heq, hnew] at hbound
      exact hbound
    · exact hbound
  | _ => exact hord.congr rfl rfl

/-! ### Keys of cancellations -/

/-- **Scopes and the keys of their cancellations.** A scope has a key from the decision to
cancel it on, and never leaves that side. -/
structure Keyed (world : World) : Prop where
  side : ∀ s row, world.db.scopes.lookup s = some row → row.cancelIdempotencyKey.isSome →
    row.state.isCancelSide = true
  key : ∀ s row, world.db.scopes.lookup s = some row →
    row.state = .cancelling ∨ row.state = .cancelled → row.cancelIdempotencyKey.isSome

section Rows

variable {s : ScopeId} {row row' : ScopeRow}

/-- A key is never lost. -/
theorem RowChange.key_isSome (hchan : RowChange world world' w s row row')
    (hkey : row.cancelIdempotencyKey.isSome) : row'.cancelIdempotencyKey.isSome := by
  rcases hchan.key with hsame | ⟨-, -, hsome⟩
  · rw [hsame]; exact hkey
  · rw [hsome]; rfl

/-- A cancellation under way had a key before, or gets one now. -/
theorem StateMove.keyed (hmove : StateMove world world' w s row row')
    (hstate' : row'.state = .cancelling ∨ row'.state = .cancelled) :
    row.state = .cancelling ∨ row.state = .cancelled ∨ row'.cancelIdempotencyKey.isSome := by
  cases hmove with
  | kept hstate => exact hstate ▸ hstate'.imp_right .inl
  | requested _ _ _ _ _ _ _ hkey' => exact .inr (.inr (by rw [hkey']; rfl))
  | cancelCompleted _ hstate => exact .inl hstate
  | _ => simp_all

end Rows

/-- **Keys** are kept by every step. -/
theorem Keyed.step {a : Action} (hkeyed : Keyed world) (hchanges : Changes cfg world a world' w) :
    Keyed world' := by
  refine ⟨fun s row' hrow' hkey' => ?_, fun s row' hrow' hstate' => ?_⟩
  · rcases (hchanges.scope s).origin hrow' with ⟨-, -, hnone⟩ | ⟨row, hrow, hchan⟩
    · simp [hnone] at hkey'
    rcases hchan.key with hsame | ⟨-, hcan, -⟩
    · exact hchan.move.isCancelSide (hkeyed.side s row hrow (hsame ▸ hkey'))
    · rw [hcan]; rfl
  · rcases (hchanges.scope s).origin hrow' with ⟨hopen, -⟩ | ⟨row, hrow, hchan⟩
    · simp [hopen] at hstate'
    rcases hchan.move.keyed hstate' with hstate | hstate | hkey
    · exact hchan.key_isSome (hkeyed.key s row hrow (.inl hstate))
    · exact hchan.key_isSome (hkeyed.key s row hrow (.inr hstate))
    · exact hkey

/-- **Keys, in every reachable world.** -/
theorem keyed_of_reachable (h : Reachable cfg world) : Keyed world :=
  invariant_of_changes h (by constructor <;> simp [World.initial])
    fun _ _ _ _ hchanges hkey => hkey.step hchanges

/-! ### The events of the pivot gate -/

/-- Whether an event is the admission of a pivot. -/
def EventBody.isAdmission : EventBody → Bool
  | .vertexStarted .pivotPhase => true
  | _ => false

/-- The event that `admit_pivot` appends when it admits vertex `v` of scope `s`. -/
structure Event.Admits (e : Event) (s : ScopeId) (v : Option VertexId) : Prop where
  body : e.body.isAdmission = true
  scope : e.scopeId = some s
  vertex : e.vertexId = v

/-- An event that is no part of the gate of its scope. -/
structure Event.Quiet (e : Event) : Prop where
  pivot : e.body.isPivotPassed = false
  cancel : e.body.isCancel = false
  confirm : e.body.isConfirm = false
  admission : e.scopeId.isSome → e.body.isAdmission = false

/-- **A new event, as the gate of its scope sees it**, with the scope's row on both sides of
the step that appends it. -/
inductive GateEvent (world world' : World) (e : Event) : Prop
  | quiet (h : e.Quiet)
  | admitted {s : ScopeId} {v : VertexId} {row row' : ScopeRow} (hadmits : e.Admits s (some v))
      (hrow : world.db.scopes.lookup s = some row) (hstate : row.state = .opened)
      (hfence : row.fencedAt = none) (hrow' : world'.db.scopes.lookup s = some row')
      (hstate' : row'.state = .pivotInflight)
  | passed {s : ScopeId} {row row' : ScopeRow} (hbody : e.body = .txnPivotPassed)
      (hs : e.scopeId = some s) (hrow : world.db.scopes.lookup s = some row)
      (hstate : row.state = .pivotInflight) (hpivot : row.pivotVertexId = e.vertexId)
      (hrow' : world'.db.scopes.lookup s = some row') (hstate' : row'.state = .pivotPassed)
  | confirmed {s : ScopeId} {key : String} {row : ScopeRow} (hbody : e.body = .txnConfirm key)
      (hs : e.scopeId = some s) (hrow : world.db.scopes.lookup s = some row)
      (hstate : row.state = .pivotPassed)
  | cancelled {s : ScopeId} {payload : CancelPayload} {row row' : ScopeRow}
      (hbody : e.body = .txnCancel payload) (hs : e.scopeId = some s)
      (hrow : world.db.scopes.lookup s = some row)
      (hstate : row.state = .opened ∨ row.state = .cancelling)
      (hrow' : world'.db.scopes.lookup s = some row')
      (hstate' : row'.state = .cancelling ∨ row'.state = .cancelled)

theorem isGate_eq (body : EventBody) : body.isGate =
    (body.isAdmission || body.isPivotPassed || body.isCancel || body.isConfirm) := by
  cases body with
  | vertexStarted payload => cases payload <;> rfl
  | _ => rfl

theorem isCancel_of_isCompletion {body : EventBody} (h : body.isCompletion = true) :
    body.isCancel = true := by
  cases body with
  | txnCancel => rfl
  | _ => cases h

variable {e : Event}

theorem quiet_of_not_isGate (h : e.body.isGate = false) : e.Quiet := by
  simp only [isGate_eq, Bool.or_eq_false_iff] at h
  obtain ⟨⟨⟨hadm, hpas⟩, hcan⟩, hcon⟩ := h
  exact ⟨hpas, hcan, hcon, fun _ => hadm⟩

/-- The Engine's events are quiet: its starts name no scope. -/
theorem EngineEvent.quiet (h : EngineEvent db e) : e.Quiet := by
  have hdraft := h.draft
  cases hbody : e.body with
  | vertexStarted =>
    simp only [engineDraft, hbody, Bool.and_eq_true, Option.isNone_iff_eq_none] at hdraft
    constructor <;> simp [hbody, hdraft.2, EventBody.isPivotPassed, EventBody.isCancel,
      EventBody.isConfirm]
  | _ => first
    | exact quiet_of_not_isGate (by rw [hbody]; rfl)
    | simp [engineDraft, hbody] at hdraft

/-- The events of a worker, as the gate sees them. -/
theorem WorkerEvent.gate (hscop : Scoped world)
    (h : WorkerEvent world.db world'.db (world.workers w) e) : GateEvent world world' e := by
  have hquiet : e.body.isGate = false → GateEvent world world' e :=
    fun h => .quiet (quiet_of_not_isGate h)
  have hsuc : e.body.isSucceeded = true → e.body.isGate = false := by
    cases hbody : e.body <;> simp [EventBody.isSucceeded, EventBody.isGate]
  cases h with
  | plain =>
    refine hquiet ?_
    cases he : e.body with
    | vertexStarted payload => cases payload <;> simp_all [EventBody.isPlain, EventBody.isGate]
    | _ => simp_all [EventBody.isPlain, EventBody.isGate]
  | barrier _ hbody | sealed _ hbody | succeeded _ hbody | pivotSucceeded _ hbody =>
    exact hquiet (hsuc hbody)
  | tried _ hbody => exact hquiet (by rw [hbody]; rfl)
  | admitted hpc hbody hrun hv hs hrow hstate hfen hrow' hstate' =>
    exact .admitted ⟨by rw [hbody]; rfl, hs, hv⟩ hrow hstate hfen hrow' hstate'
  | passed hpc hbody hrun hv hs hrow hstate hpiv hrow' hstate' =>
    exact .passed hbody hs hrow hstate (hpiv.trans hv.symm) hrow' hstate'
  | confirmed hpc hbody hs =>
    obtain ⟨_, hrow, -, hstate⟩ := hscop.passed w _ (by rw [hpc]; rfl)
    exact .confirmed hbody hs hrow hstate
  | requested hpc hbody hphase hs hrow hstate hrow' hstate' =>
    exact .cancelled hbody hs hrow (.inl hstate) hrow' (.inl hstate')
  | completed hpc hbody hphase hs hrow hstate hrow' hstate' =>
    exact .cancelled hbody hs hrow (.inr hstate) hrow' (.inr hstate')

/-- The events a freeze appends are quiet. -/
theorem frozen_quiet
    (h : (∃ seq, e.body = .subgraph (.frozen seq)) ∨ ∃ fv : FrozenVertex, e.toEventDraft = fv.draft) :
    e.Quiet := by
  rcases h with ⟨seq, hbody⟩ | ⟨fv, hfv⟩
  · exact quiet_of_not_isGate (by rw [hbody]; rfl)
  · exact quiet_of_not_isGate (by rw [hfv]; rfl)

/-- Every new event, as the gate sees it. -/
theorem LogChange.gate {new : List Event} (h : LogChange world world' w new)
    (hscop : Scoped world) (he : e ∈ new) : GateEvent world world' e := by
  cases h with
  | worker hstep => exact (hstep.origin e he).gate hscop
  | environment henv =>
    rcases (henv e he).2 with heng | hfroz
    · exact .quiet heng.quiet
    · exact .quiet (frozen_quiet hfroz)

/-- Every new event is one the validator knows, of this run's own making. -/
theorem LogChange.proper {new : List Event} (h : LogChange world world' w new) (he : e ∈ new) :
    e.Proper := by
  cases h with
  | worker hstep =>
    have horig := hstep.origin e he
    refine ⟨?_, (hstep.own e he).1, ?_⟩ <;> cases horig <;> cases hbody : e.body <;>
      simp_all [EventBody.isKnown, EventBody.isPlain, EventBody.isSucceeded,
        Event.isAnonymousCharge]
  | environment henv =>
    obtain ⟨hown, heng | ⟨_, hfroz⟩ | ⟨fv, hfv⟩⟩ := henv e he
    · have hdraft := heng.draft
      refine ⟨?_, hown, ?_⟩ <;> cases hbody : e.body <;>
        simp_all [engineDraft, EventBody.isKnown, Event.isAnonymousCharge, Option.isSome_iff_ne_none]
    · exact ⟨by rw [hfroz]; rfl, hown, by simp [Event.isAnonymousCharge, hfroz]⟩
    · have hbody : e.body = fv.draft.body := congrArg EventDraft.body hfv
      exact ⟨by rw [hbody]; rfl, hown, by simp [Event.isAnonymousCharge, hbody, FrozenVertex.draft]⟩

/-! ### The log and the scopes agree -/

/-- The orders of two events that the gate of a scope allows: those of the validator, and no
second admission. -/
structure Event.GateOrder (e e' : Event) : Prop extends Event.Before e e' where
  once : e.scopeId = e'.scopeId → e.scopeId.isSome → e.body.isAdmission = true →
    e'.body.isAdmission = false

/-- **The log and the scopes.** An admitted scope is open only behind a fence, and inflight
for the vertex of its admission. A passed pivot was admitted, and its scope has no
cancellation; a cancelled scope and a cancelled bracket have one. -/
structure Gated (world : World) : Prop where
  proper : ∀ e ∈ world.db.log, e.Proper
  order : world.db.log.Pairwise Event.GateOrder
  admission : ∀ e ∈ world.db.log, ∀ s v, e.Admits s v → ∃ row,
    world.db.scopes.lookup s = some row ∧ (row.state = .opened → row.fencedAt.isSome)
  inflight : ∀ s row, world.db.scopes.lookup s = some row → row.state = .pivotInflight →
    ∃ e ∈ world.db.log, e.Admits s row.pivotVertexId
  passed : ∀ e ∈ world.db.log, e.body.isPivotPassed = true → ∃ s row, e.scopeId = some s ∧
    world.db.scopes.lookup s = some row ∧ row.state.isPassed = true ∧
    row.cancelIdempotencyKey = none ∧ ∃ e₀ ∈ world.db.log, e₀.Admits s e.vertexId
  cancel : ∀ e ∈ world.db.log, e.body.isCancel = true → ∃ s row, e.scopeId = some s ∧
    world.db.scopes.lookup s = some row ∧ row.cancelIdempotencyKey.isSome
  bracket : ∀ key row scope, world.db.brackets.lookup key = some row →
    world.db.scopes.lookup row.scopeId = some scope → row.state = .cancelled →
    scope.cancelIdempotencyKey.isSome
  attempt : ∀ id row, world.db.attempts.lookup id = some row →
    row.operation = .pivot ∨ row.operation = .status → ∃ s, row.scopeId = some s ∧
    ∃ e ∈ world.db.log, e.Admits s (some row.vertexId)

/-- Any event may follow a quiet one. -/
theorem Event.Quiet.gateOrder (h : e.Quiet) (e' : Event) : e.GateOrder e' := by
  refine ⟨⟨fun _ hpas => ?_, fun _ hcom => ?_⟩, fun _ hs hadm => ?_⟩
  · rw [h.pivot] at hpas
    cases hpas
  · have hcan := isCancel_of_isCompletion hcom
    rw [h.cancel] at hcan
    cases hcan
  · rw [h.admission hs] at hadm
    cases hadm

theorem Event.Quiet.gateOrder_right {e' : Event} (h : e'.Quiet) (e : Event) : e.GateOrder e' :=
  ⟨⟨fun _ _ => ⟨h.pivot, h.cancel⟩, fun _ _ => h.confirm⟩,
    fun hscope hs _ => h.admission (hscope ▸ hs)⟩

section Step

variable {a : Action} {new : List Event} {s : ScopeId} {row' : ScopeRow}

/-- The events of one step are in an allowed order. -/
theorem LogChange.order (h : LogChange world world' w new) : new.Pairwise Event.GateOrder := by
  cases h with
  | worker hstep =>
    refine hstep.once.imp fun {e e'} hboth => ?_
    rcases Bool.and_eq_false_iff.mp hboth.1 with hgate | hgate
    · exact (quiet_of_not_isGate hgate).gateOrder e'
    · exact (quiet_of_not_isGate hgate).gateOrder_right e
  | environment henv =>
    refine List.pairwise_of_forall_mem_list fun e he e' _ => ?_
    rcases (henv e he).2 with heng | hfroz
    · exact heng.quiet.gateOrder e'
    · exact (frozen_quiet hfroz).gateOrder e'

/-- An admitted scope that is open now was open behind a fence, or reopens behind one. -/
theorem RowChange.fenced {row : ScopeRow} (hchan : RowChange world world' w s row row')
    (hfen : row.state = .opened → row.fencedAt.isSome) (hopen : row'.state = .opened) :
    row'.fencedAt.isSome := by
  cases hchan.move with
  | kept hstate => exact hchan.fence (hfen (hstate ▸ hopen))
  | reopened _ _ _ _ hfence' => exact hfence'
  | _ => simp_all

/-- A scope behind its pivot stays there, without a cancellation. -/
theorem RowChange.passed {row : ScopeRow} (hchan : RowChange world world' w s row row')
    (hstate : row.state.isPassed = true) (hkey : row.cancelIdempotencyKey = none) :
    row'.state.isPassed = true ∧ row'.cancelIdempotencyKey = none := by
  refine ⟨hchan.move.isPassed hstate, ?_⟩
  rcases hchan.key with hsame | ⟨hopen, -⟩
  · exact hsame.trans hkey
  · rw [hopen] at hstate
    cases hstate

section

variable (hgated : Gated world)

include hgated

/-- A new event is in an allowed order with every earlier one. -/
theorem Gated.gateOrder (hkeyed : Keyed world) {e' : Event} (he : e ∈ world.db.log)
    (hnew : GateEvent world world' e') : e.GateOrder e' := by
  refine ⟨⟨fun hscope hpas => ?_, fun hscope hcom => ?_⟩, fun hscope hs hadmis => ?_⟩
  · obtain ⟨s, row, hes, hrow, hstate, hkey, -⟩ := hgated.passed e he hpas
    rw [hes] at hscope
    -- the scope is behind its pivot, where the gate events of a cancellation cannot be appended
    have hsame : ∀ s' row', e'.scopeId = some s' → world.db.scopes.lookup s' = some row' →
        row' = row := by
      intro s' row' hs' hrow'
      obtain rfl := Option.some.inj (hscope.trans hs')
      exact Option.mem_unique hrow' hrow
    cases hnew with
    | quiet h => exact ⟨h.pivot, h.cancel⟩
    | admitted hadm =>
      have hbody := hadm.body
      cases he' : e'.body <;>
        simp_all [EventBody.isAdmission, EventBody.isPivotPassed, EventBody.isCancel]
    | passed hbody hs' hrow' hstate' =>
      rw [← hsame _ _ hs' hrow', hstate'] at hstate
      cases hstate
    | confirmed hbody => simp [hbody, EventBody.isPivotPassed, EventBody.isCancel]
    | cancelled hbody hs' hrow' hstate' =>
      rw [← hsame _ _ hs' hrow'] at hstate
      rcases hstate' with hstate' | hstate' <;> rw [hstate'] at hstate <;> cases hstate
  · obtain ⟨s, row, hes, hrow, hkey⟩ := hgated.cancel e he (isCancel_of_isCompletion hcom)
    have hside := hkeyed.side s row hrow hkey
    rw [hes] at hscope
    cases hnew with
    | quiet h => exact h.confirm
    | confirmed hbody hs' hrow' hstate' =>
      obtain rfl := Option.some.inj (hscope.trans hs')
      obtain rfl := Option.mem_unique hrow' hrow
      rw [hstate'] at hside
      cases hside
    | admitted hadm =>
      have hbody := hadm.body
      cases he' : e'.body <;> simp_all [EventBody.isAdmission, EventBody.isConfirm]
    | passed hbody | cancelled hbody => simp [hbody, EventBody.isConfirm]
  · obtain ⟨s, hes⟩ := Option.isSome_iff_exists.mp hs
    obtain ⟨row, hrow, hfen⟩ := hgated.admission e he s _ ⟨hadmis, hes, rfl⟩
    rw [hes] at hscope
    cases hnew with
    | quiet h => exact h.admission (by rw [← hscope]; rfl)
    | admitted hadm hrow' hstate' hfence' =>
      obtain rfl := Option.some.inj (hscope.trans hadm.scope)
      obtain rfl := Option.mem_unique hrow' hrow
      have := hfen hstate'
      simp [hfence'] at this
    | passed hbody | confirmed hbody | cancelled hbody => simp [hbody, EventBody.isAdmission]

variable (hchanges : Changes cfg world a world' w)

include hchanges

/-- An inflight scope has its admission in the log. -/
theorem Gated.inflight_step (hmono : world.db.log ⊆ world'.db.log)
    (hrow' : world'.db.scopes.lookup s = some row') (hstate' : row'.state = .pivotInflight) :
    ∃ e ∈ world'.db.log, e.Admits s row'.pivotVertexId := by
  rcases (hchanges.scope s).origin hrow' with ⟨hopen, -⟩ | ⟨row, hrow, hchan⟩
  · rw [hopen] at hstate'
    cases hstate'
  cases hchan.move with
  | kept hstate hpiv =>
    obtain ⟨e, he, hadm⟩ := hgated.inflight s row hrow (hstate ▸ hstate')
    exact ⟨e, hmono he, hpiv ▸ hadm⟩
  | admitted hpc hs _ _ _ hlog _ hpiv' =>
    refine ⟨_, by rw [hlog]; exact List.mem_append_right _ (List.mem_singleton_self _), ?_⟩
    exact ⟨rfl, rfl, hpiv'.symm⟩
  | _ => simp_all

/-- The scope of a passed pivot, after a step. -/
theorem Gated.passed_step (hkeyed' : Keyed world') (hmono : world.db.log ⊆ world'.db.log)
    (hcas : e ∈ world.db.log ∨ GateEvent world world' e) (hpas : e.body.isPivotPassed = true) :
    ∃ s row', e.scopeId = some s ∧ world'.db.scopes.lookup s = some row' ∧
      row'.state.isPassed = true ∧ row'.cancelIdempotencyKey = none ∧
      ∃ e₀ ∈ world'.db.log, e₀.Admits s e.vertexId := by
  rcases hcas with hold | hnew
  · obtain ⟨s, row, hs, hrow, hstate, hkey, e₀, he₀, hadm⟩ := hgated.passed e hold hpas
    obtain ⟨row', hrow', hchan⟩ := (hchanges.scope s).row hrow
    obtain ⟨hstate', hkey'⟩ := hchan.passed hstate hkey
    exact ⟨s, row', hs, hrow', hstate', hkey', e₀, hmono he₀, hadm⟩
  · cases hnew with
    | quiet h =>
      rw [h.pivot] at hpas
      cases hpas
    | passed hbody hs hrow hstate hpiv hrow' hstate' =>
      rename_i s row row'
      obtain ⟨e₀, he₀, hadm⟩ := hgated.inflight s row hrow hstate
      refine ⟨s, row', hs, hrow', by rw [hstate']; rfl, ?_, e₀, hmono he₀, hpiv ▸ hadm⟩
      cases hkey : row'.cancelIdempotencyKey with
      | none => rfl
      | some =>
        have hside := hkeyed'.side s row' hrow' (by rw [hkey]; rfl)
        rw [hstate'] at hside
        cases hside
    | admitted hadm =>
      have hbody := hadm.body
      cases he : e.body <;> simp_all [EventBody.isAdmission, EventBody.isPivotPassed]
    | confirmed hbody | cancelled hbody => simp [hbody, EventBody.isPivotPassed] at hpas

/-- The scope of a cancellation, after a step. -/
theorem Gated.cancel_step (hkeyed' : Keyed world')
    (hcas : e ∈ world.db.log ∨ GateEvent world world' e) (hcan : e.body.isCancel = true) :
    ∃ s row', e.scopeId = some s ∧ world'.db.scopes.lookup s = some row' ∧
      row'.cancelIdempotencyKey.isSome := by
  rcases hcas with hold | hnew
  · obtain ⟨s, _, hs, hrow, hkey⟩ := hgated.cancel e hold hcan
    obtain ⟨row', hrow', hchan⟩ := (hchanges.scope s).row hrow
    exact ⟨s, row', hs, hrow', hchan.key_isSome hkey⟩
  cases hnew with
  | quiet h =>
    rw [h.cancel] at hcan
    cases hcan
  | cancelled hbody hs hrow hstate hrow' hstate' =>
    exact ⟨_, _, hs, hrow', hkeyed'.key _ _ hrow' hstate'⟩
  | admitted hadm =>
    have hbody := hadm.body
    cases he : e.body <;> simp_all [EventBody.isAdmission, EventBody.isCancel]
  | passed hbody | confirmed hbody => simp [hbody, EventBody.isCancel] at hcan

/-- The scope of an admission, after a step. -/
theorem Gated.admission_step (hcas : e ∈ world.db.log ∨ GateEvent world world' e)
    {v : Option VertexId} (hadm : e.Admits s v) :
    ∃ row', world'.db.scopes.lookup s = some row' ∧
      (row'.state = .opened → row'.fencedAt.isSome) := by
  rcases hcas with hold | hnew
  · obtain ⟨_, hrow, hfen⟩ := hgated.admission e hold s v hadm
    obtain ⟨row', hrow', hchan⟩ := (hchanges.scope s).row hrow
    exact ⟨row', hrow', hchan.fenced hfen⟩
  have hbody := hadm.body
  cases hnew with
  | quiet h =>
    rw [h.admission (by rw [hadm.scope]; rfl)] at hbody
    cases hbody
  | admitted hadm' hrow hstate hfence hrow' hstate' =>
    obtain rfl := Option.mem_unique hadm.scope hadm'.scope
    exact ⟨_, hrow', by simp [hstate']⟩
  | passed he | confirmed he | cancelled he => simp [he, EventBody.isAdmission] at hbody

/-- A pivot or status attempt after a step is backed by an admission before it. -/
theorem Gated.attempt_step (hscop : Scoped world) {id : ℕ} {row' : AttemptRow}
    (hrow' : world'.db.attempts.lookup id = some row')
    (hoper : row'.operation = .pivot ∨ row'.operation = .status) :
    ∃ s, row'.scopeId = some s ∧ ∃ e ∈ world.db.log, e.Admits s (some row'.vertexId) := by
  cases hchanges.attempt id with
  | kept hsame => exact hgated.attempt id row' (hsame ▸ hrow') hoper
  | resolved hpc hrow hopen hnew =>
    rename_i row outcome
    obtain rfl := Option.mem_unique hnew hrow'
    exact hgated.attempt id row hrow hoper
  | recorded hpc hid hnew hscope hlease hscopes hnext =>
    rename_i site attempt
    obtain rfl := Option.mem_unique hnew hrow'
    have hinf : ∀ item : ScopedItem, (world.workers w).stage = .inflight item →
        ∃ e ∈ world.db.log, e.Admits item.scopeId (some item.item.vertexId) := by
      intro item hstage
      obtain ⟨row, hrow, -, hstate, hpiv⟩ := hscop.inflight w item hstage
      exact hpiv ▸ hgated.inflight _ row hrow hstate
    change site.call.operation = .pivot ∨ site.call.operation = .status at hoper
    cases site with
    | pivot item | status item =>
      exact ⟨item.scopeId, item.inScope, hinf item (by rw [hpc]; rfl)⟩
    | _ => simp [Site.call] at hoper

/-- **The log and the scopes** are kept by every step. -/
theorem Gated.step (hkey : Keyed world) (hkey' : Keyed world') (hscop : Scoped world)
    (hbrac : Bracketed world) : Gated world' := by
  obtain ⟨_, hlog, hnew⟩ := hchanges.log
  have hmono : world.db.log ⊆ world'.db.log := by
    rw [hlog]
    exact List.subset_append_left _ _
  have hcas : ∀ e ∈ world'.db.log, e ∈ world.db.log ∨ GateEvent world world' e := fun e he => by
    rw [hlog] at he
    exact (List.mem_append.mp he).imp_right fun he => hnew.gate hscop he
  refine ⟨fun e he => ?_, ?_, fun e he s v => hgated.admission_step hchanges (hcas e he),
    fun s row' => hgated.inflight_step hchanges hmono,
    fun e he => hgated.passed_step hchanges hkey' hmono (hcas e he),
    fun e he => hgated.cancel_step hchanges hkey' (hcas e he),
    fun key row' scope' hrow' hscope' hstate' => ?_, fun id row' hrow' hoper => ?_⟩
  · rw [hlog] at he
    rcases List.mem_append.mp he with hold | hadd
    · exact hgated.proper e hold
    · exact hnew.proper hadd
  · rw [hlog, List.pairwise_append]
    exact ⟨hgated.order, hnew.order, fun e he e' he' =>
      hgated.gateOrder hkey he (hnew.gate hscop he')⟩
  · rcases hchanges.bracket_cases hscop hrow' with ⟨row, hrow, state, rfl, hstat⟩ |
      ⟨-, item, result, deadline, s, -, -, -, -, -, rfl⟩
    · obtain ⟨scope, hscope⟩ := Option.isSome_iff_exists.mp (hbrac.scope key row hrow)
      obtain ⟨_, hscope₁, hchan⟩ := (hchanges.scope _).row hscope
      obtain rfl := Option.mem_unique hscope₁ hscope'
      refine hchan.key_isSome ?_
      rcases hstat with rfl | ⟨rfl, -⟩ | ⟨rfl, scope₀, hscope₀, hcan⟩
      · exact hgated.bracket key row scope hrow hscope hstate'
      · cases hstate'
      · obtain rfl := Option.mem_unique hscope₀ hscope
        exact hkey.key _ _ hscope (.inl hcan)
    · cases hstate'
  · obtain ⟨s, hs, e, he, hadm⟩ := hgated.attempt_step hchanges hscop hrow' hoper
    exact ⟨s, hs, e, hmono he, hadm⟩

end

end Step

/-- **The log and the scopes, in every reachable world.** -/
theorem gated_of_reachable (h : Reachable cfg world) : Gated world := by
  refine invariant_of_changes h (by constructor <;> simp [World.initial]) ?_
  intro mid mid' a w hmid hmid' _ _ hchanges hgated
  exact hgated.step hchanges (keyed_of_reachable hmid) (keyed_of_reachable hmid')
    (scoped_of_reachable hmid) (bracketed_of_reachable hmid)

/-! ### The one-way gate -/

/-- **What the history of a world says of its pivots.** The log only grows, so what is in it
before a step happened before that step. -/
structure OneWayGate (cfg : Config) (world : World) : Prop where
  /-- `admit_pivot` admits a vertex of a scope that has no admission yet, and records it. -/
  admits : ∀ runId s v db', admitPivot world.db runId s v = .ok (true, db') →
    (∀ e ∈ world.db.log, ∀ u, ¬ e.Admits s u) ∧ ∃ e ∈ db'.log, e.Admits s (some v)
  /-- A scope has at most one admission. -/
  admitted_once : world.db.log.Pairwise fun e e' => ∀ s u u', e.Admits s u → ¬ e'.Admits s u'
  /-- A scope passes at most one pivot. -/
  passed_once : world.db.log.Pairwise fun e e' =>
    e.body = .txnPivotPassed → e'.body = .txnPivotPassed → e.scopeId ≠ e'.scopeId
  /-- The pivot that passes is the admitted one. -/
  passed_admitted : ∀ e ∈ world.db.log, e.body = .txnPivotPassed →
    ∃ s, e.scopeId = some s ∧ ∃ e₀ ∈ world.db.log, e₀.Admits s e.vertexId
  /-- Pivot and status attempts are made behind the admission of their vertex. -/
  attempted : ∀ a world', step cfg world a = some world' → world.db.log <+: world'.db.log ∧
    ∀ id row, world'.db.attempts.lookup id = some row →
      row.operation = .pivot ∨ row.operation = .status → ∃ s, row.scopeId = some s ∧
      ∃ e ∈ world.db.log, e.Admits s (some row.vertexId)
  /-- Nothing cancels a scope behind its passed pivot. -/
  not_cancelled : world.db.log.Pairwise fun e e' => e.body = .txnPivotPassed →
    ∀ payload, e'.body = .txnCancel payload → e.scopeId ≠ e'.scopeId
  /-- Nothing cancels a bracket behind the passed pivot of its scope. -/
  bracket_not_cancelled : ∀ e ∈ world.db.log, e.body = .txnPivotPassed → ∀ key row,
    world.db.brackets.lookup key = some row → e.scopeId = some row.scopeId → row.state ≠ .cancelled
  /-- The log of every run is accepted by the validator. -/
  validated : ∀ runId, validate (world.db.log.filter fun e => e.runId == runId) = .ok ()

/-- The log of a run passes validation. -/
theorem Gated.validated (hgated : Gated world) (hord : Ordered world.db) (runId : RunId) :
    validate (world.db.log.filter fun e => e.runId == runId) = .ok () := by
  refine validate_ok ?_ (fun e he => hgated.proper e (List.mem_filter.mp he).1)
    ((hgated.order.filter _).imp fun h => h.toBefore)
  refine List.pairwise_filter.mpr (hord.order.imp fun {e e'} horder hrun hrun' => ?_)
  simp only [beq_iff_eq] at hrun hrun'
  exact Nat.le_of_lt (horder (hrun.trans hrun'.symm))

/-- **The pivot is a one-way gate**, in every reachable world. -/
theorem pivot_one_way {cfg : Config} {world : World} (h : Reachable cfg world) :
    OneWayGate cfg world := by
  have hgated := gated_of_reachable h
  refine ⟨fun runId s v db' hadmit => ?_, ?_, ?_, fun e he hbody => ?_, fun a world' hstep => ?_, ?_,
    fun e he hbody key row hrow hs hcan => ?_, hgated.validated (ordered_of_reachable h)⟩
  · rcases admitPivot_ok hadmit with ⟨hfalse, -⟩ | ⟨-, row, hrow, hstate, hfence, -, rfl⟩
    · cases hfalse
    refine ⟨fun e he u hadmits => ?_, ⟨_, List.mem_append_right _ (List.mem_singleton_self _),
      rfl, rfl, rfl⟩⟩
    obtain ⟨_, hrow', hfen⟩ := hgated.admission e he s u hadmits
    obtain rfl := Option.some.inj (hrow'.symm.trans (Db.scopeOf_eq_some_iff.mp hrow).1)
    have := hfen hstate
    simp [hfence] at this
  · refine hgated.order.imp fun {e e'} horder s u u' hadmits hadmits' => ?_
    have := horder.once (hadmits.scope.trans hadmits'.scope.symm) (by rw [hadmits.scope]; rfl)
      hadmits.body
    rw [hadmits'.body] at this
    cases this
  · refine hgated.order.imp fun {e e'} horder hbody hbody' hscope => ?_
    have := (horder.pivot hscope (by rw [hbody]; rfl)).1
    rw [hbody'] at this
    cases this
  · obtain ⟨s, row, hs, -, -, -, hadm⟩ := hgated.passed e he (by rw [hbody]; rfl)
    exact ⟨s, hs, hadm⟩
  · obtain ⟨w, hchanges⟩ := changes_of_step h hstep
    obtain ⟨new, hlog, -⟩ := hchanges.log
    exact ⟨⟨new, hlog.symm⟩, fun id row hrow hoper =>
      hgated.attempt_step hchanges (scoped_of_reachable h) hrow hoper⟩
  · refine hgated.order.imp fun {e e'} horder hbody payload hbody' hscope => ?_
    have := (horder.pivot hscope (by rw [hbody]; rfl)).2
    rw [hbody'] at this
    cases this
  · obtain ⟨s, scope, hes, hscope, -, hkey, -⟩ := hgated.passed e he (by rw [hbody]; rfl)
    obtain rfl := Option.mem_unique hes hs
    have := hgated.bracket key row scope hrow hscope hcan
    simp [hkey] at this

/-- Two tries succeed and the pivot of their scope passes. -/
def passedPivot : List Action :=
  parallelTries ++ [reply 1 .succeeded] ++ drive 1 2

/-- The passed pivot of a concrete run. -/
theorem pivot_one_way_passedPivot :
    ((World.after {} passedPivot).db.scopes.lookup 5).map ScopeRow.state = some .pivotPassed ∧
      OneWayGate {} (World.after {} passedPivot) :=
  ⟨by decide +kernel, pivot_one_way (reachable_after (by decide +kernel))⟩

end Flory
