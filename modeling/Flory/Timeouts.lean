import Flory.Calls
import Flory.Holding
import Flory.Submission

/-!
# What a Timeout Can Roll Back

A cancellation is authorised by a request of the Engine or by a sealed try past its deadline.
A scope commits only through its pivot, so that a scope without one keeps its tries sealed
after all of its work is done, until a sweep finds them expired. With a pivot in every scope
that has a try, work that succeeded as a whole is never rolled back.

## Main results

* `authorised_of_reachable`: a cancelled scope was requested or holds a bracket.
* `pivotSucceeded_of_reachable`: a pivot succeeds only together with its scope.
* `successful_scope_not_rolled_back`, `successful_scope_rolled_back`: a scope all of whose
  members succeeded is not cancelled by a sweep, if it has a pivot or no try; one that has
  a try and no pivot is.
-/

namespace Flory

variable {world : World} {cfg : Config} {world' : World} {s : ScopeId} {db : Db}

/-! ### Who authorised a cancellation -/

/-- A cancellation that starts is authorised. -/
theorem StateMove.authority {w : WorkerId} {row row' : ScopeRow}
    (hmove : StateMove world world' w s row row')
    (hstate' : row'.state = .cancelling ∨ row'.state = .cancelled) :
    row.state = .cancelling ∨ row.state = .cancelled ∨ row.cancelRequestedSeq.isSome = true ∨
      expiredTry world.db s = true := by
  cases hmove with
  | kept hstate => rw [← hstate]; exact hstate'.imp_right .inl
  | requested _ _ _ _ _ _ _ _ _ haut => exact .inr (.inr haut)
  | cancelCompleted _ hstate => exact .inl hstate
  | _ => simp_all

/-- An expired try is a bracket. -/
theorem brackets_of_expiredTry (h : expiredTry db s = true) : ∃ v, db.Brackets s v := by
  obtain ⟨key, row, hrow, hcond⟩ := Table.anyRow_iff.mp h
  simp only [Bool.and_eq_true, beq_iff_eq] at hcond
  exact ⟨row.tryVertexId, key, row, hrow, hcond.1.1, rfl⟩

/-- **A cancelled scope was requested or holds a bracket.** -/
def Authorised (world : World) : Prop :=
  ∀ s row, world.db.scopes.lookup s = some row → row.state = .cancelling ∨ row.state = .cancelled →
    (∃ e ∈ world.db.log, e.Requests s) ∨ ∃ v, world.db.Brackets s v

/-- A step keeps cancellations authorised. -/
theorem Authorised.step {a : Action} (h : Authorised world) (hreach : Reachable cfg world)
    (hstep : step cfg world a = some world') : Authorised world' := by
  obtain ⟨w, hchan⟩ := changes_of_step hreach hstep
  obtain ⟨_, hlog, -⟩ := hchan.log
  -- Neither a request nor a bracket goes away.
  have hmono : ∀ {s}, ((∃ e ∈ world.db.log, e.Requests s) ∨ ∃ v, world.db.Brackets s v) →
      (∃ e ∈ world'.db.log, e.Requests s) ∨ ∃ v, world'.db.Brackets s v := by
    rintro s (⟨e, he, hreq⟩ | ⟨v, hbrac⟩)
    · exact .inl ⟨e, by rw [hlog]; exact List.mem_append_left _ he, hreq⟩
    · exact .inr ⟨v, hbrac.step (scoped_of_reachable hreach) hchan⟩
  intro s row' hrow' hstate'
  rcases (hchan.scope s).origin hrow' with ⟨hopen, -, -⟩ | ⟨row, hrow, hchang⟩
  · rw [hopen] at hstate'
    simp at hstate'
  apply hmono
  rcases hchang.move.authority hstate' with hstate | hstate | hrequested | hexp
  · exact h s row hrow (.inl hstate)
  · exact h s row hrow (.inr hstate)
  · obtain ⟨seq, hseq⟩ := Option.isSome_iff_exists.mp hrequested
    obtain ⟨e, he, -, -, hreq⟩ := (requested_of_reachable hreach).row s row seq hrow hseq
    exact .inl ⟨e, he, hreq⟩
  · exact .inr (brackets_of_expiredTry hexp)

/-- Cancellations are authorised in every reachable world. -/
theorem authorised_of_reachable (h : Reachable cfg world) : Authorised world := by
  refine h.invariant_of (I := Authorised) (fun _ hreach => hreach)
    (fun s row hrow => by simp [World.initial] at hrow) ?_
  intro mid mid' a hmid _ haut _ hstep
  exact haut.step hmid hstep

/-! ### Pivots that succeeded -/

/-- The scope of a pivot that succeeded is past it, and not on its way to a cancellation. -/
def PivotSucceeded (world : World) : Prop :=
  ∀ e ∈ world.db.log, ∀ v ∈ world.db.vertices, ∀ s, v.scopeId = some s →
    v.payload.txn.effectClass = .irreversible → e.Succeeds v →
    ∃ row, world.db.scopes.lookup s = some row ∧ row.state.isPassed = true ∧
      row.cancelIdempotencyKey = none

/-- A worker records the success of a pivot only in the state that passed it. -/
theorem WorkerEvent.pivot_passed {db' : Db} {w : WorkerId} {e : Event} (hfroz : Frozen world)
    (hrout : (world.workers w).Routed) (h : WorkerEvent world.db db' (world.workers w) e)
    {v : CreatedVertex} (hv : v ∈ world.db.vertices)
    (hpiv : v.payload.txn.effectClass = .irreversible) (hsuc : e.Succeeds v) :
    ∃ (item : ScopedItem) (row' : ScopeRow), item.item.vertex = v ∧
      db'.scopes.lookup item.scopeId = some row' ∧ row'.state = .pivotPassed := by
  have hbody := hsuc.body
  -- The item a worker holds is the vertex its event names.
  have hitem : ∀ {item : WorkItem}, (world.workers w).stage.item? = some item →
      e.vertexId = some item.vertexId → item.vertex = v := fun hheld hid =>
    hfroz.eq_of_vertexId (hfroz.held w _ hheld) hv
      (Option.mem_unique hid hsuc.vertex)
  have hreg : ∀ {item : WorkItem} {result : Execution} {deadline : Time},
      world.workers w = .succeed item result deadline → e.vertexId = some item.vertexId → False := by
    intro item result deadline hpc hid
    obtain rfl := hitem (by rw [hpc]; rfl) hid
    rw [hpc] at hrout
    exact hrout ((congrArg TransactionSpec.effectClass (tool_txn item)).trans hpiv)
  cases h with
  | plain => cases hb : e.body <;> simp_all [EventBody.isPlain, EventBody.isSucceeded]
  | barrier hpc _ hid =>
    obtain rfl := hitem (by rw [hpc]; rfl) hid
    rw [hpc] at hrout
    simp only [WorkItem.vertex, show _ = VertexPayload.barrier from hrout] at hpiv
    cases hpiv
  | sealed hpc _ hid | succeeded hpc _ hid => exact (hreg hpc hid).elim
  | pivotSucceeded hpc _ hid hrow' hstate' =>
    exact ⟨_, _, hitem (by rw [hpc]; rfl) hid, hrow', hstate'⟩
  | tried _ hb | admitted _ hb | passed _ hb | confirmed _ hb | requested _ hb | completed _ hb =>
    rw [hb] at hbody
    cases hbody

/-- A step keeps the scopes of succeeded pivots past them. -/
theorem PivotSucceeded.step {a : Action} (h : PivotSucceeded world) (hreach : Reachable cfg world)
    (hreach' : Reachable cfg world') (hstep : step cfg world a = some world') :
    PivotSucceeded world' := by
  obtain ⟨w, hchan⟩ := changes_of_step hreach hstep
  obtain ⟨_, hlog, hnew⟩ := hchan.log
  have hfroz := frozen_of_reachable hreach
  have hfroz' := frozen_of_reachable hreach'
  intro e he v hv' s hs hpiv hsuc
  -- Who succeeds was created before.
  have hknown : ∀ v₀ ∈ world.db.vertices, e.vertexId = some v₀.vertexId → v₀ = v := by
    intro v₀ hv₀ hid
    exact hfroz'.eq_of_vertexId (vertices_mono hstep hv₀) hv' (Option.mem_unique hid hsuc.vertex)
  rw [hlog] at he
  rcases List.mem_append.mp he with he | he
  · obtain ⟨v₀, hv₀, hid, -⟩ := (succeededOnce_of_reachable hreach).sealed e he hsuc.body
    obtain rfl := hknown v₀ hv₀ hid
    obtain ⟨_, hrow, hpas, hkey⟩ := h e he v₀ hv₀ s hs hpiv hsuc
    obtain ⟨row', hrow', hchang⟩ := (hchan.scope s).row hrow
    exact ⟨row', hrow', hchang.passed hpas hkey⟩
  · cases hnew with
    | worker hlogS =>
      have hvold : v ∈ world.db.vertices := by
        obtain ⟨v₀, hv₀, hid, -⟩ := (hlogS.origin e he).succeeds hfroz
          (routed_of_reachable hreach w) (dispatched_of_reachable hreach) hsuc.body
        rwa [← hknown v₀ hv₀ hid]
      obtain ⟨item, row', rfl, hrow', hstate'⟩ := (hlogS.origin e he).pivot_passed hfroz
        (routed_of_reachable hreach w) hvold hpiv hsuc
      obtain rfl := Option.mem_unique item.inScope hs
      refine ⟨row', hrow', by rw [hstate']; rfl, ?_⟩
      by_contra hkey
      have hside := (keyed_of_reachable hreach').side _ row' hrow'
        (Option.isSome_iff_ne_none.mpr hkey)
      rw [hstate'] at hside
      cases hside
    | environment henv =>
      obtain ⟨-, heng | ⟨_, hfrozenBody⟩ | ⟨fv, hfv⟩⟩ := henv e he
      · obtain ⟨v₀, hv₀, hid, hclass⟩ := heng.succeeds_class hsuc.body
        obtain rfl := hknown v₀ hv₀ hid
        rw [hs] at hclass
        cases hpay : v₀.payload with
        | tool => simp [hpay, floryExecutorClass, SessionUser.owns] at hclass
        | _ => simp [hpay, VertexPayload.txn] at hpiv
      · have hbody := hsuc.body
        rw [hfrozenBody] at hbody
        cases hbody
      have hbody := hsuc.body
      rw [hfv] at hbody
      cases hbody

/-- **A pivot succeeds only together with its scope**, in every reachable world. -/
theorem pivotSucceeded_of_reachable (h : Reachable cfg world) : PivotSucceeded world := by
  refine h.invariant_of (I := PivotSucceeded) (fun _ hreach => hreach)
    (fun e he => by simp [World.initial] at he) ?_
  intro mid mid' a hmid hmid' hpiv _ hstep
  exact hpiv.step hmid hmid' hstep

/-! ### Work that succeeded as a whole -/

/-- Whether every scope of a freeze that has a try has a pivot. -/
def pivotedTries (vertices : List FrozenVertex) : Bool :=
  vertices.all fun v => v.scopeId.isNone || !v.payload.mode.isTry ||
    vertices.any fun p => p.scopeId == v.scopeId && p.payload.txn.effectClass == .irreversible

/-- Whether an action freezes no try into a scope without a pivot. -/
def freezesPivoted (_ : World) : Action → Bool
  | .freeze _ vertices _ => pivotedTries vertices
  | _ => true

/-- Every scope that has a try has a pivot. -/
def Pivoted (world : World) : Prop :=
  ∀ v ∈ world.db.vertices, ∀ s, v.scopeId = some s → v.payload.mode.isTry = true →
    ∃ p ∈ world.db.vertices, p.scopeId = some s ∧ p.payload.txn.effectClass = .irreversible

/-- In a run that freezes pivoted tries, every scope that has a try has a pivot. -/
theorem pivoted_of_reachable
    (h : ReachableUnder cfg (fun world a => freezesPivoted world a = true) world) :
    Pivoted world := by
  refine h.invariant (I := Pivoted) (fun v hv => by simp [World.initial, Db.vertices] at hv) ?_
  intro mid mid' a hpiv hall hstep v hv s hs htry
  rcases vertices_action hstep with hsame | ⟨runId, frozen, seq, rfl, -, hnew⟩
  · rw [hsame] at hv ⊢
    exact hpiv v hv s hs htry
  rw [hnew] at hv ⊢
  rcases List.mem_append.mp hv with hv | hv
  · obtain ⟨p, hp, hfac⟩ := hpiv v hv s hs htry
    exact ⟨p, List.mem_append_left _ hp, hfac⟩
  obtain ⟨fv, hfv, rfl⟩ := List.mem_map.mp hv
  have hrule := List.all_eq_true.mp hall fv hfv
  simp only [FrozenVertex.vertex] at hs htry
  simp only [hs, htry, Option.isNone_some, Bool.not_true, Bool.false_or, List.any_eq_true,
    Bool.and_eq_true, beq_iff_eq] at hrule
  obtain ⟨p, hp, hscope, heff⟩ := hrule
  exact ⟨p.vertex runId, List.mem_append_right _ (List.mem_map_of_mem hp), hscope, heff⟩

/-- **Fully successful work is not rolled back**: in a run that freezes a pivot with the tries
of every scope, a scope all of whose members have succeeded and whose cancellation the Engine
never requested is neither cancelling nor cancelled. -/
theorem successful_scope_not_rolled_back {cfg : Config} {world : World}
    (h : ReachableUnder cfg (fun world a => freezesPivoted world a = true) world) {s : ScopeId}
    (hmembers : ∀ v ∈ world.db.vertices, v.scopeId = some s → ∃ e ∈ world.db.log, e.Succeeds v)
    (hrequests : ∀ e ∈ world.db.log, ¬ e.Requests s) {row : ScopeRow}
    (hrow : world.db.scopes.lookup s = some row) :
    row.state ≠ .cancelling ∧ row.state ≠ .cancelled := by
  have hreach : Reachable cfg world := h.any
  rw [← not_or]
  intro hstate
  rcases authorised_of_reachable hreach s row hrow hstate with ⟨e, he, hreq⟩ | ⟨v, hbrac⟩
  · exact hrequests e he hreq
  obtain ⟨key, bracket, hbrac, rfl, -⟩ := hbrac
  obtain ⟨owner, howner, hof⟩ := (bracketed_of_reachable hreach).owner key bracket hbrac
  obtain ⟨p, hp, hs, hpivot⟩ := pivoted_of_reachable h owner howner _ hof.scope hof.isTry
  obtain ⟨e, he, hsuc⟩ := hmembers p hp hs
  obtain ⟨_, hrow', hpas, -⟩ :=
    pivotSucceeded_of_reachable hreach e he p hp _ hs hpivot hsuc
  obtain rfl := Option.mem_unique hrow hrow'
  rcases hstate with hstate | hstate <;> rw [hstate] at hpas <;> cases hpas

/-- Whether every member of a scope has succeeded. -/
def allSucceeded (db : Db) (s : ScopeId) : Bool :=
  db.vertices.all fun v => v.scopeId != some s ||
    db.log.any fun e => e.body.isSucceeded && e.vertexId == some v.vertexId

/-- The members that have succeeded, one by one. -/
theorem allSucceeded_iff : allSucceeded db s = true ↔
    ∀ v ∈ db.vertices, v.scopeId = some s → ∃ e ∈ db.log, e.Succeeds v := by
  simp only [allSucceeded, List.all_eq_true, Bool.or_eq_true, bne_iff_ne, ne_eq, List.any_eq_true,
    Bool.and_eq_true, beq_iff_eq]
  refine forall₂_congr fun v _ => ⟨fun h hs => ?_, fun h => ?_⟩
  · obtain ⟨e, he, hbody, hid⟩ := h.resolve_left (not_not.mpr hs)
    exact ⟨e, he, hbody, hid⟩
  by_cases hs : v.scopeId = some s
  · obtain ⟨e, he, hsuc⟩ := h hs
    exact .inr ⟨e, he, hsuc.body, hsuc.vertex⟩
  · exact .inl hs

/-- Whether a log holds no request for a cancellation. -/
def noRequests (log : List Event) : Bool :=
  log.all fun e => e.body.eventType != "replan/cancel-requested"

/-- A log without requests asks for the cancellation of no scope. -/
theorem not_requests_of_noRequests {log : List Event} (h : noRequests log = true) (s : ScopeId) :
    ∀ e ∈ log, ¬ e.Requests s := by
  rintro e he ⟨_, hbody, -⟩
  have hnot := List.all_eq_true.mp h e he
  simp [hbody, EventBody.eventType] at hnot

/-- A scope of a concrete run whose pivot has passed. -/
theorem successful_scope_not_rolled_back_passedPivot :
    ∃ row, (World.afterUnder {} freezesPivoted passedPivot).db.scopes.lookup 5 = some row ∧
      row.state ≠ .cancelling ∧ row.state ≠ .cancelled := by
  have hrow : ((World.afterUnder {} freezesPivoted passedPivot).db.scopes.lookup 5).isSome := by
    decide +kernel
  obtain ⟨row, hrow⟩ := Option.isSome_iff_exists.mp hrow
  exact ⟨row, hrow, successful_scope_not_rolled_back (reachable_afterUnder (by decide +kernel))
    (allSucceeded_iff.mp (by decide +kernel)) (not_requests_of_noRequests (by decide +kernel) 5)
    hrow⟩

/-- A workflow with one reservation and no pivot. -/
def reservationOnly : WorkflowSubmission where
  vertices := [shopCall "a" "reserve"]
  scopes := [⟨"S", ["a"]⟩]

/-- The reservation succeeds, its deadline passes and a sweep finds it. -/
def sweptReservation : List Action :=
  [.createRun 1, .freeze 1 (shopFreeze oneRun 1 reservationOnly)] ++ callNext 1 ++
    [reply 1 .succeeded] ++ drive 1 3 ++ [.tick 61000, .sweep 1 [(1, 11)]] ++ drive 1 1

/-- **Fully successful work can be rolled back**: the rules accept a reservation without a
pivot. It succeeds, nobody asks for its cancellation, and the first sweep behind its deadline
cancels the scope. -/
theorem successful_scope_rolled_back :
    (∃ events, submit oneRun 1 reservationOnly shopView {} (10 + ·) 0 = .ok (.admitted events) ∧
      shopFreeze oneRun 1 reservationOnly = frozenVertices events) ∧
    ∃ world, Reachable {} world ∧ world = World.after {} sweptReservation ∧
      (∀ v ∈ world.db.vertices, v.scopeId = some 11 → ∃ e ∈ world.db.log, e.Succeeds v) ∧
      (∀ e ∈ world.db.log, ¬ e.Requests 11) ∧
      (world.db.vertices.map fun v => (v.vertexId, v.scopeId)) = [(10, some 11)] ∧
      (world.db.scopes.lookup 11).map ScopeRow.state = some .cancelling :=
  ⟨shopFreeze_of_admits (by decide +kernel), _, reachable_after (by decide +kernel), rfl,
    allSucceeded_iff.mp (by decide +kernel), not_requests_of_noRequests (by decide +kernel) 11,
    by decide +kernel, by decide +kernel⟩

end Flory
