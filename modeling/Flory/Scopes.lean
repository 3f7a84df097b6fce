import Flory.Frozen

/-!
# The Life of a Scope

Which state changes of a scope a step can make. Three of the four unguarded writes of a
scope state are made by the worker that holds the scope's admitted pivot, the fourth by a
worker that runs its cancellation; `Scoped` is the invariant that ties every such worker to
the state of its scope. It leaves ten transitions (`StateMove`):

* `open` to `pivot-inflight`, `cancelling` and `suspended`;
* `pivot-inflight` to `pivot-passed`, back to a fenced `open`, and `suspended`;
* `pivot-passed` to `committed` and `suspended`;
* `cancelling` to `cancelled`, and `cancelling`, `cancelled` or `suspended` to `suspended`.

## Main results

* `scoped_of_reachable`: at most one worker holds a scope's pivot, and while it does the
  scope is in the state its program point expects.
* `scope_change`: what a step of a reachable world does to one scope.
-/

namespace Flory

variable {db : Db} {runId : RunId} {s : ScopeId} {db' : Db} {cfg : Config} {world world' : World}
  {a : Action} {w : WorkerId} {item : ScopedItem}

/-! ### The required tries of a scope -/

/-- The members of a scope are its created vertices. -/
theorem scopeMembers_eq :
    scopeMembers db runId s =
      ((db.vertices.filter fun v => decide (v.runId = runId ∧ v.scopeId = some s)).map
        fun v => (v.vertexId, v.payload)) := by
  rw [scopeMembers, Db.vertices, List.filter_filterMap, List.map_filterMap]
  refine List.filterMap_congr fun e _ => ?_
  unfold Event.created?
  cases hbody : e.body <;> cases hv : e.vertexId <;> simp
  by_cases hrun : e.runId = runId <;> by_cases hs : e.scopeId = some s <;> simp [hrun, hs]

/-- The vertices a scope requires are its created tries. -/
theorem mem_requiredTries {v : VertexId} :
    v ∈ requiredTries db runId s ↔ ∃ cv ∈ db.vertices, cv.vertexId = v ∧ cv.runId = runId ∧
      cv.scopeId = some s ∧ cv.payload.mode.isTry = true := by
  rw [requiredTries, scopeMembers_eq]
  simp only [List.mem_map, List.mem_filter, decide_eq_true_eq, Prod.exists, Prod.mk.injEq]
  constructor
  · rintro ⟨_, _, ⟨⟨cv, ⟨hcv, hrun, hs⟩, rfl, rfl⟩, htry⟩, rfl⟩
    exact ⟨cv, hcv, rfl, hrun, hs, htry⟩
  · rintro ⟨cv, hcv, rfl, hrun, hs, htry⟩
    exact ⟨_, cv.payload, ⟨⟨cv, ⟨hcv, hrun, hs⟩, rfl, rfl⟩, htry⟩, rfl⟩

/-- Vertices of other scopes do not change what a scope requires. -/
theorem requiredTries_append {new : List CreatedVertex}
    (hver : db'.vertices = db.vertices ++ new) (hnew : ∀ v ∈ new, v.scopeId ≠ some s) :
    requiredTries db' runId s = requiredTries db runId s := by
  have hnil : new.filter (fun v => decide (v.runId = runId ∧ v.scopeId = some s)) = [] := by
    refine List.filter_eq_nil_iff.mpr fun v hv => ?_
    simp [hnew v hv]
  rw [requiredTries, requiredTries, scopeMembers_eq, scopeMembers_eq, hver, List.filter_append,
    hnil, List.append_nil]

/-- A step keeps what an existing scope requires. -/
theorem requiredTries_step (hstep : step cfg world a = some world')
    (hknown : scopeKnown world.db s = true) :
    requiredTries world'.db runId s = requiredTries world.db runId s := by
  rcases vertices_step hstep with hsame | ⟨run, frozen, hfreez, hnew⟩
  · exact requiredTries_append (hsame.trans (List.append_nil _).symm) (by simp)
  refine requiredTries_append hnew fun v hv hs => ?_
  obtain ⟨fv, hfv, rfl⟩ := List.mem_map.mp hv
  have hunk := (freezable_mem hfreez hfv).2 s hs
  rw [hknown] at hunk
  cases hunk

/-! ### The invariant -/

/-- **Scopes and their workers.** -/
structure Scoped (world : World) : Prop where
  inflight : ∀ w item, (world.workers w).stage = .inflight item → world.db.Inflight item
  passed : ∀ w item, (world.workers w).stage = .passed item → world.db.Passed item
  unique : ∀ w w' item item', (world.workers w).stage.pivot? = some item →
    (world.workers w').stage.pivot? = some item' → item.scopeId = item'.scopeId → w = w'
  cancelling : ∀ w, ∀ c ∈ (world.workers w).stage.cancellations, world.db.Cancelling c
  member : ∀ s row, world.db.scopes.lookup s = some row →
    ∃ v ∈ world.db.vertices, v.scopeId = some s ∧ v.runId = row.runId
  required : ∀ s row, world.db.scopes.lookup s = some row →
    row.requiredTryVertices = requiredTries world.db row.runId s

/-- **The transitions of a scope**, as worker `w` makes them. -/
inductive StateMove (world world' : World) (w : WorkerId) (s : ScopeId) (row row' : ScopeRow) : Prop
  | kept (hstate : row'.state = row.state) (hpivot : row'.pivotVertexId = row.pivotVertexId)
  | admitted {item : ScopedItem} (hpc : world.workers w = .admitPivot item)
      (hs : item.scopeId = s) (hstate : row.state = .opened) (hfence : row.fencedAt = none)
      (hsealed : sealedCount world.db row.runId s row = row.requiredTryVertices.length)
      (hlog : world'.db.log = world.db.log ++
        [world.db.stamp item.item.runId (admissionEvent s item.item.vertexId)])
      (hstate' : row'.state = .pivotInflight)
      (hpivot' : row'.pivotVertexId = some item.item.vertexId)
  | passed {item : ScopedItem} {result : Execution}
      (hpc : world.workers w = .pass item result) (hs : item.scopeId = s)
      (hstate : row.state = .pivotInflight) (hstate' : row'.state = .pivotPassed)
      (hpivot : row.pivotVertexId = some item.item.vertexId)
      (hpivot' : row'.pivotVertexId = row.pivotVertexId)
  | reopened {item : ScopedItem} (hholds : (world.workers w).stage.pivot? = some item)
      (hs : item.scopeId = s) (hstate : row.state = .pivotInflight)
      (hstate' : row'.state = .opened) (hfence' : row'.fencedAt.isSome)
  | abandoned {item : ScopedItem} (hholds : (world.workers w).stage.pivot? = some item)
      (hs : item.scopeId = s) (hstate : row.state = .pivotInflight ∨ row.state = .pivotPassed)
      (hstate' : row'.state = .suspended)
  | committed {item : ScopedItem} (hpc : world.workers w = .commit item)
      (hs : item.scopeId = s) (hstate : row.state = .pivotPassed)
      (hstate' : row'.state = .committed)
  | suspendedOpen (hstate : row.state = .opened) (hstate' : row'.state = .suspended)
  | requested {request : CancelRequest} (hpc : (world.workers w).request? = some request)
      (hs : request.scopeId = s) (hrun : row.runId = request.runId) (hstate : row.state = .opened)
      (hlease : liveLease world.db row.runId s = false)
      (hresolved : unresolvedAttempt world.db row.runId s = false)
      (hstate' : row'.state = .cancelling)
      (hkey' : row'.cancelIdempotencyKey = some (cancelKey s))
      (hlisted : ∀ k bracket, (k, bracket) ∈ undoable world.db row.runId s →
        (world'.db.members.lookup ⟨row.runId, s, bracket.tryVertexId⟩).isSome)
      (hauthority : row.cancelRequestedSeq.isSome = true ∨ expiredTry world.db s = true)
  | suspendedCancel {c : Cancellation} {member : CancelMember}
      (hpc : world.workers w = .suspendCancel c member) (hs : c.scopeId = s)
      (hrun : row.runId = c.runId) (hstate : row.state.isCancelSide = true)
      (hstate' : row'.state = .suspended)
  | cancelCompleted {c : Cancellation} (hpc : world.workers w = .completeCancel c)
      (hstate : row.state = .cancelling) (hstate' : row'.state = .cancelled)
      (hmembers : incompleteMember world.db row.runId s = false)
      (hbrackets : ∀ key bracket, world'.db.brackets.lookup key = some bracket →
        bracket.runId = row.runId → bracket.scopeId = s → bracket.state ≠ .sealed)

/-- What a step of worker `w` does to the row of one scope. -/
structure RowChange (world world' : World) (w : WorkerId) (s : ScopeId) (row row' : ScopeRow) :
    Prop where
  run : row'.runId = row.runId
  required : row'.requiredTryVertices = row.requiredTryVertices
  fence : row.fencedAt.isSome → row'.fencedAt.isSome
  key : row'.cancelIdempotencyKey = row.cancelIdempotencyKey ∨ (row.state = .opened ∧
    row'.state = .cancelling ∧ row'.cancelIdempotencyKey = some (cancelKey s))
  move : StateMove world world' w s row row'

/-- **What a step of worker `w` does to one scope**: nothing, open it, or one of its
transitions. -/
inductive ScopeChange (world world' : World) (w : WorkerId) (s : ScopeId) : Prop
  | absent (h : world.db.scopes.lookup s = none) (h' : world'.db.scopes.lookup s = none)
  | opened {item : ScopedItem} {row' : ScopeRow}
      (hpc : world.workers w = .ensure item) (hs : item.scopeId = s)
      (h : world.db.scopes.lookup s = none) (h' : world'.db.scopes.lookup s = some row')
      (hrun : row'.runId = item.item.runId) (hstate : row'.state = .opened)
      (hrequired : row'.requiredTryVertices = requiredTries world.db item.item.runId s)
      (hfence : row'.fencedAt = none) (hkey : row'.cancelIdempotencyKey = none)
  | changed {row row' : ScopeRow} (h : world.db.scopes.lookup s = some row)
      (h' : world'.db.scopes.lookup s = some row') (hrow : RowChange world world' w s row row')

/-- An unchanged scope. -/
theorem ScopeChange.same (h : world'.db.scopes.lookup s = world.db.scopes.lookup s) :
    ScopeChange world world' w s := by
  cases hrow : world.db.scopes.lookup s with
  | none => exact .absent hrow (h.trans hrow)
  | some => exact .changed hrow (h.trans hrow) ⟨rfl, rfl, id, .inl rfl, .kept rfl rfl⟩

/-- A scope whose row became another. -/
theorem ScopeChange.becomes {row row' : ScopeRow} {state : ScopeState}
    (h : world.db.scopes.lookup s = some row) (h' : world'.db.scopes.lookup s = some row')
    (hbec : row.Becomes state row') (hmove : StateMove world world' w s row row') :
    ScopeChange world world' w s :=
  .changed h h' ⟨hbec.runId_eq, hbec.required_eq, hbec.fence_le, .inl hbec.key_eq,
    hmove⟩

/-- A scope that exists keeps a row. -/
theorem ScopeChange.row (hchange : ScopeChange world world' w s) {row : ScopeRow}
    (hrow : world.db.scopes.lookup s = some row) :
    ∃ row', world'.db.scopes.lookup s = some row' ∧ RowChange world world' w s row row' := by
  cases hchange with
  | absent hnone | opened _ _ hnone => simp [hnone] at hrow
  | changed hrow₀ hrow' hchange =>
    obtain rfl := Option.mem_unique hrow₀ hrow
    exact ⟨_, hrow', hchange⟩

variable {row row' : ScopeRow}

/-- Where a scope's row after a step comes from: it is new, or an earlier one changed. -/
theorem ScopeChange.origin (hchange : ScopeChange world world' w s)
    (hrow' : world'.db.scopes.lookup s = some row') :
    (row'.state = .opened ∧ row'.fencedAt = none ∧ row'.cancelIdempotencyKey = none) ∨
      ∃ row, world.db.scopes.lookup s = some row ∧ RowChange world world' w s row row' := by
  cases hchange with
  | absent _ hnone => simp [hnone] at hrow'
  | opened _ _ _ hnew _ hstate _ hfen hkey =>
    obtain rfl := Option.mem_unique hnew hrow'
    exact .inl ⟨hstate, hfen, hkey⟩
  | changed hrow hnew hchange =>
    obtain rfl := Option.mem_unique hnew hrow'
    exact .inr ⟨_, hrow, hchange⟩

/-! ### What a step does to one scope -/

/-- A worker that makes sure of a scope's row works on a vertex of its run. -/
theorem Scoped.run_of_ensure (hscop : Scoped world) (hfroz : Frozen world)
    (hpc : world.workers w = .ensure item)
    (hrow : world.db.scopes.lookup item.scopeId = some row) : row.runId = item.item.runId := by
  obtain ⟨v, hv, hvsc, hvrun⟩ := hscop.member _ _ hrow
  have hitem : item.item.vertex ∈ world.db.vertices :=
    hfroz.held w item.item (by rw [hpc]; rfl)
  rw [← hvrun]
  exact hfroz.scopes v hv _ hitem item.scopeId hvsc item.inScope

/-- One scope written, the others kept. -/
theorem ScopeChange.write {t : ScopeId}
    (hnew : world'.db.scopes.lookup s = if s = t then some row else world.db.scopes.lookup s)
    (h : s = t → world'.db.scopes.lookup s = some row → ScopeChange world world' w s) :
    ScopeChange world world' w s := by
  by_cases hs : s = t
  · exact h hs (hnew.trans (if_pos hs))
  · exact .same (hnew.trans (if_neg hs))

/-- A scope touched at most. -/
theorem ScopeChange.touched (h : world.db.Touched world'.db s) (w : WorkerId) :
    ScopeChange world world' w s := by
  rcases h with hsame | ⟨row, row', hrow, hrow', hbec⟩
  · exact .same hsame
  · exact .becomes hrow hrow' hbec (.kept hbec.state_eq hbec.pivot_eq)

/-- An unguarded state write over a scope touched at most. -/
theorem ScopeChange.stated {mid : Db} {e : Event} {payload : ScopePayload}
    (hrow : world.db.scopes.lookup s = some row) (hmid : world.db.Touched mid s)
    (hnew : world'.db.scopes.lookup s = some (projectScope mid e s payload))
    (hmove : ∀ row' : ScopeRow, row'.state = payload.state → StateMove world world' w s row row') :
    ScopeChange world world' w s := by
  obtain ⟨row', hrow', htouc⟩ := hmid.row hrow
  have hbec := htouc.trans (projectScope_becomes hrow' e payload)
  exact .becomes hrow hnew hbec (hmove _ hbec.state_eq)

/-- What a worker's move does to one scope. -/
theorem WorkerStep.scopeChange {pc' : Pc} (h : WorkerStep cfg w world.db (world.workers w) db' pc')
    (hscop : Scoped world) (hfroz : Frozen world) (workers' : WorkerId → Pc) (s : ScopeId) :
    ScopeChange world ⟨db', workers'⟩ w s := by
  generalize hat : world.workers w = pc at h
  cases h with
  | duplicate hpc hrow | stillSuspended hpc hrow =>
    refine .write (Db.lookup_setScope _ _ _ _) ?_
    rintro rfl hnew
    exact .touched (.inr ⟨_, _, (Db.scopeOf_eq_some_iff.mp hrow).1, hnew,
      ScopeRow.becomes_answer _ _⟩) w
  | deferred hpc hrow =>
    refine .write (Db.lookup_setScope _ _ _ _) ?_
    rintro rfl hnew
    exact .touched (.inr ⟨_, _, (Db.scopeOf_eq_some_iff.mp hrow).1, hnew,
      ScopeRow.becomes_defer _ _⟩) w
  | suspended hpc hrow hstate =>
    refine .write (lookup_pushState _ _ _ _ _) ?_
    rintro rfl hnew
    exact .stated (Db.scopeOf_eq_some_iff.mp hrow).1 (.inl rfl) hnew fun _ hstate' =>
      .suspendedOpen hstate hstate'
  | requested hpc hrow hstate hlease hres haut =>
    rename_i request row
    refine .write (Db.lookup_setScope _ _ _ _) ?_
    rintro rfl hnew
    obtain ⟨hlook, hrun⟩ := Db.scopeOf_eq_some_iff.mp hrow
    have hans := row.becomes_answer .requested
    refine .changed hlook hnew ⟨hans.runId_eq, hans.required_eq, hans.fence_le,
      .inr ⟨hstate, rfl, rfl⟩, .requested (hat ▸ hpc) rfl hrun hstate (hrun ▸ hlease)
        (hrun ▸ hres) rfl rfl (fun k bracket hundo => ?_) haut⟩
    rw [hrun] at hundo ⊢
    exact cancelMembers_isSome (show (k, bracket) ∈ undoable (world.db.push _ _) _ _ from hundo)
  | opened hnone =>
    rename_i item
    refine .write (lookup_pushState _ _ _ _ _) ?_
    rintro rfl hnew
    cases hold : world.db.scopes.lookup item.scopeId with
    | none =>
      rw [projectScope_new hold] at hnew
      exact .opened hat rfl hold hnew rfl rfl rfl rfl rfl
    | some =>
      have hrun := hscop.run_of_ensure hfroz hat hold
      rw [Db.scopeOf_eq_some_iff.mpr ⟨hold, hrun⟩] at hnone
      cases hnone
  | refused | refusedUnstarted | failedCall
  | failedAbsent => exact .touched (touched_pushFailure _ _ _ s) w
  | admitted hrow hstate hfen hseal =>
    refine .write (Db.lookup_setScope _ _ _ _) ?_
    rintro rfl hnew
    obtain ⟨hlook, hrun⟩ := Db.scopeOf_eq_some_iff.mp hrow
    exact .changed hlook hnew ⟨rfl, rfl, id, .inl rfl,
      .admitted hat rfl hstate hfen (hrun ▸ hseal) rfl rfl rfl⟩
  | suspendedPivot item result =>
    have hfail := touched_pushFailure world.db item.item.runId (failureEvent item.item result)
    generalize world.db.pushFailure _ _ = mid at hfail ⊢
    have hnew := lookup_pushState mid item.item.runId item.scopeId s { state := .suspended }
    by_cases hs : s = item.scopeId
    · subst hs
      obtain ⟨row, hrow, -, hstate, -⟩ := hscop.inflight w item (by rw [hat]; rfl)
      exact .stated hrow (hfail _) (hnew.trans (if_pos rfl)) fun _ hstate' =>
        .abandoned (by rw [hat]; rfl) rfl (.inl hstate) hstate'
    · refine .touched ?_ w
      rw [Db.Touched, hnew, if_neg hs]
      exact hfail s
  | passed hrow hstate hpiv =>
    refine .write (Db.lookup_setScope _ _ _ _) ?_
    rintro rfl hnew
    exact .changed (Db.scopeOf_eq_some_iff.mp hrow).1 hnew
      ⟨rfl, rfl, id, .inl rfl, .passed hat rfl hstate rfl hpiv rfl⟩
  | reopened hrow hstate =>
    refine .write (Db.lookup_setScope _ _ _ _) ?_
    rintro rfl hnew
    exact .changed (Db.scopeOf_eq_some_iff.mp hrow).1 hnew ⟨rfl, rfl, fun _ => rfl, .inl rfl,
      .reopened (by rw [hat]; rfl) rfl hstate rfl rfl⟩
  | suspendedConfirm item =>
    refine .write (lookup_pushState _ _ _ _ _) ?_
    rintro rfl hnew
    obtain ⟨row, hrow, -, hstate⟩ := hscop.passed w item (by rw [hat]; rfl)
    exact .stated hrow (.inl rfl) hnew fun _ hstate' =>
      .abandoned (by rw [hat]; rfl) rfl (.inr hstate) hstate'
  | committed item =>
    refine .write (lookup_pushState _ _ _ _ _) ?_
    rintro rfl hnew
    obtain ⟨row, hrow, -, hstate⟩ := hscop.passed w item (by rw [hat]; rfl)
    exact .stated hrow (.inl rfl) hnew fun _ hstate' => .committed hat rfl hstate hstate'
  | suspendedCancel c =>
    refine .write (lookup_pushState _ _ _ _ _) ?_
    rintro rfl hnew
    obtain ⟨row, hrow, hrun, hstate, -⟩ := hscop.cancelling w c.toScopeCancellation
      (by rw [hat]; exact List.mem_cons_self)
    exact .stated hrow (.inl rfl) hnew fun _ hstate' =>
      .suspendedCancel hat rfl hrun hstate hstate'
  | cancelCompleted hrow hstate hkey hmem =>
    refine .write (Db.lookup_setScope _ _ _ _) ?_
    rintro rfl hnew
    obtain ⟨hlook, hrun⟩ := Db.scopeOf_eq_some_iff.mp hrow
    refine .changed hlook hnew ⟨rfl, rfl, id, .inl rfl,
      .cancelCompleted hat hstate rfl (hrun ▸ hmem) fun key bracket => ?_⟩
    rw [hrun]
    exact cancelBrackets_state
  | _ => exact .same rfl

/-- What a step does to one scope, in a world that meets the invariants. -/
theorem Scoped.scope_change (hscop : Scoped world) (hfroz : Frozen world)
    (hstep : step cfg world a = some world') (s : ScopeId) : ∃ w, ScopeChange world world' w s := by
  rcases step_cases hstep with ⟨w, hmove⟩ | ⟨henv, -⟩
  · exact ⟨w, hmove.step.scopeChange hscop hfroz _ s⟩
  · exact ⟨0, .touched (henv.scope s) 0⟩

/-! ### The invariant is kept -/

/-- The scope of a held pivot is inflight or passed. -/
theorem Scoped.held_state (hscop : Scoped world)
    (hhol : (world.workers w).stage.pivot? = some item) :
    ∃ row, world.db.scopes.lookup item.scopeId = some row ∧ row.runId = item.item.runId ∧
      (row.state = .pivotInflight ∨ row.state = .pivotPassed) := by
  cases hstage : (world.workers w).stage with
  | inflight =>
    rw [hstage] at hhol
    cases hhol
    obtain ⟨row, hrow, hrun, hstate, -⟩ := hscop.inflight w _ hstage
    exact ⟨row, hrow, hrun, .inl hstate⟩
  | passed =>
    rw [hstage] at hhol
    cases hhol
    obtain ⟨row, hrow, hrun, hstate⟩ := hscop.passed w _ hstage
    exact ⟨row, hrow, hrun, .inr hstate⟩
  | _ =>
    rw [hstage] at hhol
    cases hhol

section

variable (hchange : ScopeChange world world' w item.scopeId)
  (hother : ∀ item', (world.workers w).stage.pivot? = some item' → item'.scopeId ≠ item.scopeId)

include hchange hother

/-- An inflight pivot stays so while another worker moves. -/
theorem ScopeChange.inflight (h : world.db.Inflight item) : world'.db.Inflight item := by
  obtain ⟨_, hrow, hrun, hstate, hpiv⟩ := h
  obtain ⟨row', hrow', hchange⟩ := hchange.row hrow
  cases hchange.move with
  | kept hstate' hpiv' =>
    exact ⟨row', hrow', hchange.run.trans hrun, hstate'.trans hstate, hpiv'.trans hpiv⟩
  | passed hpc hs => exact absurd hs (hother _ (by rw [hpc]; rfl))
  | reopened hhol hs | abandoned hhol hs => exact absurd hs (hother _ hhol)
  | suspendedCancel _ _ _ hside => simp [hstate, ScopeState.isCancelSide] at hside
  | _ => simp_all

/-- A passed pivot stays so while another worker moves. -/
theorem ScopeChange.passed (h : world.db.Passed item) : world'.db.Passed item := by
  obtain ⟨_, hrow, hrun, hstate⟩ := h
  obtain ⟨row', hrow', hchange⟩ := hchange.row hrow
  cases hchange.move with
  | kept hstate' => exact ⟨row', hrow', hchange.run.trans hrun, hstate'.trans hstate⟩
  | abandoned hhol hs => exact absurd hs (hother _ hhol)
  | committed hpc hs => exact absurd hs (hother _ (by rw [hpc]; rfl))
  | suspendedCancel _ _ _ hside => simp [hstate, ScopeState.isCancelSide] at hside
  | _ => simp_all

end

/-- A scope on the side of cancellation stays there. -/
theorem StateMove.isCancelSide (hmove : StateMove world world' w s row row')
    (hside : row.state.isCancelSide = true) : row'.state.isCancelSide = true := by
  cases hmove with
  | kept hstate => rw [hstate]; exact hside
  | suspendedCancel _ _ _ _ hstate' | cancelCompleted _ _ hstate' => rw [hstate']; rfl
  | abandoned _ _ hstate =>
    rcases hstate with hstate | hstate <;> simp [hstate, ScopeState.isCancelSide] at hside
  | _ => simp_all [ScopeState.isCancelSide]

/-- A cancellation stays one. -/
theorem ScopeChange.cancelling {c : ScopeCancellation}
    (hchange : ScopeChange world world' w c.scopeId) (h : world.db.Cancelling c) :
    world'.db.Cancelling c := by
  obtain ⟨_, hrow, hrun, hside, hkey⟩ := h
  obtain ⟨row', hrow', hchange⟩ := hchange.row hrow
  have hkey' := hchange.key.resolve_right fun hopen => by
    rw [hopen.1] at hside
    cases hside
  exact ⟨row', hrow', hchange.run.trans hrun, hchange.move.isCancelSide hside, hkey'.trans hkey⟩

/-- A worker takes a pivot only when its scope is open. -/
theorem StageStep.pivot {me : WorkerId} {stage stage' : Stage}
    (h : StageStep cfg me db db' stage stage') (hhol : stage'.pivot? = some item) :
    stage.pivot? = some item ∨
      ∃ row, db.scopes.lookup item.scopeId = some row ∧ row.state = .opened := by
  cases h with
  | freed | working | claimed | left | decided | resumed => cases hhol
  | kept | passed => exact .inl hhol
  | admitted hrow hstate =>
    cases hhol
    exact .inr ⟨_, hrow, hstate⟩

theorem scopeKnown_of_row (h : db.scopes.lookup s = some row) :
    scopeKnown db s = true := by
  simp [scopeKnown, h]

/-- A scope row has a created vertex, and requires the tries created for it. -/
def Db.RowsFounded (db : Db) : Prop :=
  ∀ s row, db.scopes.lookup s = some row →
    (∃ v ∈ db.vertices, v.scopeId = some s ∧ v.runId = row.runId) ∧
      row.requiredTryVertices = requiredTries db row.runId s

/-- Every scope row keeps a created vertex and what it requires. -/
theorem Scoped.rows_step (hscop : Scoped world) (hfroz : Frozen world)
    (hstep : step cfg world a = some world') : world'.db.RowsFounded := by
  intro s row' hrow'
  obtain ⟨w, hchange⟩ := hscop.scope_change hfroz hstep s
  cases hchange with
  | absent _ hnone => simp [hnone] at hrow'
  | opened hpc hs hnone hrow hrun hstate hreq hfen hkey =>
    rename_i item row
    obtain rfl := Option.mem_unique hrow hrow'
    subst hs
    have hitem : item.item.vertex ∈ world.db.vertices :=
      hfroz.held w item.item (by rw [hpc]; rfl)
    refine ⟨⟨_, vertices_mono hstep hitem, item.inScope, hrun.symm⟩, ?_⟩
    rw [hreq, hrun, requiredTries_step hstep (scopeKnown_of_mem hitem item.inScope)]
  | changed hrow hrow₁ hchange =>
    obtain rfl := Option.mem_unique hrow₁ hrow'
    obtain ⟨v, hv, hvsc, hvrun⟩ := hscop.member s _ hrow
    refine ⟨⟨v, vertices_mono hstep hv, hvsc, hvrun.trans hchange.run.symm⟩, ?_⟩
    rw [hchange.required, hchange.run, hscop.required s _ hrow,
      requiredTries_step hstep (scopeKnown_of_row hrow)]

/-- What a worker has in hand stays as it is while another one moves. -/
theorem Scoped.others (hscop : Scoped world) (hchange : ∀ s, ScopeChange world world' w s)
    {w' : WorkerId} (hw : w' ≠ w) (hsame : world'.workers w' = world.workers w') :
    (∀ item, (world'.workers w').stage = .inflight item → world'.db.Inflight item) ∧
      (∀ item, (world'.workers w').stage = .passed item → world'.db.Passed item) ∧
      ∀ c ∈ (world'.workers w').stage.cancellations, world'.db.Cancelling c := by
  -- its pivot is not the one the moving worker holds
  have hother : ∀ item, (world.workers w').stage.pivot? = some item → ∀ item',
      (world.workers w).stage.pivot? = some item' → item'.scopeId ≠ item.scopeId :=
    fun item hhol item' hhol' heq => hw (hscop.unique w w' _ _ hhol' hhol heq).symm
  rw [hsame]
  exact ⟨fun item hst => (hchange _).inflight (hother item (by rw [hst]; rfl))
      (hscop.inflight w' item hst),
    fun item hst => (hchange _).passed (hother item (by rw [hst]; rfl)) (hscop.passed w' item hst),
    fun c hc => (hchange _).cancelling (hscop.cancelling w' c hc)⟩

/-- Scopes and their workers are kept by a worker's move. -/
theorem Scoped.move (hscop : Scoped world) (hfroz : Frozen world)
    (hmove : WorkerMove cfg world a world' w) (hrows : world'.db.RowsFounded) : Scoped world' := by
  have hchange := hmove.step.scopeChange hscop hfroz world'.workers
  have hoth := fun w' hw => hscop.others hchange hw (hmove.others w' hw)
  have hstage := hmove.step.stage
  refine ⟨fun w' item hst => ?_, fun w' item hst => ?_, fun w₁ w₂ item₁ item₂ h₁ h₂ heq => ?_,
    fun w' c hc => ?_, fun s row' hrow' => (hrows s row' hrow').1,
    fun s row' hrow' => (hrows s row' hrow').2⟩
  · by_cases hw : w' = w
    · subst hw
      rw [hst] at hstage
      generalize hst₀ : (world.workers w').stage = stage at hstage
      cases hstage with
      | kept _ hscopes =>
        rw [Db.Inflight, hscopes]
        exact hscop.inflight w' item hst₀
      | admitted _ _ h => exact h
    · exact (hoth w' hw).1 item hst
  · by_cases hw : w' = w
    · subst hw
      rw [hst] at hstage
      generalize hst₀ : (world.workers w').stage = stage at hstage
      cases hstage with
      | kept _ hscopes =>
        rw [Db.Passed, hscopes]
        exact hscop.passed w' item hst₀
      | passed h => exact h
    · exact (hoth w' hw).2.1 item hst
  · -- a pivot is taken only while its scope is open, when nobody holds it
    have htak : ∀ w' item item', w' ≠ w → (world'.workers w).stage.pivot? = some item →
        (world'.workers w').stage.pivot? = some item' → item.scopeId = item'.scopeId → w = w' := by
      intro w' item item' hw hhol hhol' hitem
      rw [hmove.others w' hw] at hhol'
      rcases hstage.pivot hhol with hold | ⟨row, hrow, hopen⟩
      · exact hscop.unique w w' _ _ hold hhol' hitem
      obtain ⟨row', hrow', -, hstate⟩ := hscop.held_state hhol'
      rw [← hitem, hrow] at hrow'
      obtain rfl := Option.some.inj hrow'
      simp [hopen] at hstate
    by_cases hw₁ : w₁ = w <;> by_cases hw₂ : w₂ = w
    · rw [hw₁, hw₂]
    · subst hw₁
      exact htak w₂ _ _ hw₂ h₁ h₂ heq
    · subst hw₂
      exact (htak w₁ _ _ hw₁ h₂ h₁ heq.symm).symm
    rw [hmove.others w₁ hw₁] at h₁
    rw [hmove.others w₂ hw₂] at h₂
    exact hscop.unique w₁ w₂ _ _ h₁ h₂ heq
  · by_cases hw : w' = w
    · subst hw
      generalize hst₀ : (world.workers w').stage = stage at hstage
      generalize hst₁ : (world'.workers w').stage = stage' at hstage hc
      cases hstage with
      | kept _ hscopes =>
        rw [Db.Cancelling, hscopes]
        exact hscop.cancelling w' c (by rw [hst₀]; exact hc)
      | decided h => exact h c hc
      | resumed hall =>
        refine (hchange _).cancelling (hscop.cancelling w' c ?_)
        rw [hst₀]
        exact List.mem_cons_of_mem _ (hall ▸ hc)
      | _ => simp [Stage.cancellations] at hc
    · exact (hoth w' hw).2.2 c hc

/-- Scopes and their workers are kept by the environment. -/
theorem Scoped.environment (hscop : Scoped world) (henv : EnvironmentStep world.db world'.db)
    (hwor : world'.workers = world.workers) (hrows : world'.db.RowsFounded) :
    Scoped world' := by
  -- read as a step of a worker other than the one in question
  have hoth := fun w => hscop.others (fun s => .touched (henv.scope s) (w + 1))
    (Nat.succ_ne_self w).symm (congrFun hwor w)
  refine ⟨fun w => (hoth w).1, fun w => (hoth w).2.1, ?_, fun w => (hoth w).2.2,
    fun s row' hrow' => (hrows s row' hrow').1, fun s row' hrow' => (hrows s row' hrow').2⟩
  rw [hwor]
  exact hscop.unique

/-- **Scopes and their workers** are kept by every step. -/
theorem Scoped.step (hscop : Scoped world) (hfroz : Frozen world)
    (hstep : step cfg world a = some world') : Scoped world' := by
  have hrows := hscop.rows_step hfroz hstep
  rcases step_cases hstep with ⟨w, hmove⟩ | ⟨henv, hwor⟩
  · exact hscop.move hfroz hmove hrows
  · exact hscop.environment henv hwor hrows

/-- The empty world has no scope. -/
theorem scoped_initial : Scoped World.initial :=
  ⟨by simp [World.initial, Pc.stage], by simp [World.initial, Pc.stage],
    by simp [World.initial, Pc.stage, Stage.pivot?],
    by simp [World.initial, Pc.stage, Stage.cancellations], by simp [World.initial],
    by simp [World.initial]⟩

/-- **Scopes and their workers, in every reachable world.** -/
theorem scoped_of_reachable (h : Reachable cfg world) : Scoped world :=
  h.invariant_of (fun _ hreach => frozen_of_reachable hreach) scoped_initial
    fun _ _ _ hfroz _ hscop _ hstep => hscop.step hfroz hstep

/-- The tries of a scope are those its row requires. -/
theorem Scoped.mem_required (hscop : Scoped world) (hfroz : Frozen world)
    (hrow : world.db.scopes.lookup s = some row) {v : CreatedVertex} (hv : v ∈ world.db.vertices)
    (hs : v.scopeId = some s) (htry : v.payload.mode.isTry = true) :
    v.vertexId ∈ row.requiredTryVertices := by
  obtain ⟨v', hv', hs', hrun'⟩ := hscop.member s row hrow
  rw [hscop.required s row hrow]
  exact mem_requiredTries.mpr ⟨v, hv, rfl, (hfroz.scopes v hv v' hv' s hs hs').trans hrun', hs, htry⟩

/-- **What a step of a reachable world does to one scope.** -/
theorem scope_change (h : Reachable cfg world) (hstep : step cfg world a = some world')
    (s : ScopeId) : ∃ w, ScopeChange world world' w s :=
  (scoped_of_reachable h).scope_change (frozen_of_reachable h) hstep s

end Flory
