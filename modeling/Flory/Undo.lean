import Flory.Calls

/-!
# Cancelled Scopes Are Undone

A cancellation undoes what is sealed when it is decided on. The success of a call is
recorded in two transactions: the evidence of the attempt is resolved first, and the try is
sealed afterwards, by an append that asks neither for the worker's lease nor for the state
of the scope. A cancellation that is decided on between the two misses the try. When none
is, a cancelled scope leaves nothing behind.

## Main results

* `undone_of_reachable`: behind a cancellation every succeeded try has a bracket and a
  member, in the runs that meet `triesSealed`.
* `no_lost_compensation`: the members of a cancelled scope are completed for every try that
  succeeded, in these runs.
* `late_try_survives_cancellation`: without the condition, a try is sealed behind the
  completed cancellation of its scope.
-/

namespace Flory

variable {s : ScopeId} {world : World} {scope : ScopeRow} {cfg : Config}

/-! ### Tries that succeeded -/

section Step

variable {world' : World} {a : Action} {w : WorkerId}

/-- A try succeeds when its worker resolves it. -/
theorem Db.Tried.of_step {v : VertexId} (h : world'.db.Tried s v)
    (hchanges : Changes cfg world a world' w) :
    world.db.Tried s v ∨ ∃ id row, world.db.attempts.lookup id = some row ∧ row.operation = .call ∧
      row.scopeId = some s ∧ row.outcome = none ∧ (world.workers w).resolves.isSome := by
  obtain ⟨id, row', hrow', hcall, hs, hv, hout⟩ := h
  cases hchanges.attempt id with
  | kept hsame => exact .inl ⟨id, row', hsame ▸ hrow', hcall, hs, hv, hout⟩
  | recorded hpc hid hnew =>
    obtain rfl := Option.mem_unique hnew hrow'
    cases hout
  | resolved hpc hrow hopen hnew =>
    rename_i row outcome
    obtain rfl := Option.mem_unique hnew hrow'
    exact .inr ⟨id, row, hrow, hcall, hs, hopen, by rw [hpc]; rfl⟩

end Step

/-! ### Behind a cancellation -/

/-- Whether every try of a scope that succeeded is sealed in a bracket. -/
def sealedTries (db : Db) (s : ScopeId) : Bool :=
  (db.scopes.lookup s).all fun scope => !db.attempts.anyRow fun _ row =>
    row.operation == .call && row.scopeId == some s && row.outcome == some .succeeded &&
      scope.requiredTryVertices.contains row.vertexId &&
      !db.brackets.anyRow fun _ bracket => bracket.tryVertexId == row.vertexId

/-- The condition under which no compensation is lost: a worker asks for the cancellation of
a scope without a live lease only when every try of the scope that succeeded is sealed. -/
def triesSealed (world : World) : Action → Bool
  | .advance w =>
    match (world.workers w).request? with
    | some request => liveLease world.db request.runId request.scopeId ||
        sealedTries world.db request.scopeId
    | none => true
  | _ => true

/-- The bracket of a try that succeeded, when all of them are sealed. -/
theorem bracket_of_sealedTries {db : Db} (h : sealedTries db s = true)
    (hscope : db.scopes.lookup s = some scope) {v : VertexId} (hv : v ∈ scope.requiredTryVertices)
    (htried : db.Tried s v) :
    ∃ key row, db.brackets.lookup key = some row ∧ row.tryVertexId = v := by
  obtain ⟨id, row, hrow, hcall, hs, rfl, hout⟩ := htried
  simp only [sealedTries, hscope, Option.all_some, Bool.not_eq_true'] at h
  have hnot := Table.anyRow_eq_false_iff.mp h id row hrow
  have hbrac : (db.brackets.anyRow fun _ bracket => bracket.tryVertexId == row.vertexId) = true := by
    simpa [hcall, hs, hout, hv] using hnot
  obtain ⟨key, bracket, hbrac, hver⟩ := Table.anyRow_iff.mp hbrac
  exact ⟨key, bracket, hbrac, by simpa using hver⟩

/-- **Tries behind a cancellation.** Once a scope is cancelling every try that succeeded has
a bracket, and every bracket a member; once it is cancelled no bracket is sealed. -/
structure Undone (world : World) : Prop where
  bracketed : ∀ s scope, world.db.scopes.lookup s = some scope →
    scope.state = .cancelling ∨ scope.state = .cancelled → ∀ v ∈ scope.requiredTryVertices,
    world.db.Tried s v → ∃ key row, world.db.brackets.lookup key = some row ∧ row.tryVertexId = v
  member : ∀ s scope, world.db.scopes.lookup s = some scope →
    scope.state = .cancelling ∨ scope.state = .cancelled → ∀ key row,
    world.db.brackets.lookup key = some row → row.scopeId = s →
    (world.db.members.lookup ⟨scope.runId, s, row.tryVertexId⟩).isSome
  unsealed : ∀ s scope, world.db.scopes.lookup s = some scope → scope.state = .cancelled →
    ∀ key row, world.db.brackets.lookup key = some row → row.scopeId = s → row.state ≠ .sealed

/-- A scope behind its cancellation was there before, or its cancellation is decided on now. -/
theorem StateMove.decided {world' : World} {w : WorkerId} {row row' : ScopeRow}
    (hmove : StateMove world world' w s row row')
    (hstate' : row'.state = .cancelling ∨ row'.state = .cancelled) :
    (row.state = .cancelling ∨ row.state = .cancelled) ∨ (row.state = .opened ∧
      row'.state = .cancelling ∧ liveLease world.db row.runId s = false ∧
      (∃ request, (world.workers w).request? = some request ∧ request.scopeId = s ∧
        request.runId = row.runId) ∧
      ∀ k bracket, (k, bracket) ∈ undoable world.db row.runId s →
        (world'.db.members.lookup ⟨row.runId, s, bracket.tryVertexId⟩).isSome) := by
  cases hmove with
  | kept hstate => exact .inl (hstate ▸ hstate')
  | requested hpc hs hrun hstate hlease _ hcan _ hlis =>
    exact .inr ⟨hstate, hcan, hlease, ⟨_, hpc, hs, hrun.symm⟩, hlis⟩
  | cancelCompleted _ hstate => exact .inl (.inl hstate)
  | _ => simp_all

/-- The tries of a scope that succeeded have their bracket, and every bracket its member. -/
def Db.TriesListed (db : Db) (s : ScopeId) (scope : ScopeRow) : Prop :=
  (∀ v ∈ scope.requiredTryVertices, db.Tried s v →
    ∃ key row, db.brackets.lookup key = some row ∧ row.tryVertexId = v) ∧
  ∀ key row, db.brackets.lookup key = some row → row.scopeId = s →
    (db.members.lookup ⟨scope.runId, s, row.tryVertexId⟩).isSome

/-- An open scope's brackets are sealed, and a cancellation has to undo them all. -/
theorem undoable_of_open (h : Reachable cfg world) (hscope : world.db.scopes.lookup s = some scope)
    (hopen : scope.state = .opened) {key : String} {row : BracketRow}
    (hrow : world.db.brackets.lookup key = some row) (hs : row.scopeId = s) :
    (key, row) ∈ undoable world.db scope.runId s := by
  subst hs
  have hfroz := frozen_of_reachable h
  have hbrac := bracketed_of_reachable h
  obtain ⟨v, hmem, hof⟩ := hbrac.owner key row hrow
  refine mem_undoable.mpr ⟨hrow, (hbrac.run_eq hfroz (scoped_of_reachable h) hrow hscope).symm,
    rfl, ?_, ?_⟩
  · cases hstate : row.state with
    | sealed => rfl
    | confirmed =>
      have := hbrac.confirmed key row scope hrow hscope hstate
      rw [hopen] at this
      cases this
    | cancelled =>
      have := hbrac.cancelled key row scope hrow hscope hstate
      rw [hopen] at this
      cases this
  · rw [hof.inverse]
    exact inverseTool_isSome hof.isTry (hfroz.companions v hmem)

theorem resolves_of_request {pc : Pc} {request : CancelRequest} (h : pc.request? = some request) :
    pc.resolves = none := by
  cases pc with
  | requests | expired => rfl
  | _ => cases h

section Step

variable {world' : World} {a : Action} {w : WorkerId} {scope' : ScopeRow} (h : Reachable cfg world)
  (hchanges : Changes cfg world a world' w) (hscope : world.db.scopes.lookup s = some scope)

include h hchanges hscope

/-- Behind a cancellation no bracket is sealed any more: what succeeded is sealed already. -/
theorem Undone.bracket_old (hund : Undone world)
    (hstate : scope.state = .cancelling ∨ scope.state = .cancelled) {key : String}
    {row' : BracketRow} (hrow' : world'.db.brackets.lookup key = some row')
    (hs : row'.scopeId = s) :
    ∃ row, world.db.brackets.lookup key = some row ∧ row.scopeId = s ∧
      row.tryVertexId = row'.tryVertexId ∧ (row'.state = .sealed → row.state = .sealed) := by
  have hfroz := frozen_of_reachable h
  have hscop := scoped_of_reachable h
  rcases hchanges.bracket_cases hscop hrow' with ⟨row, hrow, state, rfl, hcas⟩ |
    ⟨hnone, item, result, deadline, t, hpc, ht, htry, hkey, -, rfl⟩
  · refine ⟨row, hrow, hs, rfl, fun hseal => ?_⟩
    rcases hcas with rfl | ⟨rfl, -⟩ | ⟨rfl, -⟩
    · exact hseal
    · cases hseal
    · cases hseal
  · -- a late seal: its vertex has a bracket, which holds the key
    obtain rfl : t = s := hs
    have hitem := hfroz.held w item (by rw [hpc]; rfl)
    have hreq := hscop.mem_required hfroz hscope hitem ht (by simpa [WorkItem.vertex] using htry)
    obtain ⟨key', row, hrow, hv⟩ := hund.bracketed t scope hscope hstate _ hreq
      ((dispatched_of_reachable h).tried hpc ht)
    obtain ⟨v, hmem, hof⟩ := (bracketed_of_reachable h).owner key' row hrow
    obtain rfl := hfroz.eq_of_vertexId hmem hitem (hof.vertex.symm.trans hv)
    rw [← hof.key] at hrow
    rw [← hkey, tool_txn] at hnone
    cases hnone.symm.trans hrow

/-- Behind a cancellation nothing is kept but what was there. -/
theorem Undone.kept_step (hund : Undone world)
    (hchan : RowChange world world' w s scope scope')
    (hstate : scope.state = .cancelling ∨ scope.state = .cancelled) :
    world'.db.TriesListed s scope' := by
  refine ⟨fun v hv htried => ?_, fun key row' hrow' hs => ?_⟩
  · rcases htried.of_step hchanges with hold | ⟨id, row, hrow, hcall, hs, hopen, -⟩
    · obtain ⟨key, row, hrow, hrowv⟩ :=
        hund.bracketed s scope hscope hstate v (hchan.required ▸ hv) hold
      obtain ⟨_, hrow', -⟩ := hchanges.bracket_some (scoped_of_reachable h) hrow
      exact ⟨key, _, hrow', hrowv⟩
    · have hset := (evidence_of_reachable h).settled id row s scope hrow hs hscope hstate
        (by rw [hcall]; rfl)
      simp [hopen] at hset
  · obtain ⟨row, hrow, hrows, hrowv, -⟩ :=
      hund.bracket_old h hchanges hscope hstate hrow' hs
    obtain ⟨_, hmem⟩ := Option.isSome_iff_exists.mp
      (hund.member s scope hscope hstate key row hrow hrows)
    obtain ⟨_, hmem', -⟩ := hchanges.member_some hmem
    rw [hchan.run, ← hrowv, hmem']
    rfl

/-- The decision on a cancellation finds every succeeded try sealed, and lists it. -/
theorem decided_step (hchan : RowChange world world' w s scope scope')
    (hopen : scope.state = .opened) {request : CancelRequest}
    (hpc : (world.workers w).request? = some request)
    (hseal : sealedTries world.db s = true)
    (hlis : ∀ k bracket, (k, bracket) ∈ undoable world.db scope.runId s →
      (world'.db.members.lookup ⟨scope.runId, s, bracket.tryVertexId⟩).isSome) :
    world'.db.TriesListed s scope' := by
  have hscop := scoped_of_reachable h
  refine ⟨fun v hv htried => ?_, fun key row' hrow' hs => ?_⟩
  · rcases htried.of_step hchanges with hold | ⟨_, _, _, _, _, _, hsome⟩
    · obtain ⟨key, row, hrow, hrowv⟩ :=
        bracket_of_sealedTries hseal hscope (hchan.required ▸ hv) hold
      obtain ⟨state, hrow', -⟩ := hchanges.bracket_some hscop hrow
      exact ⟨key, _, hrow', hrowv⟩
    · simp [resolves_of_request hpc] at hsome
  · rcases hchanges.bracket_cases hscop hrow' with ⟨row, hrow, state, rfl, -⟩ |
      ⟨-, item, result, deadline, t, hpc', -⟩
    · rw [hchan.run]
      exact hlis key row (undoable_of_open h hscope hopen hrow hs)
    · rw [hpc'] at hpc
      cases hpc

omit hscope in
/-- **Tries behind a cancellation** are kept by every step that meets the condition. -/
theorem Undone.step (hund : Undone world) (h' : Reachable cfg world')
    (hall : triesSealed world a = true) : Undone world' := by
  have hbeh : ∀ s scope', world'.db.scopes.lookup s = some scope' →
      scope'.state = .cancelling ∨ scope'.state = .cancelled →
      world'.db.TriesListed s scope' := by
    intro s scope' hscope' hstate'
    rcases (hchanges.scope s).origin hscope' with ⟨hopen, -⟩ | ⟨scope, hscope, hchan⟩
    · simp [hopen] at hstate'
    rcases hchan.move.decided hstate' with hstate | ⟨hopen, hcan, hlease,
      ⟨request, hpc, rfl, hrun⟩, hlis⟩
    · exact hund.kept_step h hchanges hscope hchan hstate
    -- the decision is a transaction of this worker, which the condition speaks of
    have hadv : a = .advance w := by
      refine hchanges.action.resolve_right fun ⟨_, _, _, hstat⟩ => ?_
      have hsame := hstat request.scopeId
      rw [hscope, hscope', Option.map_some, Option.map_some, hopen, hcan] at hsame
      cases hsame
    subst hadv
    simp only [triesSealed, hpc, hrun, hlease, Bool.false_or] at hall
    exact decided_step h hchanges hscope hchan hopen hpc hall hlis
  refine ⟨fun s scope' hscope' hstate' => (hbeh s scope' hscope' hstate').1,
    fun s scope' hscope' hstate' => (hbeh s scope' hscope' hstate').2,
    fun s scope' hscope' hstate' key row' hrow' hs hseal => ?_⟩
  rcases (hchanges.scope s).origin hscope' with ⟨hopen, -⟩ | ⟨scope, hscope, hchan⟩
  · simp [hopen] at hstate'
  cases hchan.move with
  | kept hstate =>
    obtain ⟨row, hrow, hrows, -, hrowsealed⟩ :=
      hund.bracket_old h hchanges hscope (.inr (hstate ▸ hstate')) hrow' hs
    exact hund.unsealed s scope hscope (hstate ▸ hstate') key row hrow hrows (hrowsealed hseal)
  | cancelCompleted _ hstate _ _ hbrac =>
    subst hs
    have hrun := (bracketed_of_reachable h').run_eq (frozen_of_reachable h')
      (scoped_of_reachable h') hrow' hscope'
    exact hbrac key row' hrow' (hrun.symm.trans hchan.run) rfl hseal
  | _ => simp_all

end Step

/-- **Tries behind a cancellation, in every world that is reached under the condition.** -/
theorem undone_of_reachable
    (h : ReachableUnder cfg (fun world a => triesSealed world a = true) world) : Undone world := by
  refine invariant_of_changes h (by constructor <;> simp [World.initial]) ?_
  intro mid mid' a w hmid hmid' hall _ hchanges hund
  exact hund.step hmid hchanges hmid' hall

/-! ### No lost compensation -/

/-- The call attempt of a vertex that succeeded, in the vertex's scope. -/
theorem tried_of_attempt (h : Reachable cfg world) {id : ℕ} {row : AttemptRow}
    (hrow : world.db.attempts.lookup id = some row) (hcall : row.operation = .call)
    (hout : row.outcome = some .succeeded) {v : CreatedVertex} (hv : v ∈ world.db.vertices)
    (hver : row.vertexId = v.vertexId) (hs : v.scopeId = some s) :
    world.db.Tried s v.vertexId := by
  obtain ⟨v', hv', hof⟩ := called_of_reachable h id row hrow hcall
  obtain rfl := (frozen_of_reachable h).eq_of_vertexId hv' hv (hof.vertex.symm.trans hver)
  exact ⟨id, row, hrow, hcall, hof.scope.trans hs, hver, hout⟩

/-- The member of a try that succeeded in a cancelled scope is completed. -/
theorem Undone.completed (hund : Undone world) (h : Reachable cfg world)
    (hscope : world.db.scopes.lookup s = some scope) (hstate : scope.state = .cancelled)
    {v : CreatedVertex} (hv : v ∈ world.db.vertices) (hs : v.scopeId = some s)
    (htry : v.payload.mode.isTry = true) (htried : world.db.Tried s v.vertexId) :
    ∃ member, world.db.members.lookup ⟨v.runId, s, v.vertexId⟩ = some member ∧
      member.completed = true := by
  have hfroz := frozen_of_reachable h
  have hscop := scoped_of_reachable h
  have hbrac := bracketed_of_reachable h
  obtain ⟨key, row, hrow, hver⟩ := hund.bracketed s scope hscope (.inr hstate) _
    (hscop.mem_required hfroz hscope hv hs htry) htried
  obtain ⟨v', hv', hof⟩ := hbrac.owner key row hrow
  obtain rfl := hfroz.eq_of_vertexId hv' hv (hof.vertex.symm.trans hver)
  obtain rfl : row.scopeId = s := Option.mem_unique hof.scope hs
  obtain ⟨member, hmem⟩ := Option.isSome_iff_exists.mp
    (hund.member _ scope hscope (.inr hstate) key row hrow rfl)
  rw [hbrac.run_eq hfroz hscop hrow hscope, hof.run, hver] at hmem
  exact ⟨member, hmem, (membered_of_reachable h).completed _ member scope hmem hscope hstate⟩

/-- **No lost compensation.** In every run whose steps all meet `triesSealed`, whenever a
scope is cancelled none of its brackets is sealed, and every try of the scope whose call
succeeded has a completed cancel member. -/
theorem no_lost_compensation {cfg : Config} {world : World}
    (h : ReachableUnder cfg (fun world a => triesSealed world a = true) world) {s : ScopeId}
    {scope : ScopeRow} (hscope : world.db.scopes.lookup s = some scope)
    (hstate : scope.state = .cancelled) :
    (∀ key row, world.db.brackets.lookup key = some row → row.scopeId = s → row.state ≠ .sealed) ∧
    ∀ v ∈ world.db.vertices, v.scopeId = some s → v.payload.mode.isTry = true → ∀ id row,
      world.db.attempts.lookup id = some row → row.operation = .call → row.vertexId = v.vertexId →
      row.outcome = some .succeeded →
      ∃ member, world.db.members.lookup ⟨v.runId, s, v.vertexId⟩ = some member ∧
        member.completed = true := by
  have hund := undone_of_reachable h
  refine ⟨hund.unsealed s scope hscope hstate, fun v hv hs htry id row hrow hcall hver hout => ?_⟩
  exact hund.completed h.any hscope hstate hv hs htry
    (tried_of_attempt h.any hrow hcall hout hv hver hs)

/-- A try succeeds, and its scope is cancelled. -/
def undoneTry : List Action :=
  cancelledTry ++ drive 1 2 ++ [reply 1 .succeeded] ++ drive 1 4

/-- The cancelled scope of a run that meets the condition. -/
theorem no_lost_compensation_undoneTry :
    ∃ scope, (World.afterUnder {} triesSealed undoneTry).db.scopes.lookup 5 = some scope ∧
      scope.state = .cancelled ∧ ∀ key row,
        (World.afterUnder {} triesSealed undoneTry).db.brackets.lookup key = some row →
        row.scopeId = 5 → row.state ≠ .sealed := by
  have hstate : ((World.afterUnder {} triesSealed undoneTry).db.scopes.lookup 5).map
      ScopeRow.state = some .cancelled := by decide +kernel
  obtain ⟨scope, hscope, hcan⟩ := Option.map_eq_some_iff.mp hstate
  exact ⟨scope, hscope, hcan,
    (no_lost_compensation (reachable_afterUnder (by decide +kernel)) hscope hcan).1⟩

/-- A worker resolves the evidence of a successful try, and its lease runs out before it
seals the try. Meanwhile another try of the scope fails and the scope is cancelled. -/
def lateTry : List Action :=
  [.createRun 1, .freeze 1 [tccVertex 10 [] 5 "a", tccVertex 11 [] 5 "b"]] ++ callNext 1 ++
    [reply 1 .succeeded] ++ drive 1 1 ++ callNext 2 ++ [reply 2 .permanentFailure] ++ drive 2 3 ++
    [.tick 31000, requestCancel 1 5, .poll 2] ++ drive 2 3

/-- **A try survives the cancellation of its scope**: it is sealed behind it, and nothing
undoes it. -/
theorem late_try_survives_cancellation :
    ∃ world, Reachable {} world ∧
      (world.db.scopes.lookup 5).map ScopeRow.state = some .cancelled ∧
      (world.db.brackets.lookup "a").map (fun row => (row.scopeId, row.tryVertexId, row.state)) =
        some (5, 10, .sealed) ∧
      (world.db.attempts.lookup 1).map (fun row => (row.operation, row.vertexId, row.outcome)) =
        some (.call, 10, some .succeeded) ∧
      (world.db.members.lookup ⟨1, 5, 10⟩).isNone = true :=
  ⟨World.after {} (lateTry ++ drive 1 1), reachable_after (by decide +kernel), by decide +kernel,
    by decide +kernel, by decide +kernel, by decide +kernel⟩

end Flory
