import Flory.Brackets

/-!
# Cancel Members and Closed Scopes

A cancellation lists one member for each bracket it has to undo, and completes when all of
them are. Workers run inverses concurrently, and a worker whose lease on a member ran out
keeps running: when its inverse fails late it still writes `suspended`, whatever the scope
became meanwhile. So `committed` is final, and `cancelled` is final in the runs in which a
worker suspends a scope only while its own member is not completed.

## Main results

* `membered_of_reachable`: the members of a cancelled scope are completed, and no completed
  member is claimed.
* `closed_scope_stays_closed`: committed and cancelled are final, under that condition.
* `scope_lifecycle`: the states of a scope follow one table.
* `late_inverse_suspends_cancelled`: without it, a late failed inverse suspends a cancelled
  scope.
-/

namespace Flory

variable {s : ScopeId} {key : MemberKey} {row : MemberRow} {world : World}

/-! ### Members and their scopes -/

/-- **Members and scopes.** A member belongs to a scope on the side of cancellation, of the
same run. Once the scope is cancelled it is completed, and a completed member is not
claimed. -/
structure Membered (world : World) : Prop where
  scope : ∀ key row, world.db.members.lookup key = some row →
    ∃ scope, world.db.scopes.lookup key.scopeId = some scope ∧ scope.runId = key.runId ∧
      scope.state.isCancelSide = true
  completed : ∀ key row scope, world.db.members.lookup key = some row →
    world.db.scopes.lookup key.scopeId = some scope → scope.state = .cancelled →
    row.completed = true
  unclaimed : ∀ key row, world.db.members.lookup key = some row → row.completed = true →
    row.claimedBy = none

/-- A scope in which no member is incomplete. -/
theorem completed_of_incompleteMember {db : Db} {runId : RunId}
    (h : incompleteMember db runId s = false) (hrow : db.members.lookup key = some row)
    (hrun : key.runId = runId) (hs : key.scopeId = s) : row.completed = true := by
  have hrow := Table.anyRow_eq_false_iff.mp h key row hrow
  simpa [hrun, hs] using hrow

/-- A cancelled scope was cancelled before, or completes its cancellation now. -/
theorem StateMove.cancelled {world' : World} {w : WorkerId} {scope scope' : ScopeRow}
    (hmove : StateMove world world' w s scope scope') (hstate' : scope'.state = .cancelled) :
    scope.state = .cancelled ∨ incompleteMember world.db scope.runId s = false := by
  cases hmove with
  | kept hstate => exact .inl (hstate ▸ hstate')
  | cancelCompleted _ _ _ hmem => exact .inr hmem
  | _ => simp_all

section Step

variable {cfg : Config} {world world' : World} {a : Action} {w : WorkerId}
  (hchanges : Changes cfg world a world' w)

include hchanges

/-- A member once listed stays listed. -/
theorem Changes.member_some (hrow : world.db.members.lookup key = some row) :
    ∃ row', world'.db.members.lookup key = some row' ∧
      (row.completed = true → row'.completed = true) := by
  have hstep := hchanges.member key
  rw [hrow] at hstep
  generalize hnew : world'.db.members.lookup key = new at hstep
  cases hstep with
  | kept => exact ⟨row, rfl, id⟩
  | claimed => exact ⟨_, rfl, id⟩
  | completed => exact ⟨_, rfl, fun _ => rfl⟩

/-- The scope of a member that was listed before a step. -/
theorem Membered.scope_step (hmem : Membered world)
    (hrow : world.db.members.lookup key = some row) :
    ∃ scope', world'.db.scopes.lookup key.scopeId = some scope' ∧ scope'.runId = key.runId ∧
      scope'.state.isCancelSide = true ∧
      (scope'.state = .cancelled → row.completed = true) := by
  obtain ⟨scope, hscope, hrun, hside⟩ := hmem.scope key row hrow
  obtain ⟨scope', hscope', hchan⟩ := (hchanges.scope _).row hscope
  refine ⟨scope', hscope', hchan.run.trans hrun, hchan.move.isCancelSide hside, fun hstate' => ?_⟩
  rcases hchan.move.cancelled hstate' with hstate | hmemb
  · exact hmem.completed key row scope hrow hscope hstate
  · exact completed_of_incompleteMember hmemb hrow hrun.symm rfl

/-- Members and scopes, for one member after a step. -/
theorem Membered.member_step (hmemb : Membered world) {row' : MemberRow}
    (hrow' : world'.db.members.lookup key = some row') :
    (∃ scope', world'.db.scopes.lookup key.scopeId = some scope' ∧ scope'.runId = key.runId ∧
      scope'.state.isCancelSide = true ∧ (scope'.state = .cancelled → row'.completed = true)) ∧
    (row'.completed = true → row'.claimedBy = none) := by
  have hstep := hchanges.member key
  rw [hrow'] at hstep
  generalize hold : world.db.members.lookup key = old at hstep
  cases hstep with
  | kept => exact ⟨hmemb.scope_step hchanges hold, hmemb.unclaimed key row' hold⟩
  | listed hpc hscope hopen hlease hscope' hcan hrun hundo htool hkey =>
    rename_i request k bracket tool scope scope'
    subst hkey
    exact ⟨⟨scope', hscope', hrun, by rw [hcan]; rfl, by simp [hcan]⟩, by simp [memberRow]⟩
  | claimed hpc hclaim =>
    rename_i c row rest
    have hmem : (key, row) ∈ claimableMembers world.db c.runId c.scopeId := by simp [hclaim]
    have hopen := (mem_claimableMembers.mp hmem).2.2.2.1
    obtain ⟨scope', hscope', hrun, hside, hcom⟩ := hmemb.scope_step hchanges hold
    exact ⟨⟨scope', hscope', hrun, hside, hcom⟩, by simp [MemberRow.claim, hopen]⟩
  | completed =>
    obtain ⟨scope', hscope', hrun, hside, -⟩ := hmemb.scope_step hchanges hold
    exact ⟨⟨scope', hscope', hrun, hside, fun _ => rfl⟩, fun _ => rfl⟩

/-- **Members and scopes** are kept by every step. -/
theorem Membered.step (hmem : Membered world) : Membered world' := by
  refine ⟨fun key row' hrow' => ?_, fun key row' scope' hrow' hscope' => ?_,
    fun key row' hrow' => (hmem.member_step hchanges hrow').2⟩
  · obtain ⟨⟨scope', hscope', hrun, hside, -⟩, -⟩ := hmem.member_step hchanges hrow'
    exact ⟨scope', hscope', hrun, hside⟩
  obtain ⟨⟨_, hscope, -, -, hcom⟩, -⟩ := hmem.member_step hchanges hrow'
  obtain rfl := Option.mem_unique hscope hscope'
  exact hcom

end Step

/-- **Members and scopes, in every reachable world.** -/
theorem membered_of_reachable {cfg : Config} (h : Reachable cfg world) : Membered world :=
  invariant_of_changes h (by constructor <;> simp [World.initial])
    fun _ _ _ _ hchanges hmem => hmem.step hchanges

/-! ### Closed scopes -/

/-- The condition under which closed scopes stay closed: a worker appends the suspension
after a failed inverse only while the member it failed to undo is not completed. -/
def suspendsOwnMember (world : World) : Action → Bool
  | .advance w =>
    match world.workers w with
    | .suspendCancel c member =>
      (world.db.members.lookup ⟨c.runId, c.scopeId, member.vertexId⟩).any (!·.completed)
    | _ => true
  | _ => true

/-- A closed scope does not change its state in one step that meets the condition. -/
theorem closed_step {cfg : Config} {world' : World} {a : Action} (h : Reachable cfg world)
    (hall : suspendsOwnMember world a = true) (hstep : step cfg world a = some world')
    {scope : ScopeRow} (hscope : world.db.scopes.lookup s = some scope)
    (hclos : scope.state = .cancelled ∨ scope.state = .committed) :
    ∃ scope', world'.db.scopes.lookup s = some scope' ∧ scope'.state = scope.state := by
  obtain ⟨w, hchanges⟩ := changes_of_step h hstep
  obtain ⟨scope', hscope', hchan⟩ := (hchanges.scope s).row hscope
  refine ⟨scope', hscope', ?_⟩
  cases hchan.move with
  | kept hstate => exact hstate
  | suspendedCancel hpc hs hrun hside hstate' =>
    rename_i c member
    subst hs
    have hcan : scope.state = .cancelled := hclos.resolve_right fun hstate => by
      rw [hstate] at hside
      cases hside
    -- the suspension is an append of this worker, whose member is completed by now
    have hadv : a = .advance w := by
      refine hchanges.action.resolve_right fun ⟨_, _, _, hstat⟩ => ?_
      have hsame := hstat c.scopeId
      rw [hscope, hscope', Option.map_some, Option.map_some, hstate', hcan] at hsame
      cases hsame
    subst hadv
    simp only [suspendsOwnMember, hpc, Option.any_eq_true] at hall
    obtain ⟨row, hrow, hopen⟩ := hall
    have hcom := (membered_of_reachable h).completed _ row scope hrow hscope hcan
    rw [hcom] at hopen
    cases hopen
  | abandoned _ _ hstate => rcases hclos with hclos | hclos <;> simp [hclos] at hstate
  | _ => simp_all

/-- **Closed scopes stay closed.** In every run whose steps all meet `suspendsOwnMember`, a
scope that is cancelled or committed never changes its state again. -/
theorem closed_scope_stays_closed {cfg : Config} {world world' : World} {s : ScopeId}
    {scope : ScopeRow}
    (h : ReachableUnder cfg (fun world a => suspendsOwnMember world a = true) world)
    (hscope : world.db.scopes.lookup s = some scope)
    (hclosed : scope.state = .cancelled ∨ scope.state = .committed)
    (hlater : Transition.Reachable (step cfg) (fun world a => suspendsOwnMember world a = true)
      world world') :
    ∃ scope', world'.db.scopes.lookup s = some scope' ∧ scope'.state = scope.state := by
  induction hlater with
  | refl => exact ⟨scope, hscope, rfl⟩
  | tail hmid hall hstep ih =>
    obtain ⟨scope', hscope', hstate'⟩ := ih
    obtain ⟨scope'', hscope'', hstate''⟩ :=
      closed_step (h.trans hmid).any hall hstep hscope' (hstate' ▸ hclosed)
    exact ⟨scope'', hscope'', hstate''.trans hstate'⟩

/-- One worker's inverse outlives its lease, and another worker completes the cancellation
meanwhile. -/
def lateInverse : List Action :=
  cancelledTry ++ drive 1 2 ++ [.tick 31000, .sweep 2 []] ++ drive 2 4 ++ [reply 2 .succeeded] ++
    drive 2 4

/-- The cancelled scope of a run that meets the condition. -/
theorem closed_scope_stays_closed_lateInverse :
    ∃ scope, (World.afterUnder {} suspendsOwnMember lateInverse).db.scopes.lookup 5 = some scope ∧
      scope.state = .cancelled ∧ ∀ world',
        Transition.Reachable (step {}) (fun world a => suspendsOwnMember world a = true)
          (World.afterUnder {} suspendsOwnMember lateInverse) world' →
        ∃ scope', world'.db.scopes.lookup 5 = some scope' ∧ scope'.state = scope.state := by
  have hstate : ((World.afterUnder {} suspendsOwnMember lateInverse).db.scopes.lookup 5).map
      ScopeRow.state = some .cancelled := by decide +kernel
  obtain ⟨scope, hscope, hcan⟩ := Option.map_eq_some_iff.mp hstate
  exact ⟨scope, hscope, hcan, fun world' hlater =>
    closed_scope_stays_closed (reachable_afterUnder (by decide +kernel)) hscope (.inl hcan)
      hlater⟩

/-- **A late failed inverse suspends a cancelled scope**: the unguarded append of a worker
whose member another worker completed. -/
theorem late_inverse_suspends_cancelled :
    ∃ world world', Reachable {} world ∧
      Transition.Reachable (step {}) Transition.anyStep world world' ∧
      (world.db.scopes.lookup 5).map ScopeRow.state = some .cancelled ∧
      (world'.db.scopes.lookup 5).map ScopeRow.state = some .suspended :=
  ⟨World.after {} lateInverse,
    (World.after {} lateInverse).play {} (reply 1 .permanentFailure :: drive 1 2),
    reachable_after (by decide +kernel), reachable_play (by decide +kernel), by decide +kernel,
    by decide +kernel⟩

/-- The states that a scope moves to. -/
def ScopeState.next : ScopeState → List ScopeState
  | .opened => [.pivotInflight, .cancelling, .suspended]
  | .pivotInflight => [.pivotPassed, .opened, .suspended]
  | .pivotPassed => [.committed, .suspended]
  | .cancelling => [.cancelled, .suspended]
  | .cancelled | .suspended => [.suspended]
  | .committed => []

/-- **The life of a scope.** Along every run a scope keeps its row, its run and its required
tries, and its state moves along `ScopeState.next`. -/
theorem scope_lifecycle {cfg : Config} {world' : World} {scope : ScopeRow} (h : Reachable cfg world)
    (hscope : world.db.scopes.lookup s = some scope)
    (hlater : Transition.Reachable (step cfg) Transition.anyStep world world') :
    ∃ scope', world'.db.scopes.lookup s = some scope' ∧ scope'.runId = scope.runId ∧
      scope'.requiredTryVertices = scope.requiredTryVertices ∧
      Relation.ReflTransGen (fun one other => other ∈ one.next) scope.state scope'.state := by
  induction hlater with
  | refl => exact ⟨scope, hscope, rfl, rfl, .refl⟩
  | tail hmid _ hstep ih =>
    obtain ⟨mid, hscope, hrun, hreq, hpath⟩ := ih
    obtain ⟨w, hchan⟩ := changes_of_step (h.trans hmid) hstep
    obtain ⟨scope', hscope', hrow⟩ := (hchan.scope s).row hscope
    refine ⟨scope', hscope', hrow.run.trans hrun, hrow.required.trans hreq, ?_⟩
    cases hrow.move with
    | kept hstate => rwa [hstate]
    | _ =>
      refine hpath.tail ?_
      cases hold : mid.state <;> simp_all [ScopeState.next, ScopeState.isCancelSide]

/-- The cancelled scope that is suspended late. -/
theorem scope_lifecycle_lateInverse : ∃ scope', ((World.after {} lateInverse).play {}
      (reply 1 .permanentFailure :: drive 1 2)).db.scopes.lookup 5 = some scope' ∧
    Relation.ReflTransGen (fun one other => other ∈ one.next) .cancelled scope'.state :=
  have h : Reachable {} (World.after {} lateInverse) := reachable_after (by decide +kernel)
  have hscope := (Option.some_get (by decide +kernel)).symm
  have ⟨scope', hscope', _, _, hpath⟩ := scope_lifecycle h hscope (reachable_play (by decide +kernel))
  ⟨scope', hscope', hpath⟩

end Flory
