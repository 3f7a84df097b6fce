import Flory.Attempts

/-!
# The Fence

A scope is fenced by the failure of one of its members, by an Engine request, or by a pivot
that is confirmed absent. From then on it can only be cancelled or suspended: its fence is
never lowered, no member of it is handed out again, and its pivot is never admitted.

`claim_ready_work` reads its candidates without a lock and decides about each of them later,
under the lock of its scope. The claim is therefore also followed with candidates from any
earlier database.

## Main results

* `Db.Fenced`: a scope behind its fence, with the states that are left to it.
* `fenced_later`: the fence is kept along every run.
* `Db.Fenced.not_claimed`, `Db.Fenced.not_admitted`: what a fenced scope refuses.
* `fence_one_way`: the three together.
-/

namespace Flory

variable {world : World} {s : ScopeId} {world' : World} {row : ScopeRow} {cfg : Config}

/-- The states of a scope that is never to pass its pivot. -/
def ScopeState.isFencedState : ScopeState → Bool
  | .opened | .cancelling | .cancelled | .suspended => true
  | _ => false

theorem isFencedState_iff {state : ScopeState} :
    state.isFencedState = true ↔ state ∈ [.opened, .cancelling, .cancelled, .suspended] := by
  cases state <;> decide

/-- A scope with its fence up, in one of the states that are left to it. -/
def Db.Fenced (db : Db) (s : ScopeId) : Prop :=
  ∃ row, db.scopes.lookup s = some row ∧ row.fencedAt.isSome ∧ row.state.isFencedState = true

/-! ### The fence is kept -/

/-- A fenced row stays fenced, and no move takes it to its pivot. -/
theorem RowChange.isFencedState {w : WorkerId} {row' : ScopeRow}
    (h : RowChange world world' w s row row') (hfen : row.fencedAt.isSome)
    (hstate : row.state.isFencedState = true) : row'.state.isFencedState = true := by
  cases h.move with
  | kept hkept => rwa [hkept]
  | admitted _ _ _ hnone =>
    rw [hnone] at hfen
    cases hfen
  | passed _ _ hold | committed _ _ hold => rw [hold] at hstate; cases hstate
  | reopened _ _ _ hnew | abandoned _ _ _ hnew | suspendedOpen _ hnew
  | requested _ _ _ _ _ _ hnew | suspendedCancel _ _ _ _ hnew | cancelCompleted _ _ hnew =>
    rw [hnew]; rfl

/-- A fenced scope stays fenced in a step. -/
theorem fenced_step {a : Action} (hreach : Reachable cfg world) (h : world.db.Fenced s)
    (hstep : step cfg world a = some world') : world'.db.Fenced s := by
  obtain ⟨_, hrow, hfen, hstate⟩ := h
  obtain ⟨w, hchan⟩ := scope_change hreach hstep s
  obtain ⟨row', hrow', hrowC⟩ := hchan.row hrow
  exact ⟨row', hrow', hrowC.fence hfen, hrowC.isFencedState hfen hstate⟩

/-- **The fence is kept** along every run. -/
theorem fenced_later (hreach : Reachable cfg world) (h : world.db.Fenced s)
    (hlat : Transition.Reachable (step cfg) Transition.anyStep world world') :
    world'.db.Fenced s := by
  induction hlat with
  | refl => exact h
  | tail hmid _ hstep ih => exact fenced_step (hreach.trans hmid) ih hstep

/-! ### What a fenced scope refuses -/

/-- The claim state of a scope behind its fence hands out nothing. -/
theorem not_claimAdmissible_of_fenced (hfen : row.fencedAt.isSome)
    (hstate : row.state.isFencedState = true) (payload : VertexPayload) :
    floryClaimAdmissible (some (floryScopeClaimState row)) payload = false := by
  unfold floryScopeClaimState
  split
  · rfl
  rename_i hopen
  cases hrow : row.state with
  | opened => exact absurd ⟨hrow, hfen⟩ hopen
  | cancelling | cancelled | suspended => rfl
  | pivotInflight | pivotPassed | committed =>
    rw [hrow] at hstate
    cases hstate

/-- Along a run no vertex is lost. -/
theorem vertices_later (hlat : Transition.Reachable (step cfg) Transition.anyStep world world')
    {v : CreatedVertex} (hv : v ∈ world.db.vertices) : v ∈ world'.db.vertices := by
  induction hlat with
  | refl => exact hv
  | tail _ _ hstep ih => exact vertices_mono hstep ih

/-- The scope row a queued vertex belongs to is one of the vertex's run. -/
theorem scopeOf_of_vertex (hscop : Scoped world) (hfroz : Frozen world) {v : CreatedVertex}
    (hv : v ∈ world.db.vertices) (hs : v.scopeId = some s)
    (hrow : world.db.scopes.lookup s = some row) : world.db.scopeOf v.runId s = some row := by
  obtain ⟨u, hu, hus, hrun⟩ := hscop.member s row hrow
  rw [Db.scopeOf_eq_some_iff]
  exact ⟨hrow, hrun ▸ hfroz.scopes u hu v hv s hus hs⟩

/-- The decision about a candidate that was read from an earlier database never leases a
vertex of a fenced scope. -/
theorem Db.Fenced.not_claimed {snapshot : World} (h : world.db.Fenced s)
    (hreach : Reachable cfg snapshot)
    (hlat : Transition.Reachable (step cfg) Transition.anyStep snapshot world) {v : VertexId}
    {candidate : QueueRow} (hcand : (v, candidate) ∈ claimCandidates snapshot.db)
    {worker : WorkerId} {leaseMs : ℕ} {item : WorkItem} {db' : Db}
    (hclaim : claimCandidate world.db worker leaseMs v candidate = some (item, db')) :
    item.scopeId ≠ some s := by
  intro hs
  obtain ⟨row, hrow, hfen, hstate⟩ := h
  have hfroz := frozen_of_reachable (hreach.trans hlat)
  have hqueued := (frozen_of_reachable hreach).queued v candidate
    (Table.mem_rowsWhere.mp (List.mem_insertionSort _ |>.mp (List.mem_of_mem_take hcand))).1
  unfold claimCandidate at hclaim
  split at hclaim
  · rename_i hadm
    split at hclaim
    · rename_i current hcur
      split at hclaim
      · obtain rfl : item = (current.claim worker (world.db.now + leaseMs)).item v :=
          (congrArg Prod.fst (Option.some.inj hclaim)).symm
        -- The vertex was frozen once, so the candidate and the row leased now agree on it.
        have hsame := hfroz.eq_of_vertexId (hfroz.queued v current hcur)
          (vertices_later hlat hqueued) rfl
        have hcan : candidate.scopeId = some s :=
          (congrArg CreatedVertex.scopeId hsame).symm.trans hs
        have hscop := scopeOf_of_vertex (scoped_of_reachable (hreach.trans hlat)) hfroz
          (vertices_later hlat hqueued) hcan hrow
        have hscop : world.db.scopeOf candidate.runId s = some row := hscop
        rw [hcan, Option.bind_some, hscop, Option.map_some,
          not_claimAdmissible_of_fenced hfen hstate] at hadm
        cases hadm
      · cases hclaim
    · cases hclaim
  · cases hclaim

/-- A fenced scope does not admit its pivot. -/
theorem Db.Fenced.not_admitted {db : Db} (h : db.Fenced s) (runId : RunId) (v : VertexId)
    (db' : Db) : admitPivot db runId s v ≠ .ok (true, db') := by
  obtain ⟨_, hrow, hfen, -⟩ := h
  intro hadm
  rcases admitPivot_ok hadm with ⟨hfal, -⟩ | ⟨-, row', hrow', -, hnone, -⟩
  · cases hfal
  obtain rfl := Option.some.inj (hrow.symm.trans (Db.scopeOf_eq_some_iff.mp hrow').1)
  rw [hnone] at hfen
  cases hfen

/-! ### The one-way fence -/

/-- **The fence is one-way.** In every continuation of a run from a world in which an open
scope is fenced, the scope is open, cancelling, cancelled or suspended, its fence is up, no
claim leases a vertex of it, whichever earlier database its candidates were read from, and
its pivot is not admitted. -/
theorem fence_one_way {cfg : Config} {world world' : World} (h : Reachable cfg world) {s : ScopeId}
    {row : ScopeRow} (hrow : world.db.scopes.lookup s = some row) (hopen : row.state = .opened)
    (hfence : row.fencedAt.isSome)
    (hlater : Transition.Reachable (step cfg) Transition.anyStep world world') :
    (∃ row', world'.db.scopes.lookup s = some row' ∧ row'.fencedAt.isSome ∧
      row'.state ∈ [.opened, .cancelling, .cancelled, .suspended]) ∧
    (∀ worker leaseMs item db', claimReadyWork world'.db worker leaseMs = some (item, db') →
      item.scopeId ≠ some s) ∧
    (∀ snapshot, Reachable cfg snapshot →
      Transition.Reachable (step cfg) Transition.anyStep snapshot world' →
      ∀ v candidate, (v, candidate) ∈ claimCandidates snapshot.db → ∀ worker leaseMs item db',
        claimCandidate world'.db worker leaseMs v candidate = some (item, db') →
        item.scopeId ≠ some s) ∧
    (∀ runId v db', admitPivot world'.db runId s v ≠ .ok (true, db')) := by
  have hfen : world'.db.Fenced s :=
    fenced_later h ⟨row, hrow, hfence, by rw [hopen]; rfl⟩ hlater
  refine ⟨?_, ?_, ?_, hfen.not_admitted⟩
  · obtain ⟨row', hrow', hfence', hstate'⟩ := hfen
    exact ⟨row', hrow', hfence', isFencedState_iff.mp hstate'⟩
  · intro worker leaseMs item db' hclaim
    obtain ⟨candidate, hcan, hdec⟩ := List.exists_of_findSome?_eq_some hclaim
    exact hfen.not_claimed (h.trans hlater) .refl hcan hdec
  · intro snapshot hsnap hear v candidate hcan worker leaseMs item db' hdec
    exact hfen.not_claimed hsnap hear hcan hdec

/-- One call of a scope fails while another member waits. -/
def failedCall : List Action :=
  [.createRun 1, .freeze 1 [tccVertex 10 [] 5 "a", pivotVertex 20 [] 5 "p"]] ++ callNext 1 ++
    [reply 1 .permanentFailure] ++ drive 1 2

/-- The scope of a failed call is fenced for good. -/
theorem fence_one_way_failedCall :
    ∃ row, (World.after {} failedCall).db.scopes.lookup 5 = some row ∧ row.state = .opened ∧
      row.fencedAt.isSome ∧ ∀ world', Transition.Reachable (step {}) Transition.anyStep
        (World.after {} failedCall) world' →
        ∀ runId v db', admitPivot world'.db runId 5 v ≠ .ok (true, db') := by
  have hstate : ((World.after {} failedCall).db.scopes.lookup 5).map
      (fun row => (row.state, row.fencedAt.isSome)) = some (.opened, true) := by decide +kernel
  obtain ⟨row, hrow, hopen⟩ := Option.map_eq_some_iff.mp hstate
  simp only [Prod.mk.injEq] at hopen
  exact ⟨row, hrow, hopen.1, hopen.2, fun world' hlater =>
    (fence_one_way (reachable_after (by decide +kernel)) hrow hopen.1 hopen.2 hlater).2.2.2⟩

end Flory
