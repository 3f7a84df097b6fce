import Flory.Members

/-!
# Workers and Their Evidence

An attempt row carries the worker that recorded it, and only that worker ever resolves it:
a worker waiting for an answer finds its row as it left it, whatever happened meanwhile. So
what a worker does next is backed by the evidence it left: a worker that is about to append
a success has a call that is resolved as succeeded, and a worker that is about to make
another attempt has a failed one before it.

## Main results

* `dispatched_of_reachable`: every worker's next move is backed by its evidence, in every
  reachable world.
* `called_of_reachable`: a call attempt carries the frozen tool and key of its vertex.
-/

namespace Flory

variable {w : WorkerId} {id : ℕ} {world : World}
  {result : Execution} {n : ℕ} {cfg : Config}

/-! ### Evidence behind a program point -/

/-- The attempt a worker waits for, as it recorded it. -/
def Db.Pending (db : Db) (w : WorkerId) (site : Site) (n id : ℕ) : Prop :=
  db.attempts.lookup id = some ((site.call.start n).row w)

/-- An attempt of a worker that has this outcome. -/
def Db.Settled (db : Db) (w : WorkerId) (site : Site) (n : ℕ) (outcome : AttemptOutcome) : Prop :=
  ∃ id, db.attempts.lookup id = some { (site.call.start n).row w with outcome := some outcome }

/-- **The evidence behind a worker's next move**: the row it waits for, the success it is
about to append, the failure it is about to follow up. -/
def Db.Backs (db : Db) (w : WorkerId) : Pc → Prop
  | .record site n => n = 1 ∨ db.Settled w site (n - 1) .retryableFailure
  | .calling site n id | .resolve site n id _ => db.Pending w site n id
  | .retry site n _ => db.Settled w site n .retryableFailure
  | .succeed item result _ => db.Settled w (.regular item) result.attempts .succeeded
  | .confirmed item bracket rest => ∃ n, db.Settled w (.confirm item bracket rest) n .succeeded
  | .completeMember c member => ∃ n, db.Settled w (.inverse c member) n .succeeded
  | _ => True

/-- The pivot attempt a status query is about. -/
def Site.pivotId : Site → Option ℕ
  | .status _ admitted => some admitted.attemptId
  | _ => none

/-- The pivot attempt a worker may still resolve. -/
def Pc.pivotId : Pc → Option ℕ
  | .record site _ | .calling site _ _ | .resolve site _ _ _ | .retry site _ _ => site.pivotId
  | .occurred _ result | .absent _ result _ => some result.attemptId
  | _ => none

variable {db : Db} {site : Site} {pc : Pc}

/-- A finished call is backed, when its success is. -/
theorem Finished.backs (h : Finished site result pc)
    (hset : result.response.outcome = .succeeded → db.Settled w site result.attempts .succeeded) :
    db.Backs w pc := by
  cases h with
  | succeed deadline h => exact hset h
  | query => exact .inl rfl
  | confirmed h | completeMember h => exact ⟨_, hset h⟩
  | _ => trivial

theorem Entered.backs (h : Entered site pc) : db.Backs w pc := by
  cases h with
  | record => exact .inl rfl
  | finished _ hne h => exact h.backs fun hsuc => absurd hsuc hne

theorem backs_confirmNext (db : Db) (w : WorkerId) (item : ScopedItem)
    (brackets : List SealedBracket) : db.Backs w (confirmNext item brackets) := by
  cases brackets with
  | nil => trivial
  | cons => exact entered_confirm.backs

/-- A call that finished with an unknown outcome, or goes on after a retryable failure. -/
theorem backs_afterAttempt {now : Time} {response : OperationResponse}
    (h : ∀ outcome, response.outcome.evidence = some outcome → db.Settled w site n outcome) :
    db.Backs w (afterAttempt now site n id response) := by
  rcases afterAttempt_cases now site n id response with hfin | ⟨hret, heq⟩
  · exact hfin.backs fun hsuc => h _ (by
      change response.outcome = .succeeded at hsuc
      rw [hsuc]; rfl)
  · rw [heq]
    exact h _ (by rw [hret]; rfl)

/-- Resolving a pending attempt settles it. -/
theorem settled_resolveAttempt (h : db.Pending w site n id) (outcome : AttemptOutcome) :
    (resolveAttempt db id outcome).Settled w site n outcome := by
  refine ⟨id, ?_⟩
  rw [resolveAttempt, Table.lookup_mapRows, h, Option.map_some, if_pos ⟨rfl, rfl⟩]

theorem Pc.Loose.backs (h : pc.Loose) : db.Backs w pc := by
  cases h <;> trivial

variable {work : WorkItem}

theorem Handed.backs (h : Handed work pc) : db.Backs w pc := by
  cases h <;> trivial

/-! ### A worker's own moves -/

section Own

variable {me : WorkerId} {db' : Db} {pc' : Pc}

/-- **A worker's own move keeps its evidence.** -/
theorem WorkerStep.backs (h : WorkerStep cfg me db pc db' pc') (hbac : db.Backs me pc) :
    db'.Backs me pc' := by
  cases h with
  | answered site n id response =>
    unfold Flory.answered
    split
    · exact hbac
    · rename_i hnone
      exact backs_afterAttempt (by simp [hnone])
  | duplicate hpc | stillSuspended hpc | ineligible hpc | deferred hpc | suspended hpc
  | requested hpc => exact (loose_request_next hpc).backs
  | claimed => exact handed_dispatch.backs
  | ensured | opened => exact handed_dispatchScoped.backs
  | started => exact entered_regular.backs
  | recorded hscope hlease =>
    rename_i site n
    exact Table.lookup_insert_eq.trans (if_pos rfl)
  | resolved hout =>
    rename_i site n id response outcome
    refine backs_afterAttempt fun outcome' hout' => ?_
    obtain rfl := Option.mem_unique hout hout'
    exact settled_resolveAttempt hbac outcome
  | unresolved hout => exact backs_afterAttempt (by simp [hout])
  | retried => exact .inr hbac
  | admitted => exact entered_pivot.backs
  | listed | confirmed => exact backs_confirmNext _ _ _ _
  | memberClaimed => exact entered_inverse.backs
  | failed | suspendedCancel | cancelCompleted | stuck => exact Pc.Loose.backs (by simp)
  | _ => trivial

/-- The pivot attempt a finished call leaves to be resolved: its own, or the one its status
query was about. -/
theorem Finished.pivotId (h : Finished site result pc') (hid : pc'.pivotId = some id) :
    site.pivotId = some id ∨ (id = result.attemptId ∧ site.call.operation = .pivot) := by
  have hset : ∀ {item : ScopedItem}, site.settles result = some (item, id) →
      site.pivotId = some id ∨ (id = result.attemptId ∧ site.call.operation = .pivot) := by
    intro item hset
    cases site <;> simp only [Site.settles, Option.some.injEq, Prod.mk.injEq, reduceCtorEq] at hset
    · exact .inr ⟨hset.2.symm, rfl⟩
    · exact .inl (congrArg some hset.2)
  cases h with
  | query => exact .inr ⟨(Option.some.inj hid).symm, rfl⟩
  | occurred => exact .inl hid
  | absent detail h =>
    cases hid
    exact hset h
  | _ => cases hid

theorem Entered.pivotId (h : Entered site pc') (hid : pc'.pivotId = some id) :
    site.pivotId = some id ∨ id = 0 := by
  cases h with
  | record => exact .inl hid
  | finished hzero _ h => exact (h.pivotId hid).imp_right fun h => h.1.trans hzero

/-- The pivot attempt that is left to be resolved after an attempt. -/
theorem pivotId_afterAttempt {now : Time} {attemptId : ℕ} {response : OperationResponse}
    (hid : (afterAttempt now site n attemptId response).pivotId = some id) :
    site.pivotId = some id ∨ (id = attemptId ∧ site.call.operation = .pivot) := by
  rcases afterAttempt_cases now site n attemptId response with hfin | ⟨-, heq⟩
  · exact hfin.pivotId hid
  · rw [heq] at hid
    exact .inl hid

theorem Pc.Loose.pivotId (h : pc.Loose) : pc.pivotId ≠ some id := by
  cases h <;> nofun

theorem Handed.pivotId (h : Handed work pc) : pc.pivotId ≠ some id := by
  cases h <;> nofun

/-- The confirms of a scope resolve no pivot. -/
theorem pivotId_confirmNext (item : ScopedItem) (brackets : List SealedBracket)
    (hid : (confirmNext item brackets).pivotId = some id) : id = 0 := by
  cases brackets with
  | nil => cases hid
  | cons => exact (entered_confirm.pivotId hid).resolve_left nofun

/-- **The pivot attempt a worker may resolve** is the one it could resolve before, or the
one it waited for; the id zero stands for none. -/
theorem WorkerStep.pivotId (h : WorkerStep cfg me db pc db' pc') (hid : pc'.pivotId = some id) :
    pc.pivotId = some id ∨ id = 0 ∨ ∃ site n, site.call.operation = .pivot ∧
      ((pc = .calling site n id) ∨ ∃ response, pc = .resolve site n id response) := by
  cases h with
  | answered site n =>
    unfold Flory.answered at hid
    split at hid
    · exact .inl hid
    rcases pivotId_afterAttempt hid with hsame | ⟨rfl, hoper⟩
    · exact .inl hsame
    · exact .inr (.inr ⟨site, n, hoper, .inl rfl⟩)
  | resolved | unresolved =>
    rcases pivotId_afterAttempt hid with hsame | ⟨rfl, hoper⟩
    · exact .inl hsame
    · exact .inr (.inr ⟨_, _, hoper, .inr ⟨_, rfl⟩⟩)
  | started => exact .inr (.inl ((entered_regular.pivotId hid).resolve_left nofun))
  | admitted => exact .inr (.inl ((entered_pivot.pivotId hid).resolve_left nofun))
  | recorded | retried => exact .inl hid
  | memberClaimed => exact .inr (.inl ((entered_inverse.pivotId hid).resolve_left nofun))
  | duplicate hpc | stillSuspended hpc | ineligible hpc | deferred hpc | suspended hpc
  | requested hpc => exact absurd hid (loose_request_next hpc).pivotId
  | claimed => exact absurd hid handed_dispatch.pivotId
  | ensured | opened => exact absurd hid handed_dispatchScoped.pivotId
  | listed | confirmed => exact .inr (.inl (pivotId_confirmNext _ _ hid))
  | failed | suspendedCancel | cancelCompleted | stuck =>
    exact absurd hid (Pc.Loose.pivotId (by simp))
  | _ => cases hid

end Own

/-! ### Every worker's evidence -/

/-- **Workers and their evidence.** Attempt ids are handed out in order; every worker's next
move is backed, and the attempt whose outcome a status query settles is the worker's own
pivot. -/
structure Dispatched (world : World) : Prop where
  next : 0 < world.db.nextAttemptId
  fresh : ∀ id row, world.db.attempts.lookup id = some row → 0 < id ∧ id < world.db.nextAttemptId
  backed : ∀ w, world.db.Backs w (world.workers w)
  pivot : ∀ w id, (world.workers w).pivotId = some id → id < world.db.nextAttemptId ∧
    ∀ row, world.db.attempts.lookup id = some row → row.worker = w ∧ row.operation = .pivot

/-- A worker resolves its own attempts only. -/
theorem Dispatched.worker_of_resolves (hdis : Dispatched world) {outcome : AttemptOutcome}
    (hres : (world.workers w).resolves = some (id, outcome)) {row : AttemptRow}
    (hrow : world.db.attempts.lookup id = some row) : row.worker = w := by
  have hbac := hdis.backed w
  cases hpc : world.workers w with
  | resolve =>
    simp only [hpc, Pc.resolves, Option.map_eq_some_iff, Prod.mk.injEq] at hres
    obtain ⟨_, -, rfl, -⟩ := hres
    rw [hpc] at hbac
    obtain rfl := Option.mem_unique hrow hbac
    rfl
  | occurred | absent =>
    simp only [hpc, Pc.resolves, Option.some.injEq, Prod.mk.injEq] at hres
    exact ((hdis.pivot w id (by rw [hpc, ← hres.1]; rfl)).2 row hrow).1
  | _ => simp [hpc, Pc.resolves] at hres

/-- **A recorded attempt stays**: its row changes only when its own worker resolves it. -/
theorem Dispatched.attempt_step {world' : World} (hdis : Dispatched world)
    (hchan : AttemptChange world world' w id) {row : AttemptRow}
    (hrow : world.db.attempts.lookup id = some row) :
    world'.db.attempts.lookup id = some row ∨ (row.worker = w ∧ row.outcome = none ∧
      ∃ outcome, (world.workers w).resolves = some (id, outcome) ∧
        world'.db.attempts.lookup id = some { row with outcome := some outcome }) := by
  cases hchan with
  | kept hsame => exact .inl (hsame.trans hrow)
  | recorded =>
    have := (hdis.fresh id row hrow).2
    omega
  | resolved hpc hrow₀ hopen hrow' =>
    obtain rfl := Option.mem_unique hrow₀ hrow
    exact .inr ⟨hdis.worker_of_resolves hpc hrow, hopen, _, hpc, hrow'⟩

/-- Evidence stays behind a worker as long as its pending and settled rows do. -/
theorem Db.Backs.mono {db' : Db} (h : db.Backs w pc)
    (hpen : ∀ id row, db.attempts.lookup id = some row → row.worker = w → row.outcome = none →
      db'.attempts.lookup id = some row)
    (hset : ∀ id row, db.attempts.lookup id = some row → row.outcome.isSome →
      db'.attempts.lookup id = some row) :
    db'.Backs w pc := by
  have hmono : ∀ {site n outcome}, db.Settled w site n outcome → db'.Settled w site n outcome :=
    fun ⟨id, hrow⟩ => ⟨id, hset id _ hrow rfl⟩
  cases pc with
  | record => exact h.imp_right hmono
  | calling site n id | resolve site n id => exact hpen id _ h rfl rfl
  | retry | succeed => exact hmono h
  | confirmed | completeMember => exact h.imp fun _ => hmono
  | _ => trivial

section Step

variable {world' : World} {a : Action}

/-- Fresh ids stay fresh. -/
theorem Dispatched.fresh_step (hdis : Dispatched world)
    (hnext : world.db.nextAttemptId ≤ world'.db.nextAttemptId)
    (hchan : AttemptChange world world' w id) {row' : AttemptRow}
    (hrow' : world'.db.attempts.lookup id = some row') : 0 < id ∧ id < world'.db.nextAttemptId := by
  cases hchan with
  | kept hsame =>
    have := hdis.fresh id row' (hsame ▸ hrow')
    omega
  | recorded =>
    have := hdis.next
    omega
  | resolved hpc hrow =>
    have := hdis.fresh id _ hrow
    omega

/-- The pivot attempt a worker may resolve stays its own. -/
theorem AttemptChange.pivot_kept (hchan : AttemptChange world world' w id)
    (hnext : world.db.nextAttemptId ≤ world'.db.nextAttemptId) {w' : WorkerId}
    (hlt : id < world.db.nextAttemptId)
    (hown : ∀ row, world.db.attempts.lookup id = some row → row.worker = w' ∧ row.operation = .pivot) :
    id < world'.db.nextAttemptId ∧ ∀ row, world'.db.attempts.lookup id = some row →
      row.worker = w' ∧ row.operation = .pivot := by
  refine ⟨Nat.lt_of_lt_of_le hlt hnext, fun row' hrow' => ?_⟩
  cases hchan with
  | kept hsame => exact hown row' (hsame ▸ hrow')
  | recorded => omega
  | resolved hpc hrow hopen hnew =>
    rename_i row outcome
    obtain rfl := Option.mem_unique hnew hrow'
    exact hown row hrow

/-- The moving worker's pivot attempt is its own. -/
theorem Dispatched.pivot_move (hdis : Dispatched world)
    (hmove : WorkerMove cfg world a world' w) (hid : (world'.workers w).pivotId = some id) :
    id < world.db.nextAttemptId ∧
      ∀ row, world.db.attempts.lookup id = some row → row.worker = w ∧ row.operation = .pivot := by
  rcases hmove.step.pivotId hid with hsame | rfl | ⟨site, n, hoper, hpc⟩
  · exact hdis.pivot w id hsame
  · refine ⟨hdis.next, fun row hrow => ?_⟩
    have := hdis.fresh 0 row hrow
    omega
  have hpen : world.db.Pending w site n id := by
    have hbac := hdis.backed w
    rcases hpc with hpc | ⟨response, hpc⟩ <;> rw [hpc] at hbac <;> exact hbac
  refine ⟨(hdis.fresh id _ hpen).2, fun row hrow => ?_⟩
  obtain rfl := Option.mem_unique hpen hrow
  exact ⟨rfl, hoper⟩

/-- Workers and their evidence are kept by a worker's move. -/
theorem Dispatched.move (hdis : Dispatched world) (hmove : WorkerMove cfg world a world' w) :
    Dispatched world' := by
  have hchan := attemptChange_of_move hmove
  have hnext := hmove.step.nextAttemptId_le
  refine ⟨Nat.lt_of_lt_of_le hdis.next hnext,
    fun id row' hrow' => hdis.fresh_step hnext (hchan id) hrow', fun w' => ?_,
    fun w' id hid => ?_⟩
  · by_cases hw : w' = w
    · subst hw
      exact hmove.step.backs (hdis.backed w')
    rw [hmove.others w' hw]
    refine (hdis.backed w').mono (fun id row hrow hwor _ => ?_) fun id row hrow hout => ?_
    · refine (hdis.attempt_step (hchan id) hrow).resolve_right fun hres => ?_
      exact hw (hwor.symm.trans hres.1)
    · refine (hdis.attempt_step (hchan id) hrow).resolve_right fun hres => ?_
      simp [hres.2.1] at hout
  · by_cases hw : w' = w
    · subst hw
      obtain ⟨hlt, hown⟩ := hdis.pivot_move hmove hid
      exact (hchan id).pivot_kept hnext hlt hown
    rw [hmove.others w' hw] at hid
    obtain ⟨hlt, hown⟩ := hdis.pivot w' id hid
    exact (hchan id).pivot_kept hnext hlt hown

end Step

/-- **Workers and their evidence, in every reachable world.** -/
theorem dispatched_of_reachable (h : Reachable cfg world) : Dispatched world := by
  refine h.invariant ⟨Nat.one_pos, by simp [World.initial], fun _ => trivial, nofun⟩ ?_
  intro mid mid' a hdis _ hstep
  rcases step_cases hstep with ⟨w, hmove⟩ | ⟨henv, hwor⟩
  · exact hdis.move hmove
  refine ⟨by rw [henv.nextAttemptId]; exact hdis.next, ?_, fun w => ?_, ?_⟩
  · rw [henv.attempts, henv.nextAttemptId]
    exact hdis.fresh
  · rw [hwor]
    exact (hdis.backed w).mono (fun id row hrow _ _ => henv.attempts ▸ hrow)
      fun id row hrow _ => henv.attempts ▸ hrow
  · rw [henv.attempts, henv.nextAttemptId, hwor]
    exact hdis.pivot

/-! ### Routes -/

/-- The vertex a site works for is of the kind its operation is for. -/
def Site.Routed : Site → Prop
  | .regular item => item.tool.txn.effectClass ≠ .irreversible
  | .pivot item | .status item _ | .confirm item _ _ =>
    item.item.tool.txn.effectClass = .irreversible
  | .inverse _ _ => True

/-- **Where a vertex is processed**: a barrier by its own branch, an irreversible call as the
pivot of its scope, any other call by `processRegular`. -/
def Pc.Routed : Pc → Prop
  | .barrier item => item.payload = .barrier
  | .owner item | .start item | .fail item _ | .succeed item _ _ =>
    item.tool.txn.effectClass ≠ .irreversible
  | .record site _ | .calling site _ _ | .resolve site _ _ _ | .retry site _ _ => site.Routed
  | .admitPivot item | .occurred item _ | .suspendPivot item _ | .pass item _ =>
    item.item.tool.txn.effectClass = .irreversible
  | .absent item _ _ | .reopen item _ _ | .failAbsent item _ _ | .sealed item =>
    item.item.tool.txn.effectClass = .irreversible
  | .confirmed item _ _ | .suspendConfirm item | .commit item =>
    item.item.tool.txn.effectClass = .irreversible
  | _ => True

section Routes

variable {me : WorkerId} {db' : Db} {pc' : Pc}

/-- A call keeps its route. -/
theorem GoesOn.routed (h : GoesOn site pc) (hsite : site.Routed) : pc.Routed := by
  have hset : ∀ {result : Execution} {item : ScopedItem} {id : ℕ}, site.settles result = some (item, id) →
      item.item.tool.txn.effectClass = .irreversible := by
    intro result item id hset
    cases site <;> simp only [Site.settles, Option.some.injEq, Prod.mk.injEq, reduceCtorEq] at hset
    · exact hset.1 ▸ hsite
    · exact hset.1 ▸ hsite
  cases h with
  | finished h =>
    cases h with
    | suspendPivot h | absent _ h | reopen _ h => exact hset h
    | completeMember | suspendCancel => trivial
    | _ => exact hsite
  | _ => exact hsite

/-- The confirms of a pivot keep its route. -/
theorem routed_confirmNext {item : ScopedItem} (h : item.item.tool.txn.effectClass = .irreversible)
    (brackets : List SealedBracket) : (confirmNext item brackets).Routed := by
  cases brackets with
  | nil => exact h
  | cons => exact entered_confirm.goesOn.routed h

theorem Pc.Loose.routed (h : pc.Loose) : pc.Routed := by
  cases h <;> trivial

theorem Handed.routed (h : Handed work pc) : pc.Routed := by
  cases h with
  | admitPivot hitem h =>
    subst hitem
    exact h
  | ensure | refuse => trivial
  | _ => assumption

/-- **A move keeps its worker on its route.** -/
theorem WorkerStep.routed (h : WorkerStep cfg me db pc db' pc') (hrout : pc.Routed) :
    pc'.Routed := by
  cases h with
  | answered =>
    unfold Flory.answered
    split
    · exact hrout
    · exact goesOn_afterAttempt.routed hrout
  | duplicate hpc | stillSuspended hpc | ineligible hpc | deferred hpc | suspended hpc
  | requested hpc => exact (loose_request_next hpc).routed
  | claimed => exact handed_dispatch.routed
  | ensured | opened => exact handed_dispatchScoped.routed
  | unowned | recorded | retried | occurred | absent | reopened | passed => exact hrout
  | started => exact entered_regular.goesOn.routed hrout
  | resolved | unresolved => exact goesOn_afterAttempt.routed hrout
  | admitted => exact entered_pivot.goesOn.routed hrout
  | listed | confirmed => exact routed_confirmNext hrout _
  | memberClaimed => exact entered_inverse.goesOn.routed trivial
  | failed | suspendedCancel | cancelCompleted | stuck => exact Pc.Loose.routed (by simp)
  | _ => trivial

end Routes

/-- **Every worker is on its route**, in every reachable world. -/
theorem routed_of_reachable (h : Reachable cfg world) : ∀ w, (world.workers w).Routed := by
  refine h.invariant (I := fun world => ∀ w, (world.workers w).Routed) (fun _ => trivial) ?_
  intro mid mid' a hrout _ hstep w'
  rcases step_cases hstep with ⟨w, hmove⟩ | ⟨-, hwor⟩
  · by_cases hw : w' = w
    · subst hw
      exact hmove.step.routed (hrout w')
    · rw [hmove.others w' hw]
      exact hrout w'
  · rw [hwor]
    exact hrout w'

/-! ### Calls and their vertices -/

theorem regular_of_call (h : site.call.operation = .call) : ∃ item, site = .regular item := by
  cases site with
  | regular item => exact ⟨item, rfl⟩
  | _ => cases h

/-- The call attempt of a created vertex, under the vertex's own key. -/
structure AttemptRow.CallOf (row : AttemptRow) (v : CreatedVertex) : Prop where
  vertex : row.vertexId = v.vertexId
  run : row.runId = v.runId
  scope : row.scopeId = v.scopeId
  key : row.idempotencyKey = v.payload.txn.idempotencyKey
  routed : v.payload.txn.effectClass ≠ .irreversible

/-- What a worker records for its item is a call of the item's vertex. -/
theorem callOf_item (w : WorkerId) {item : WorkItem} (n : ℕ)
    (hrout : (Site.regular item).Routed) :
    (((Site.regular item).call.start n).row w).CallOf item.vertex where
  vertex := rfl
  run := rfl
  scope := rfl
  key := congrArg TransactionSpec.idempotencyKey (tool_txn item)
  routed := by
    change item.payload.txn.effectClass ≠ .irreversible
    rw [← tool_txn]
    exact hrout

/-- **Every call attempt is one of a created vertex**, in every reachable world. -/
theorem called_of_reachable (h : Reachable cfg world) :
    ∀ id row, world.db.attempts.lookup id = some row → row.operation = .call →
      ∃ v ∈ world.db.vertices, row.CallOf v := by
  refine invariant_of_changes (I := fun world => ∀ id row,
    world.db.attempts.lookup id = some row → row.operation = .call →
      ∃ v ∈ world.db.vertices, row.CallOf v) h (by simp [World.initial]) ?_
  intro mid mid' a w hmid _ _ hstep hchan hcal id row' hrow' hcall
  have hmono : mid.db.vertices ⊆ mid'.db.vertices := fun _ => vertices_mono hstep
  cases hchan.attempt id with
  | kept hsame =>
    obtain ⟨v, hv, hof⟩ := hcal id row' (hsame ▸ hrow') hcall
    exact ⟨v, hmono hv, hof⟩
  | recorded hpc hid hnew =>
    obtain rfl := Option.mem_unique hnew hrow'
    obtain ⟨item, rfl⟩ := regular_of_call hcall
    have hitem := (frozen_of_reachable hmid).held w item (by rw [hpc]; rfl)
    have hrout := routed_of_reachable hmid w
    rw [hpc] at hrout
    exact ⟨_, hmono hitem, callOf_item w _ hrout⟩
  | resolved hpc hrow hopen hnew =>
    rename_i row outcome
    obtain rfl := Option.mem_unique hnew hrow'
    obtain ⟨v, hv, hof⟩ := hcal id row hrow hcall
    exact ⟨v, hmono hv, hof.vertex, hof.run, hof.scope, hof.key, hof.routed⟩

end Flory
