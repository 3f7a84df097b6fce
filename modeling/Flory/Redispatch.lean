import Flory.Calls
import Flory.Holding

/-!
# Second Dispatches

A call is to be made once: behind a call that is unresolved, or that succeeded, there is no second
one. Within one execution this holds, since an attempt follows a retryable failure only. A new
execution needs a new claim, and `claim_ready_work` does not ask for the evidence of earlier claims:
when the lease runs out on a vertex whose call still stands, the next worker calls again, unless the
bracket of the vertex is sealed already.

## Main results

* `dispatched_once`: where no vertex with a standing call is claimed before its bracket is sealed,
  calls are recorded behind failed ones only, and a vertex of `processRegular` succeeds at most once.
* `redispatch_behind_unresolved`: a call is made behind an unresolved one, and a plain vertex
  succeeds twice.
-/

namespace Flory

variable {cfg : Config} {world world' : World} {a : Action} {w : WorkerId} {v : VertexId}

/-! ### Calls that stand -/

/-- An attempt that was resolved, and not as a success. -/
def AttemptRow.hasFailed (row : AttemptRow) : Bool :=
  row.outcome.any (· != .succeeded)

/-- Whether a call of a vertex is unresolved or has succeeded. -/
def Db.standing (db : Db) (v : VertexId) : Bool :=
  !(db.attempts.rowsWhere fun _ row =>
    row.operation == .call && row.vertexId == v && !row.hasFailed).isEmpty

/-- Whether the bracket-owner check of `processRegular` keeps an item from being called. -/
def Db.owned (db : Db) (item : WorkItem) : Bool :=
  item.brackets && (bracketOwner db item.tool.txn.idempotencyKey).isSome

/-- **The condition**: no vertex with a standing call is claimed before its bracket is sealed. -/
def claimsSettled (cfg : Config) (world : World) : Action → Bool
  | .advance w =>
    match world.workers w with
    | .claim => (claimReadyWork world.db w cfg.leaseMs).all fun claimed =>
        !world.db.standing claimed.1.vertexId || world.db.owned claimed.1
    | _ => true
  | _ => true

/-- A vertex that `processRegular` executes: a call of the Coordinator that is no pivot. -/
def CreatedVertex.isRegular (v : CreatedVertex) : Bool :=
  match v.payload with
  | .tool tool => tool.txn.effectClass != .irreversible &&
      floryExecutorClass v.payload v.scopeId == .coordinator
  | _ => false

/-- All calls of a vertex have failed, or all but one. -/
def Db.Clear (db : Db) (v : VertexId) (but : Option ℕ) : Prop :=
  ∀ id row, db.attempts.lookup id = some row → row.operation = .call → row.vertexId = v →
    some id ≠ but → row.hasFailed = true

/-- No call of the vertex stands when all are known to have failed. -/
theorem standing_eq_false {db : Db} : db.standing v = false ↔ db.Clear v none := by
  simp only [Db.standing, Db.Clear, Bool.not_eq_false', List.isEmpty_iff,
    List.eq_nil_iff_forall_not_mem, Prod.forall, Table.mem_rowsWhere, Bool.and_eq_true, beq_iff_eq,
    Bool.not_eq_true']
  exact forall₂_congr fun id row => by grind

/-! ### What a worker may call -/

/-- An item that was claimed and whose calls have failed, or will not be called. -/
def Db.Claimable (db : Db) (item : WorkItem) : Prop :=
  db.Clear item.vertexId none ∨ db.owned item = true

/-- **What holds of the calls of a vertex** while a worker has it in its hands: all have failed,
except the one in flight. -/
def Db.Unspent (db : Db) : Pc → Prop
  | .ensure item => db.Claimable item.item
  | .owner item => db.Claimable item
  | .start item | .record (.regular item) _ | .retry (.regular item) _ _ =>
    db.Clear item.vertexId none
  | .calling (.regular item) _ id | .resolve (.regular item) _ id _ =>
    db.Clear item.vertexId (some id)
  | _ => True

section Own

variable {db db' : Db} {pc pc' : Pc} {site : Site} {me : WorkerId}

/-- Attempts that are resolved as failed stay so. -/
theorem Db.Clear.mono {but : Option ℕ} (h : db.Clear v but)
    (hrows : ∀ id row', db'.attempts.lookup id = some row' → row'.operation = .call →
      row'.vertexId = v → ∃ row, db.attempts.lookup id = some row ∧ row.operation = .call ∧
        row.vertexId = v ∧ (row.hasFailed = true → row'.hasFailed = true)) : db'.Clear v but := by
  intro id row' hrow' hcall hv hne
  obtain ⟨row, hrow, hcall, hv, himp⟩ := hrows id row' hrow' hcall hv
  exact himp (h id row hrow hcall hv hne)

/-- At the end of a call nothing has to hold. -/
theorem Finished.unspent {result : Execution} (h : Finished site result pc) : db.Unspent pc := by
  cases h <;> trivial

/-- Nor at a point without an item. -/
theorem Pc.Loose.unspent (h : pc.Loose) : db.Unspent pc := by
  cases h <;> trivial

/-- A regular call is entered while no other of its vertex stands. -/
theorem Entered.unspent (h : Entered site pc)
    (hclear : ∀ item, site = .regular item → db.Clear item.vertexId none) : db.Unspent pc := by
  cases h with
  | record =>
    cases site with
    | regular item => exact hclear item rfl
    | _ => trivial
  | finished _ _ h => exact h.unspent

/-- A claimed item is handed to its call while none stands. -/
theorem unspent_processRegular {item : WorkItem} (h : db.Claimable item) :
    db.Unspent (processRegular item) := by
  unfold processRegular
  split
  · exact h
  · rename_i hnot
    exact h.resolve_right (by simp [Db.owned, hnot])

theorem unspent_dispatch {item : WorkItem} (h : db.Claimable item) : db.Unspent (dispatch item) := by
  unfold dispatch
  split
  · trivial
  split
  · exact h
  split
  · trivial
  · exact unspent_processRegular h

theorem unspent_dispatchScoped {item : ScopedItem} (h : db.Claimable item.item) :
    db.Unspent (dispatchScoped item) := by
  unfold dispatchScoped
  split
  · trivial
  · exact unspent_processRegular h

/-- Nor where brackets are confirmed. -/
theorem unspent_confirmNext (item : ScopedItem) (brackets : List SealedBracket) :
    db.Unspent (confirmNext item brackets) := by
  cases brackets with
  | nil => trivial
  | cons => exact entered_confirm.unspent nofun

/-- After an attempt nothing stands, when another one follows. -/
theorem unspent_afterAttempt {now : Time} {n id : ℕ} {response : OperationResponse}
    (h : ∀ item, site = .regular item → response.outcome = .retryableFailure →
      db.Clear item.vertexId none) : db.Unspent (afterAttempt now site n id response) := by
  rcases afterAttempt_cases now site n id response with hfin | ⟨hret, heq⟩
  · exact hfin.unspent
  rw [heq]
  cases site with
  | regular item => exact h item rfl hret
  | _ => trivial

/-- **A worker's own move** leaves no standing call behind, when its claim does not. -/
theorem WorkerStep.unspent (h : WorkerStep cfg me db pc db' pc')
    (hclaim : pc = .claim → ∀ item, pc' = dispatch item → db.Claimable item)
    (hbac : db.Backs me pc) (hunsp : db.Unspent pc) : db'.Unspent pc' := by
  cases h with
  | answered site n id response =>
    unfold Flory.answered
    split
    · cases site <;> exact hunsp
    · rename_i hnone
      exact unspent_afterAttempt fun _ _ hret => by simp [hret, OperationOutcome.evidence] at hnone
  | duplicate hpc | stillSuspended hpc | ineligible hpc | deferred hpc | suspended hpc
  | requested hpc => exact (loose_request_next hpc).unspent
  | claimed => exact unspent_dispatch (hclaim rfl _ rfl)
  | ensured | opened => exact unspent_dispatchScoped hunsp
  | unowned howner =>
    refine hunsp.resolve_right ?_
    simp only [Db.owned, howner, Option.isSome_none, Bool.and_false, Bool.false_eq_true,
      not_false_eq_true]
  | started => exact entered_regular.unspent fun _ heq => by cases heq; exact hunsp
  | recorded hscope hlease =>
    rename_i site n
    cases site with
    | regular item =>
      intro id row hrow hcall hv hne
      rw [Db.addAttempt, Table.lookup_insert_eq, if_neg fun heq => hne (congrArg some heq)] at hrow
      exact hunsp id row hrow hcall hv (Option.some_ne_none id)
    | _ => trivial
  | resolved hout =>
    rename_i site n id response outcome
    refine unspent_afterAttempt ?_
    rintro item rfl hret
    rw [hret] at hout
    obtain rfl := Option.some.inj hout
    intro id' row' hrow' hcall hv _
    rw [resolveAttempt, Table.lookup_mapRows, Option.map_eq_some_iff] at hrow'
    obtain ⟨row, hrow, rfl⟩ := hrow'
    by_cases heq : id' = id
    · subst heq
      obtain rfl := Option.mem_unique hrow hbac
      rw [if_pos ⟨rfl, rfl⟩]
      rfl
    · rw [if_neg fun h => heq h.1] at hcall hv ⊢
      exact hunsp id' row hrow hcall hv (by simpa using heq)
  | unresolved hout =>
    exact unspent_afterAttempt fun _ _ hret => by simp [hret, OperationOutcome.evidence] at hout
  | retried site =>
    cases site with
    | regular => exact hunsp
    | _ => trivial
  | admitted => exact entered_pivot.unspent fun _ heq => by cases heq
  | listed | confirmed => exact unspent_confirmNext _ _
  | memberClaimed => exact entered_inverse.unspent fun _ heq => by cases heq
  | failed | suspendedCancel | cancelCompleted | stuck => exact Pc.Loose.unspent (by simp)
  | _ => trivial

end Own

/-! ### Every worker's item -/

/-- A claim is the claimant's, or was there before the move. -/
theorem WorkerStep.claimedBy {db db' : Db} {pc pc' : Pc} (h : WorkerStep cfg w db pc db' pc')
    {row' : QueueRow} (hrow' : db'.queue.lookup v = some row') {w' : WorkerId}
    (hclaimed : row'.claimedBy = some w') :
    pc = .claim ∧ w' = w ∨ db.queue.lookup v = some row' := by
  have hstep := h.queue v
  rw [hrow'] at hstep
  generalize db.queue.lookup v = old at hstep ⊢
  cases hstep with
  | kept => exact .inr rfl
  | claimed hpc => exact .inl ⟨hpc, (Option.some.inj hclaimed).symm⟩
  | released => cases hclaimed

/-- The environment claims reads only. -/
theorem EnvironmentStep.claimedBy {db db' : Db} (h : EnvironmentStep db db') {row' : QueueRow}
    (hrow' : db'.queue.lookup v = some row') (hclaimed : row'.claimedBy = some w)
    (hclass : floryExecutorClass row'.payload row'.scopeId = .coordinator) :
    db.queue.lookup v = some row' := by
  cases h with
  | freeze hfreez hchan =>
    rcases hchan.queue v with hsame | ⟨-, fv, -, rfl, -, hnew⟩
    · exact hsame ▸ hrow'
    · obtain rfl := Option.mem_unique hnew hrow'
      cases hclaimed
  | engineAppend _ _ hchan =>
    rcases hchan.queue v with hsame | ⟨hnone, -⟩
    · exact hsame ▸ hrow'
    · rw [hnone] at hrow'
      cases hrow'
  | claimRead reader leaseMs hrow hread | releaseRead readyAt hrow hread =>
    change AList.lookup v (AList.insert _ _ db.queue) = some row' at hrow'
    rw [Table.lookup_insert_eq] at hrow'
    split at hrow'
    · obtain rfl := Option.some.inj hrow'
      cases hclass.symm.trans hread
    · exact hrow'
  | completeRead hrow hread =>
    rename_i v' row
    change AList.lookup v (AList.erase _ db.queue) = some row' at hrow'
    by_cases hv : v = v'
    · rw [hv, AList.lookup_erase] at hrow'
      cases hrow'
    · rwa [AList.lookup_erase_ne hv] at hrow'
  | _ => exact hrow'

/-- A worker that claims a vertex under the condition may call it. -/
theorem claimable_of_claimsSettled (hall : claimsSettled cfg world a = true)
    (hstep : step cfg world a = some world') (hmove : WorkerMove cfg world a world' w)
    (hpc : world.workers w = .claim) {item : WorkItem} (hitem : world'.workers w = dispatch item) :
    world.db.Claimable item := by
  have hheld : (world'.workers w).stage.item? = some item := by rw [hitem, stage_dispatch]; rfl
  rcases hmove.action with rfl | hsame
  · simp only [claimsSettled, hpc] at hall
    simp only [step, hpc, advance, Option.map_some, Option.some.injEq] at hstep
    subst hstep
    cases hready : claimReadyWork world.db w cfg.leaseMs with
    | none => simp [World.move, hready, Pc.stage, Stage.item?] at hheld
    | some claimed =>
      simp only [World.move, hready, Function.update_self, stage_dispatch, Stage.item?,
        Option.some.injEq] at hheld
      subst hheld
      simp only [hready, Option.all_some, Bool.or_eq_true, Bool.not_eq_true'] at hall
      exact hall.imp_left standing_eq_false.mp
  · -- a claim counts in the row it leases, so it changes the database
    have hmoved := hmove.step
    rw [hpc] at hmoved
    generalize world'.db = db', world'.workers w = pc' at hmoved hsame hheld
    cases hmoved with
    | claimed hrow hready hadm =>
      rename_i v row
      have hleased := congrArg (fun db => (db.queue.lookup v).map QueueRow.attempt) hsame
      simp [leaseRow, hrow, QueueRow.claim] at hleased
    | duplicate hreq | stillSuspended hreq | ineligible hreq | deferred hreq | suspended hreq
    | requested hreq => cases hreq
    | _ => cases hheld

/-- A new call is one of a vertex its worker has claimed. -/
theorem claimedBy_of_holdsLease {db : Db} {item : WorkItem} {n : ℕ}
    (h : holdsLease db w ((Site.regular item).call.start n) = true) :
    ∃ row, db.queue.lookup item.vertexId = some row ∧ row.claimedBy = some w := by
  simp only [holdsLease, Call.start, Site.call, Option.any_eq_true, Bool.and_eq_true,
    beq_iff_eq] at h
  exact h.imp fun _ h => ⟨h.1, h.2.1⟩

/-! ### Calls and successes -/

/-- A call of a vertex succeeded. -/
def Db.Succeeded (db : Db) (v : VertexId) : Prop :=
  ∃ id row, db.attempts.lookup id = some row ∧ row.operation = .call ∧ row.vertexId = v ∧
    row.outcome = some .succeeded

/-- **Calls are made once**: of two calls of a vertex the earlier has failed, and so have the calls
of a vertex a worker may still call; a vertex of `processRegular` succeeds with a call that
succeeded, and only once. -/
structure CalledOnce (world : World) : Prop where
  ordered : ∀ id id' row row', id < id' → world.db.attempts.lookup id = some row →
    world.db.attempts.lookup id' = some row' → row.operation = .call → row'.operation = .call →
    row.vertexId = row'.vertexId → row.hasFailed = true
  unspent : ∀ w item row, (world.workers w).stage.item? = some item →
    world.db.queue.lookup item.vertexId = some row → row.claimedBy = some w →
    world.db.Unspent (world.workers w)
  fresh : ∀ w item result deadline, world.workers w = .succeed item result deadline →
    item.vertex.isRegular = true → ∀ e ∈ world.db.log, ¬ e.Succeeds item.vertex
  tried : ∀ v ∈ world.db.vertices, v.isRegular = true → ∀ e ∈ world.db.log, e.Succeeds v →
    world.db.Succeeded v.vertexId
  once : world.db.log.Pairwise fun e e' => ∀ v ∈ world.db.vertices, v.isRegular = true →
    e.Succeeds v → ¬ e'.Succeeds v

section Step

variable (honce : CalledOnce world) (hdis : Dispatched world)
  (hchan : Changes cfg world a world' w)

include honce hdis hchan

/-- Of two calls of a vertex the earlier has failed, also after a step. -/
theorem CalledOnce.ordered_step {id id' : ℕ} {row row' : AttemptRow} (hlt : id < id')
    (hrow : world'.db.attempts.lookup id = some row)
    (hrow' : world'.db.attempts.lookup id' = some row') (hcall : row.operation = .call)
    (hcall' : row'.operation = .call) (hv : row.vertexId = row'.vertexId) :
    row.hasFailed = true := by
  -- the later call, when it is not new
  have hlater : ∀ row₀, world.db.attempts.lookup id' = some row₀ → row₀.operation = .call →
      row₀.vertexId = row.vertexId → row.hasFailed = true := by
    intro row₀ hrow₀ hcall₀ hv₀
    cases hchan.attempt id with
    | kept hsame => exact honce.ordered id id' row row₀ hlt (hsame ▸ hrow) hrow₀ hcall hcall₀ hv₀.symm
    | recorded hpc hid =>
      have := (hdis.fresh id' row₀ hrow₀).2
      omega
    | resolved hres hold hopen hnew =>
      rename_i old outcome
      obtain rfl := Option.mem_unique hnew hrow
      have := honce.ordered id id' old row₀ hlt hold hrow₀ hcall hcall₀ hv₀.symm
      simp [AttemptRow.hasFailed, hopen] at this
  cases hchan.attempt id' with
  | kept hsame => exact hlater row' (hsame ▸ hrow') hcall' hv.symm
  | recorded hpc hid hnew hscope hlease =>
    rename_i site n
    obtain rfl := Option.mem_unique hnew hrow'
    obtain ⟨item, rfl⟩ := regular_of_call hcall'
    obtain ⟨queued, hqueued, hclaimed⟩ := claimedBy_of_holdsLease hlease
    have hclear := honce.unspent w item queued (by rw [hpc]; rfl) hqueued hclaimed
    rw [hpc] at hclear
    cases hchan.attempt id with
    | kept hsame => exact hclear id row (hsame ▸ hrow) hcall hv (Option.some_ne_none id)
    | recorded hpc' hid' => omega
    | resolved hres =>
      rw [hpc] at hres
      cases hres
  | resolved hres hold hopen hnew =>
    rename_i old outcome
    obtain rfl := Option.mem_unique hnew hrow'
    exact hlater old hold hcall' hv.symm

end Step

/-- The calls of a vertex that another worker has claimed. -/
theorem Db.Unspent.others {w' : WorkerId} {item : WorkItem} {queued : QueueRow}
    (h : world.db.Unspent (world.workers w')) (hitem : (world.workers w').stage.item? = some item)
    (hattempt : ∀ id, AttemptChange world world' w id)
    (hbrackets : ∀ key, (world.db.brackets.lookup key).isSome →
      (world'.db.brackets.lookup key).isSome)
    (hqueued : world.db.queue.lookup item.vertexId = some queued)
    (hclaimed : queued.claimedBy = some w') (hne : w' ≠ w) :
    world'.db.Unspent (world.workers w') := by
  -- nobody else records a call of the vertex, and what has failed stays so
  have hrows : ∀ id row', world'.db.attempts.lookup id = some row' → row'.operation = .call →
      row'.vertexId = item.vertexId → ∃ row, world.db.attempts.lookup id = some row ∧
        row.operation = .call ∧ row.vertexId = item.vertexId ∧
        (row.hasFailed = true → row'.hasFailed = true) := by
    intro id row' hrow' hcall hv
    cases hattempt id with
    | kept hsame => exact ⟨row', hsame ▸ hrow', hcall, hv, fun hfailed => hfailed⟩
    | recorded hpc hid hnew hscope hlease =>
      rename_i site n
      obtain rfl := Option.mem_unique hnew hrow'
      obtain ⟨item', rfl⟩ := regular_of_call hcall
      obtain ⟨queued', hqueued', hclaimed'⟩ := claimedBy_of_holdsLease hlease
      change item'.vertexId = item.vertexId at hv
      rw [hv] at hqueued'
      obtain rfl := Option.mem_unique hqueued hqueued'
      exact absurd (Option.some.inj (hclaimed.symm.trans hclaimed')) hne
    | resolved hres hold hopen hnew =>
      rename_i old outcome
      obtain rfl := Option.mem_unique hnew hrow'
      exact ⟨old, hold, hcall, hv, fun hfailed => by simp [AttemptRow.hasFailed, hopen] at hfailed⟩
  have howned : world.db.Claimable item → world'.db.Claimable item := by
    refine Or.imp (·.mono hrows) fun howned => ?_
    simp only [Db.owned, bracketOwner, Option.isSome_map, Bool.and_eq_true] at howned ⊢
    exact ⟨howned.1, hbrackets _ howned.2⟩
  generalize world.workers w' = pc at h hitem
  cases pc with
  | ensure | owner =>
    obtain rfl := Option.some.inj hitem
    exact howned h
  | start =>
    obtain rfl := Option.some.inj hitem
    exact h.mono hrows
  | record site | retry site | calling site | resolve site =>
    cases site with
    | regular =>
      obtain rfl := Option.some.inj hitem
      exact h.mono hrows
    | _ => trivial
  | _ => trivial

/-- Nothing stands behind a worker that may call, also after a step that claims nothing of the
kind. -/
theorem CalledOnce.unspent_step (honce : CalledOnce world) (h : Reachable cfg world)
    (h' : Reachable cfg world') (hall : claimsSettled cfg world a = true)
    (hstep : step cfg world a = some world') (hchan : Changes cfg world a world' w)
    {w' : WorkerId} {item : WorkItem} {row' : QueueRow}
    (hitem : (world'.workers w').stage.item? = some item)
    (hrow' : world'.db.queue.lookup item.vertexId = some row') (hclaimed : row'.claimedBy = some w') :
    world'.db.Unspent (world'.workers w') := by
  have hbrackets : ∀ key, (world.db.brackets.lookup key).isSome →
      (world'.db.brackets.lookup key).isSome := by
    intro key hsome
    obtain ⟨bracket, hbracket⟩ := Option.isSome_iff_exists.mp hsome
    obtain ⟨_, hsame, -⟩ := hchan.bracket_some (scoped_of_reachable h) hbracket
    exact Option.isSome_of_mem hsame
  rcases step_cases hstep with ⟨w, hmove⟩ | ⟨henv, hwor⟩
  · by_cases hw : w' = w
    · subst hw
      refine hmove.step.unspent (fun hpc item hdisp =>
        claimable_of_claimsSettled hall hstep hmove hpc hdisp)
        ((dispatched_of_reachable h).backed w') ?_
      rcases hmove.step.claimedBy hrow' hclaimed with ⟨hpc, -⟩ | hrow
      · rw [hpc]
        trivial
      rcases hmove.step.dispatched hitem with hold | ⟨⟨hpc, -⟩, -⟩
      · exact honce.unspent w' item row' hold hrow hclaimed
      · rw [hpc]
        trivial
    · rw [hmove.others w' hw] at hitem ⊢
      have hrow := (hmove.step.claimedBy hrow' hclaimed).resolve_left fun hsame => hw hsame.2
      exact (honce.unspent w' item row' hitem hrow hclaimed).others hitem
        (attemptChange_of_move hmove) hbrackets hrow hclaimed hw
  · have hclass : floryExecutorClass row'.payload row'.scopeId = .coordinator := by
      obtain ⟨-, hs, hpay⟩ := (frozen_of_reachable h').row_of_item hitem hrow'
      rw [hs, hpay]
      exact (holding_of_reachable h').executor w' item hitem
    rw [hwor] at hitem ⊢
    have hrow := henv.claimedBy hrow' hclaimed hclass
    exact (honce.unspent w' item row' hitem hrow hclaimed).others hitem
      (fun id => .kept (by rw [henv.attempts])) hbrackets hrow hclaimed (Nat.succ_ne_self w').symm

/-! ### Successes -/

section Success

variable {db db' : Db} {pc pc' : Pc} {me : WorkerId} {item : WorkItem} {result : Execution}
  {deadline : Time} {e : Event}

theorem Finished.to_succeed {site : Site} {final : Execution}
    (h : Finished site final (.succeed item result deadline)) :
    site = .regular item ∧ final.response.outcome = .succeeded := by
  cases h with
  | succeed _ hsuc => exact ⟨rfl, hsuc⟩

/-- No site is entered at its success. -/
theorem Entered.to_succeed {site : Site} (h : Entered site pc) :
    pc ≠ .succeed item result deadline := by
  rintro rfl
  cases h with
  | finished _ hne h => exact hne h.to_succeed.2

theorem Handed.to_succeed {work : WorkItem} (h : Handed work pc) :
    pc ≠ .succeed item result deadline := by
  cases h <;> nofun

theorem Pc.Loose.to_succeed (h : pc.Loose) : pc ≠ .succeed item result deadline := by
  cases h <;> nofun

/-- **A success is appended behind the resolution of a call.** -/
theorem WorkerStep.to_succeed (h : WorkerStep cfg me db pc db' pc')
    (hpc' : pc' = .succeed item result deadline) :
    ∃ n id response, pc = .resolve (.regular item) n id response := by
  have hafter : ∀ {now : Time} {site : Site} {n id : ℕ} {response : OperationResponse},
      afterAttempt now site n id response = .succeed item result deadline →
        site = .regular item ∧ response.outcome = .succeeded := by
    intro now site n id response heq
    rcases afterAttempt_cases now site n id response with hfin | ⟨-, hret⟩
    · exact (heq ▸ hfin).to_succeed
    · rw [hret] at heq
      cases heq
  cases h with
  | answered =>
    unfold Flory.answered at hpc'
    split at hpc'
    · cases hpc'
    · rename_i hnone
      rw [(hafter hpc').2] at hnone
      cases hnone
  | resolved | unresolved =>
    obtain ⟨rfl, -⟩ := hafter hpc'
    exact ⟨_, _, _, rfl⟩
  | duplicate hreq | stillSuspended hreq | ineligible hreq | deferred hreq | suspended hreq
  | requested hreq => exact absurd hpc' (loose_request_next hreq).to_succeed
  | claimed => exact absurd hpc' handed_dispatch.to_succeed
  | ensured | opened => exact absurd hpc' handed_dispatchScoped.to_succeed
  | started => exact absurd hpc' entered_regular.to_succeed
  | admitted => exact absurd hpc' entered_pivot.to_succeed
  | memberClaimed => exact absurd hpc' entered_inverse.to_succeed
  | listed | confirmed =>
    unfold confirmNext at hpc'
    split at hpc'
    · cases hpc'
    · exact absurd hpc' entered_confirm.to_succeed
  | failed | suspendedCancel | cancelCompleted | stuck =>
    exact absurd hpc' (Pc.Loose.to_succeed (by simp))
  | _ => cases hpc'

/-- A worker's success of a vertex of `processRegular`. -/
theorem WorkerEvent.succeeds_regular (hfroz : Frozen world) (hrout : (world.workers w).Routed)
    (h : WorkerEvent world.db db' (world.workers w) e) (hbody : e.body.isSucceeded = true) :
    ∃ v ∈ world.db.vertices, e.vertexId = some v.vertexId ∧ (v.isRegular = true →
      ∃ item result deadline, world.workers w = .succeed item result deadline ∧ item.vertex = v) := by
  cases h with
  | plain => cases hb : e.body <;> simp_all [EventBody.isPlain, EventBody.isSucceeded]
  | barrier hpc hsuc hv =>
    rename_i item
    rw [hpc] at hrout
    change item.payload = .barrier at hrout
    refine ⟨_, hfroz.held w item (by rw [hpc]; rfl), hv, fun hreg => ?_⟩
    simp [CreatedVertex.isRegular, WorkItem.vertex, hrout] at hreg
  | sealed hpc hsuc hv hscope htry hkey hkey' =>
    exact ⟨_, hfroz.held w _ (by rw [hpc]; rfl), hv, fun _ => ⟨_, _, _, hpc, rfl⟩⟩
  | succeeded hpc hsuc hv hplain =>
    exact ⟨_, hfroz.held w _ (by rw [hpc]; rfl), hv, fun _ => ⟨_, _, _, hpc, rfl⟩⟩
  | pivotSucceeded hpc hsuc hv hrow' hstate' =>
    rename_i item result row'
    rw [hpc] at hrout
    refine ⟨_, hfroz.held w item.item (by rw [hpc]; rfl), hv, fun hreg => ?_⟩
    change item.item.tool.txn.effectClass = .irreversible at hrout
    cases hpay : item.item.payload <;>
      simp_all [CreatedVertex.isRegular, WorkItem.vertex, VertexPayload.txn]
  | tried _ hb | admitted _ hb | passed _ hb | confirmed _ hb | requested _ hb | completed _ hb =>
    rw [hb] at hbody
    cases hbody

/-- The Engine succeeds no vertex of `processRegular`. -/
theorem EngineEvent.not_isRegular (h : EngineEvent db e) (hbody : e.body.isSucceeded = true) :
    ∃ v ∈ db.vertices, e.vertexId = some v.vertexId ∧ v.isRegular = false := by
  obtain ⟨v, hv, hver, howns⟩ := h.succeeds_class hbody
  refine ⟨v, hv, hver, Bool.eq_false_iff.mpr fun hreg => ?_⟩
  unfold CreatedVertex.isRegular at hreg
  split at hreg
  · simp only [Bool.and_eq_true, beq_iff_eq] at hreg
    rw [hreg.2] at howns
    cases howns
  · cases hreg

/-- **What a step adds to the successes of `processRegular`**: those of workers that leave
`succeed` with it, and at most one. -/
theorem succeeds_of_step (h : Reachable cfg world) (hstep : step cfg world a = some world') :
    ∃ new, world'.db.log = world.db.log ++ new ∧
      (∀ e ∈ new, e.body.isSucceeded = true → ∃ v ∈ world.db.vertices,
        e.vertexId = some v.vertexId ∧ (v.isRegular = true → ∃ w item result deadline,
          world.workers w = .succeed item result deadline ∧ item.vertex = v ∧
          world'.workers w ≠ world.workers w)) ∧
      (new.Pairwise fun e e' => ∀ v ∈ world.db.vertices, v.isRegular = true → e.Succeeds v →
        ¬ e'.Succeeds v) := by
  have hfroz := frozen_of_reachable h
  rcases step_cases hstep with ⟨w, hmove⟩ | ⟨henv, hwor⟩
  · obtain ⟨new, hlog, hnew⟩ := hmove.step.log
    refine ⟨new, hlog, fun e he hbody => ?_, hnew.once.imp fun hboth v _ _ hsuc hsuc' => ?_⟩
    · obtain ⟨v, hv, hver, hreg⟩ :=
        (hnew.origin e he).succeeds_regular hfroz (routed_of_reachable h w) hbody
      refine ⟨v, hv, hver, fun hisReg => ?_⟩
      obtain ⟨item, result, deadline, hpc, hitem⟩ := hreg hisReg
      refine ⟨w, item, result, deadline, hpc, hitem, fun hsame => ?_⟩
      obtain ⟨_, _, _, hres⟩ := hmove.step.to_succeed (hsame.trans hpc)
      rw [hpc] at hres
      cases hres
    · simp [hsuc.body, hsuc'.body] at hboth
  · obtain ⟨new, hlog, hnew⟩ := henv.log
    have hnone : ∀ e ∈ new, e.body.isSucceeded = true → ∃ v ∈ world.db.vertices,
        e.vertexId = some v.vertexId ∧ v.isRegular = false := by
      intro e he hbody
      obtain ⟨-, heng | ⟨seq, hbody'⟩ | ⟨fv, hfv⟩⟩ := hnew e he
      · exact heng.not_isRegular hbody
      · rw [hbody'] at hbody
        cases hbody
      · rw [hfv] at hbody
        cases hbody
    refine ⟨new, hlog, fun e he hbody => ?_,
      List.pairwise_of_forall_mem_list fun e he _ _ v hv hreg hsuc => ?_⟩
    · obtain ⟨v, hv, hver, hnot⟩ := hnone e he hbody
      exact ⟨v, hv, hver, by simp [hnot]⟩
    · obtain ⟨v₀, hv₀, hver, hnot⟩ := hnone e he hsuc.body
      obtain rfl := hfroz.eq_of_vertexId hv hv₀ (Option.mem_unique hsuc.vertex hver)
      rw [hnot] at hreg
      cases hreg

end Success

/-- Of the calls of a vertex at most one has not failed. -/
theorem CalledOnce.eq_of_standing (honce : CalledOnce world) {id id' : ℕ} {row row' : AttemptRow}
    (hrow : world.db.attempts.lookup id = some row)
    (hrow' : world.db.attempts.lookup id' = some row') (hcall : row.operation = .call)
    (hcall' : row'.operation = .call) (hv : row.vertexId = row'.vertexId)
    (hfailed : row.hasFailed = false) (hfailed' : row'.hasFailed = false) : row = row' := by
  rcases Nat.lt_trichotomy id id' with hlt | rfl | hlt
  · simp [honce.ordered id id' row row' hlt hrow hrow' hcall hcall' hv] at hfailed
  · exact Option.mem_unique hrow hrow'
  · simp [honce.ordered id' id row' row hlt hrow' hrow hcall' hcall hv.symm] at hfailed'

/-- What a worker is about to append succeeded, with a call of its own. -/
theorem Dispatched.succeeded (hdis : Dispatched world) {item : WorkItem} {result : Execution}
    {deadline : Time} (hpc : world.workers w = .succeed item result deadline) :
    ∃ id row, world.db.attempts.lookup id = some row ∧ row.operation = .call ∧
      row.vertexId = item.vertexId ∧ row.outcome = some .succeeded ∧ row.worker = w := by
  have hbac := hdis.backed w
  rw [hpc] at hbac
  obtain ⟨id, hrow⟩ := hbac
  exact ⟨id, _, hrow, rfl, rfl, rfl, rfl⟩

/-- The successes in the log after a step: of vertices there were before, and the new ones of workers
that leave `succeed` with it. -/
structure Successes (world world' : World) (new : List Event) : Prop where
  log : world'.db.log = world.db.log ++ new
  known : ∀ v ∈ world'.db.vertices, ∀ e ∈ world'.db.log, e.Succeeds v → v ∈ world.db.vertices
  added : ∀ v ∈ world.db.vertices, v.isRegular = true → ∀ e ∈ new, e.Succeeds v →
    ∃ w item result deadline, world.workers w = .succeed item result deadline ∧
      item.vertex = v ∧ world'.workers w ≠ world.workers w
  apart : new.Pairwise fun e e' => ∀ v ∈ world.db.vertices, v.isRegular = true → e.Succeeds v →
    ¬ e'.Succeeds v

theorem successes_of_step (h : Reachable cfg world) (h' : Reachable cfg world')
    (hstep : step cfg world a = some world') : ∃ new, Successes world world' new := by
  obtain ⟨new, hlog, hnew, hapart⟩ := succeeds_of_step h hstep
  refine ⟨new, hlog, fun v hv e he hsuc => ?_, fun v hv hreg e he hsuc => ?_, hapart⟩
  · obtain ⟨v₀, hv₀, hver⟩ : ∃ v₀ ∈ world.db.vertices, e.vertexId = some v₀.vertexId := by
      rcases List.mem_append.mp (hlog ▸ he) with hold | hadd
      · obtain ⟨v₀, hv₀, hver, -⟩ := (succeededOnce_of_reachable h).sealed e hold hsuc.body
        exact ⟨v₀, hv₀, hver⟩
      · obtain ⟨v₀, hv₀, hver, -⟩ := hnew e hadd hsuc.body
        exact ⟨v₀, hv₀, hver⟩
    obtain rfl := (frozen_of_reachable h').eq_of_vertexId hv (vertices_mono hstep hv₀)
      (Option.mem_unique hsuc.vertex hver)
    exact hv₀
  · obtain ⟨v₀, hv₀, hver, hmoved⟩ := hnew e he hsuc.body
    obtain rfl := (frozen_of_reachable h).eq_of_vertexId hv hv₀ (Option.mem_unique hsuc.vertex hver)
    exact hmoved hreg

section Successes

variable {new : List Event} (honce : CalledOnce world) (hdis : Dispatched world)
  (hsucs : Successes world world' new)

include honce hdis hsucs

/-- A vertex that has succeeded after a step had a call that succeeded before it. -/
theorem CalledOnce.succeeded_before {v : CreatedVertex} (hv : v ∈ world.db.vertices)
    (hreg : v.isRegular = true) {e : Event} (he : e ∈ world'.db.log) (hsuc : e.Succeeds v) :
    world.db.Succeeded v.vertexId := by
  rcases List.mem_append.mp (hsucs.log ▸ he) with hold | hadd
  · exact honce.tried v hv hreg e hold hsuc
  obtain ⟨w, item, result, deadline, hpc, rfl, -⟩ := hsucs.added v hv hreg e hadd hsuc
  obtain ⟨id, row, hrow, hcall, hver, hout, -⟩ := hdis.succeeded hpc
  exact ⟨id, row, hrow, hcall, hver, hout⟩

/-- A worker about to append a success after a step finds none of its vertex. -/
theorem CalledOnce.fresh_step (h' : Reachable cfg world') (hstep : step cfg world a = some world')
    {item : WorkItem} {result : Execution} {deadline : Time}
    (hpc' : world'.workers w = .succeed item result deadline) (hreg : item.vertex.isRegular = true)
    {e : Event} (he : e ∈ world'.db.log) : ¬ e.Succeeds item.vertex := by
  intro hsuc
  have hv := hsucs.known _ ((frozen_of_reachable h').held w item (by rw [hpc']; rfl)) e he hsuc
  obtain ⟨id₀, row₀, hrow₀, hcall₀, hver₀, hout₀⟩ :=
    honce.succeeded_before hdis hsucs hv hreg he hsuc
  have hstands : row₀.hasFailed = false := by simp [AttemptRow.hasFailed, hout₀]
  by_cases hsame : world'.workers w = world.workers w
  · rw [hsame] at hpc'
    rcases List.mem_append.mp (hsucs.log ▸ he) with hold | hadd
    · exact honce.fresh w item result deadline hpc' hreg e hold hsuc
    -- two workers about to append the success of one vertex made the same call
    obtain ⟨w₁, item₁, _, _, hpc₁, hitem₁, hmoved⟩ := hsucs.added _ hv hreg e hadd hsuc
    obtain ⟨_, row₁, hrow₁, hcall₁, hver₁, hout₁, hwork₁⟩ := hdis.succeeded hpc₁
    obtain ⟨_, row₂, hrow₂, hcall₂, hver₂, hout₂, hwork₂⟩ := hdis.succeeded hpc'
    have hver : row₁.vertexId = row₂.vertexId :=
      hver₁.trans ((congrArg CreatedVertex.vertexId hitem₁).trans hver₂.symm)
    obtain rfl := honce.eq_of_standing hrow₁ hrow₂ hcall₁ hcall₂ hver
      (by simp [AttemptRow.hasFailed, hout₁]) (by simp [AttemptRow.hasFailed, hout₂])
    obtain rfl := hwork₁.symm.trans hwork₂
    exact hmoved hsame
  · -- the worker resolves a call that is pending, while another one succeeded
    rcases step_cases hstep with ⟨w₁, hmove⟩ | ⟨-, hwor⟩
    · obtain rfl : w = w₁ := by
        by_contra hne
        exact hsame (hmove.others w hne)
      obtain ⟨n, id, response, hpc⟩ := hmove.step.to_succeed hpc'
      have hpend := hdis.backed w
      rw [hpc] at hpend
      have heq := honce.eq_of_standing hpend hrow₀ rfl hcall₀ hver₀.symm rfl hstands
      rw [← heq] at hout₀
      cases hout₀
    · exact hsame (by rw [hwor])

omit hdis in
/-- No vertex succeeds twice, also after a step. -/
theorem CalledOnce.once_step : world'.db.log.Pairwise fun e e' => ∀ v ∈ world'.db.vertices,
    v.isRegular = true → e.Succeeds v → ¬ e'.Succeeds v := by
  have hlog := hsucs.log
  rw [hlog, List.pairwise_append]
  refine ⟨honce.once.imp_of_mem fun {e e'} he _ honly v hv hreg hsuc => ?_,
    hsucs.apart.imp_of_mem fun {e e'} he _ hdiff v hv hreg hsuc => ?_,
    fun e he e' he' v hv hreg hsuc hsuc' => ?_⟩
  · exact honly v (hsucs.known v hv e (hlog ▸ List.mem_append_left _ he) hsuc) hreg hsuc
  · exact hdiff v (hsucs.known v hv e (hlog ▸ List.mem_append_right _ he) hsuc) hreg hsuc
  · have hv₀ := hsucs.known v hv e (hlog ▸ List.mem_append_left _ he) hsuc
    obtain ⟨w₁, item, result, deadline, hpc, rfl, -⟩ := hsucs.added v hv₀ hreg e' he' hsuc'
    exact honce.fresh w₁ item result deadline hpc hreg e he hsuc

end Successes

/-- **Calls are made once**, also after a step that claims no vertex with a standing call. -/
theorem CalledOnce.step (honce : CalledOnce world) (h : Reachable cfg world)
    (h' : Reachable cfg world') (hall : claimsSettled cfg world a = true)
    (hstep : step cfg world a = some world') (hchan : Changes cfg world a world' w) :
    CalledOnce world' := by
  have hdis := dispatched_of_reachable h
  obtain ⟨new, hsucs⟩ := successes_of_step h h' hstep
  constructor
  case ordered =>
    intro id id' row row' hlt hrow hrow' hcall hcall' hv
    exact honce.ordered_step hdis hchan hlt hrow hrow' hcall hcall' hv
  case unspent =>
    intro w' item row' hitem hrow' hclaimed
    exact honce.unspent_step h h' hall hstep hchan hitem hrow' hclaimed
  case fresh =>
    intro w' item result deadline hpc' hreg e he
    exact honce.fresh_step hdis hsucs h' hstep hpc' hreg he
  case tried =>
    intro v hv hreg e he hsuc
    obtain ⟨id, row, hrow, hcall, hver, hout⟩ :=
      honce.succeeded_before hdis hsucs (hsucs.known v hv e he hsuc) hreg he hsuc
    refine ⟨id, row, (hdis.attempt_step (hchan.attempt id) hrow).resolve_right fun hres => ?_,
      hcall, hver, hout⟩
    simp [hres.2.1] at hout
  case once => exact honce.once_step hsucs

/-- Calls are made once in every run that claims no vertex with a standing call. -/
theorem calledOnce_of_reachable
    (h : ReachableUnder cfg (fun world a => claimsSettled cfg world a = true) world) :
    CalledOnce world := by
  refine invariant_of_changes h ?_ ?_
  · constructor <;> simp [World.initial, Db.Unspent]
  · intro mid mid' a w hmid hmid' hall hstep hchan honce
    exact honce.step hmid hmid' hall hstep hchan

/-- A worker calls the tool of a try and crashes; when its lease is over another worker
claims the vertex and is about to call again. -/
def abandonedCall : List Action :=
  [.createRun 1, .freeze 1 [tccVertex 10 [] 5 "a"]] ++ callNext 1 ++ [.crash 1, .tick 31000, .poll 2] ++
    drive 2 5

/-- A worker records the success of a plain call and crashes before it completes the work;
another worker does the same once more. -/
def repeatedSuccess : List Action :=
  [.createRun 1, .freeze 1 [plainVertex 10 [] 5]] ++ .poll 1 :: drive 1 5 ++
    [reply 1 .succeeded] ++ drive 1 2 ++ [.crash 1, .tick 31000, .poll 2] ++ drive 2 5 ++
    [reply 2 .succeeded] ++ drive 2 2

/-- **No second dispatch.** In every run in which no vertex with a standing call is claimed before
its bracket is sealed: a call recorded for a vertex finds every earlier call of it failed, and a
vertex of `processRegular` succeeds at most once. -/
theorem dispatched_once {cfg : Config} {world : World}
    (h : ReachableUnder cfg (fun world a => claimsSettled cfg world a = true) world) :
    (∀ world' a id row, step cfg world a = some world' → world.db.attempts.lookup id = none →
      world'.db.attempts.lookup id = some row → row.operation = .call →
      world.db.standing row.vertexId = false) ∧
    world.db.log.Pairwise fun e e' => ∀ v ∈ world.db.vertices, v.isRegular = true →
      e.Succeeds v → ¬ e'.Succeeds v := by
  have honce := calledOnce_of_reachable h
  refine ⟨fun world' a id row hstep hnone hrow hcall => ?_, honce.once⟩
  obtain ⟨w, site, n, -, hpc, rfl, hlease, -⟩ := attempt_of_step h.any hstep hnone hrow
  obtain ⟨item, rfl⟩ := regular_of_call hcall
  obtain ⟨queued, hqueued, hclaimed⟩ := claimedBy_of_holdsLease hlease
  have hclear := honce.unspent w item queued (by rw [hpc]; rfl) hqueued hclaimed
  rw [hpc] at hclear
  exact standing_eq_false.mpr hclear

/-- A call fails and its worker crashes; when the lease is over, another worker is about to call. -/
def failedElsewhere : List Action :=
  [.createRun 1, .freeze 1 [plainVertex 10 [] 5]] ++ .poll 1 :: drive 1 5 ++
    [reply 1 .retryableFailure] ++ drive 1 1 ++ [.crash 1, .tick 31000, .poll 2] ++ drive 2 4

/-- The second call of a vertex is recorded behind a failed one. -/
theorem dispatched_once_failedElsewhere :
    let world := World.afterUnder {} (claimsSettled {}) failedElsewhere
    ((step {} world (.advance 2)).bind fun world' =>
      (world'.db.attempts.lookup 2).map AttemptRow.operation) = some .call ∧
    world.db.standing 10 = false := by
  intro world
  have hrow : ((step {} world (.advance 2)).bind fun world' => world'.db.attempts.lookup 2) =
      some ⟨1, some 5, 10, .call, 1, "read", "", 2, none⟩ := by decide +kernel
  refine ⟨by decide +kernel, ?_⟩
  obtain ⟨world', hstep, hrow⟩ := Option.bind_eq_some_iff.mp hrow
  exact (dispatched_once (reachable_afterUnder (by decide +kernel))).1 world' (.advance 2) 2 _ hstep
    (by decide +kernel) hrow rfl

/-- **A call is made behind an unresolved one**, and a plain vertex succeeds twice. -/
theorem redispatch_behind_unresolved :
    (∃ world, Reachable {} world ∧ ∃ row row', world.db.attempts.lookup 1 = some row ∧
      world.db.attempts.lookup 2 = some row' ∧ row.operation = .call ∧ row'.operation = .call ∧
      row.vertexId = row'.vertexId ∧ row.outcome = none) ∧
    ∃ world, Reachable {} world ∧ (world.db.log.filter fun e =>
      e.body.isSucceeded && e.vertexId == some 10).length = 2 := by
  refine ⟨⟨World.after {} (abandonedCall ++ drive 2 1), reachable_after (by decide +kernel),
    ⟨1, some 5, 10, .call, 1, "reserve", "a", 1, none⟩,
    ⟨1, some 5, 10, .call, 1, "reserve", "a", 2, none⟩, by decide +kernel, by decide +kernel,
    rfl, rfl, rfl, rfl⟩,
    ⟨World.after {} repeatedSuccess, reachable_after (by decide +kernel), by decide +kernel⟩⟩

end Flory
