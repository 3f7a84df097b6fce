import Flory.Requests

/-!
# What Workers Hold

Facts about the data a worker carries from one transaction to the next, which can be stale by
the time it is used. A worker that holds an item of a scope has seen the scope's row, or is
about to create it and has its claim still in the queue; the brackets it is confirming and
the members it is undoing are rows of the database.

## Main results

* `WorkerStep.dispatched`: a worker comes to hold an item only by claiming it.
* `WorkerStep.confirms`: a worker comes to confirm a bracket only by listing the sealed ones.
* `holding_of_reachable`: what stands behind held items, confirms and cancel members.
-/

namespace Flory

variable {item : WorkItem} {cfg : Config} {world world' : World} {a : Action} {w : WorkerId}
  {s : ScopeId} {row : QueueRow}

/-! ### Claims and scopes -/

/-- Whether a worker is about to create the scope row of its item. -/
def Pc.isEnsure : Pc → Bool
  | .ensure _ => true
  | _ => false

/-- Whether some worker claimed the queue row of a vertex. -/
def Db.Claimed (db : Db) (v : VertexId) : Prop :=
  ∃ row, db.queue.lookup v = some row ∧ row.claimedBy.isSome

/-- A claimed item of a scope is taken to its scope first, unless it is a barrier. -/
theorem isEnsure_dispatch (hs : item.scopeId = some s) (hpay : item.payload ≠ .barrier) :
    (dispatch item).isEnsure = true := by
  unfold dispatch
  split
  · exact absurd ‹_› hpay
  split
  · rfl
  · simp_all

theorem Handed.payload {held : ScopedItem} (h : Handed item (.ensure held)) :
    held.item.payload ≠ .barrier := by
  cases h with
  | ensure hitem h => exact hitem ▸ h

section Moves

variable {me : WorkerId} {db db' : Db} {pc pc' : Pc}

/-- **A worker comes to hold an item only by claiming it.** -/
theorem WorkerStep.dispatched (h : WorkerStep cfg me db pc db' pc')
    (hitem : pc'.stage.item? = some item) : pc.stage.item? = some item ∨
      ((pc = .claim ∧ pc' = dispatch item) ∧ (∃ row, db.queue.lookup item.vertexId = some row ∧
        ready db .coordinator row = true ∧ item.vertex = row.vertex item.vertexId) ∧
        db'.Claimed item.vertexId) := by
  cases h with
  | claimed hrow hready hadm =>
    rename_i v row
    rw [stage_dispatch] at hitem
    cases hitem
    exact .inr ⟨⟨rfl, rfl⟩, ⟨row, hrow, hready, rfl⟩, _, AList.lookup_insert _, rfl⟩
  | duplicate hpc | stillSuspended hpc | ineligible hpc | deferred hpc | suspended hpc
  | requested hpc =>
    rw [(loose_request_next hpc).no_item] at hitem
    cases hitem
  | ensured | opened => exact .inl (by rwa [stage_dispatchScoped] at hitem)
  | started => exact .inl (by rwa [entered_regular.stage] at hitem)
  | answered => exact .inl (by rwa [stage_answered] at hitem)
  | resolved | unresolved => exact .inl (by rwa [stage_afterAttempt] at hitem)
  | admitted => exact .inl (by rwa [entered_pivot.stage] at hitem)
  | listed | confirmed => exact .inl (by rwa [stage_confirmNext] at hitem)
  | memberClaimed =>
    rw [entered_inverse.stage] at hitem
    cases hitem
  | failed | suspendedCancel | cancelCompleted | stuck =>
    rw [Pc.Loose.no_item (by simp)] at hitem
    cases hitem
  | _ => first | exact .inl hitem | cases hitem

/-- A worker that leaves `ensure` with its item leaves the scope's row behind. -/
theorem WorkerStep.ensured_row {held : ScopedItem} (h : WorkerStep cfg me db (.ensure held) db' pc')
    (hitem : pc'.stage.item? ≠ none) : (db'.scopes.lookup held.scopeId).isSome := by
  generalize hpc : Pc.ensure held = pc at h
  cases h with
  | crash | failed => subst hpc; exact absurd rfl hitem
  | ensured hrow =>
    obtain rfl := Pc.ensure.inj hpc
    rw [(Db.scopeOf_eq_some_iff.mp hrow).1]
    rfl
  | opened =>
    obtain rfl := Pc.ensure.inj hpc
    rw [lookup_pushState, if_pos rfl]
    rfl
  | duplicate hreq | stillSuspended hreq | ineligible hreq | deferred hreq | suspended hreq
  | requested hreq => subst hpc; cases hreq
  | _ => cases hpc

variable {site : Site}

/-- Going on at a site ensures no scope. -/
theorem GoesOn.not_isEnsure (h : GoesOn site pc) : pc.isEnsure = false := by
  cases h with
  | finished h => cases h <;> rfl
  | _ => rfl

theorem Pc.Loose.not_isEnsure (h : pc.Loose) : pc.isEnsure = false := by
  cases h <;> rfl

theorem isEnsure_confirmNext (item : ScopedItem) (brackets : List SealedBracket) :
    (confirmNext item brackets).isEnsure = false := by
  cases brackets with
  | nil => rfl
  | cons => exact entered_confirm.goesOn.not_isEnsure

theorem isEnsure_dispatchScoped (item : ScopedItem) : (dispatchScoped item).isEnsure = false := by
  unfold dispatchScoped processRegular
  split
  · rfl
  · split <;> rfl

/-- **Only a claim leads to `ensure`.** -/
theorem WorkerStep.claimed_of_isEnsure (h : WorkerStep cfg me db pc db' pc')
    (hens : pc'.isEnsure = true) : ∃ item, pc' = dispatch item ∧ db'.Claimed item.vertexId := by
  have hnot : pc'.isEnsure = false → ∃ item, pc' = dispatch item ∧ db'.Claimed item.vertexId := by
    intro hfal
    rw [hens] at hfal
    cases hfal
  cases h with
  | claimed => exact ⟨_, rfl, _, AList.lookup_insert _, rfl⟩
  | answered =>
    unfold Flory.answered at hens
    split at hens
    · cases hens
    · rw [goesOn_afterAttempt.not_isEnsure] at hens
      cases hens
  | duplicate hpc | stillSuspended hpc | ineligible hpc | deferred hpc | suspended hpc
  | requested hpc => exact hnot (loose_request_next hpc).not_isEnsure
  | ensured | opened => exact hnot (isEnsure_dispatchScoped _)
  | started => exact hnot entered_regular.goesOn.not_isEnsure
  | resolved | unresolved => exact hnot goesOn_afterAttempt.not_isEnsure
  | admitted => exact hnot entered_pivot.goesOn.not_isEnsure
  | listed | confirmed => exact hnot (isEnsure_confirmNext _ _)
  | memberClaimed => exact hnot entered_inverse.goesOn.not_isEnsure
  | failed | suspendedCancel | cancelCompleted | stuck =>
    exact hnot (Pc.Loose.not_isEnsure (by simp))
  | _ => cases hens

/-! ### Confirms -/

/-- The brackets a site still has to confirm, with their scope. -/
def Site.confirms : Site → List (ScopeId × SealedBracket)
  | .confirm item bracket rest => (bracket :: rest).map (Prod.mk item.scopeId)
  | _ => []

/-- The brackets a worker still has to confirm, with their scope. -/
def Pc.confirms : Pc → List (ScopeId × SealedBracket)
  | .record site _ | .calling site _ _ | .resolve site _ _ _ | .retry site _ _ => site.confirms
  | .confirmed item bracket rest => (bracket :: rest).map (Prod.mk item.scopeId)
  | _ => []

/-- Going on at a site confirms no more than the site. -/
theorem GoesOn.confirms (h : GoesOn site pc) : pc.confirms ⊆ site.confirms := by
  cases h with
  | finished h =>
    cases h with
    | confirmed => exact List.Subset.refl _
    | _ => exact List.nil_subset _
  | _ => exact List.Subset.refl _

theorem Pc.Loose.confirms (h : pc.Loose) : pc.confirms = [] := by
  cases h <;> rfl

theorem Handed.confirms (h : Handed item pc) : pc.confirms = [] := by
  cases h <;> rfl

/-- The loop of `confirmScope` confirms the brackets it was given. -/
theorem confirms_confirmNext (item : ScopedItem) (brackets : List SealedBracket) :
    (confirmNext item brackets).confirms ⊆ brackets.map (Prod.mk item.scopeId) := by
  cases brackets with
  | nil => exact List.nil_subset _
  | cons => exact entered_confirm.goesOn.confirms

/-- **A worker comes to confirm a bracket only by listing the sealed ones.** -/
theorem WorkerStep.confirms (h : WorkerStep cfg me db pc db' pc') {x : ScopeId × SealedBracket}
    (hx : x ∈ pc'.confirms) : x ∈ pc.confirms ∨ ∃ runId, x.2 ∈ sealedBrackets db runId x.1 := by
  have hnone : pc'.confirms = [] → x ∈ pc.confirms ∨ ∃ runId, x.2 ∈ sealedBrackets db runId x.1 := by
    intro hnone
    rw [hnone] at hx
    cases hx
  cases h with
  | duplicate hpc | stillSuspended hpc | ineligible hpc | deferred hpc | suspended hpc
  | requested hpc => exact hnone (loose_request_next hpc).confirms
  | claimed => exact hnone handed_dispatch.confirms
  | ensured | opened => exact hnone handed_dispatchScoped.confirms
  | started => cases entered_regular.goesOn.confirms hx
  | admitted => cases entered_pivot.goesOn.confirms hx
  | memberClaimed => cases entered_inverse.goesOn.confirms hx
  | failed | suspendedCancel | cancelCompleted | stuck => exact hnone (Pc.Loose.confirms (by simp))
  | answered =>
    unfold Flory.answered at hx
    split at hx
    · exact .inl hx
    · exact .inl (goesOn_afterAttempt.confirms hx)
  | resolved | unresolved => exact .inl (goesOn_afterAttempt.confirms hx)
  | recorded | retried => exact .inl hx
  | listed =>
    obtain ⟨_, hbrac, rfl⟩ := List.mem_map.mp (confirms_confirmNext _ _ hx)
    exact .inr ⟨_, hbrac⟩
  | confirmed =>
    exact .inl (List.mem_cons_of_mem _ (confirms_confirmNext _ _ hx))
  | _ => cases hx

end Moves

/-! ### The invariant -/

/-- A scope row stays. -/
theorem scope_isSome_step (h : Reachable cfg world) (hstep : step cfg world a = some world')
    (hsome : (world.db.scopes.lookup s).isSome) : (world'.db.scopes.lookup s).isSome := by
  obtain ⟨_, hrow⟩ := Option.isSome_iff_exists.mp hsome
  obtain ⟨w, hchan⟩ := scope_change h hstep s
  obtain ⟨_, hrow', -⟩ := hchan.row hrow
  rw [hrow']
  rfl

/-- A bracket of a vertex in a scope. -/
def Db.Brackets (db : Db) (s : ScopeId) (v : VertexId) : Prop :=
  ∃ key row, db.brackets.lookup key = some row ∧ row.scopeId = s ∧ row.tryVertexId = v

/-- **What stands behind the data workers hold**: the scope rows of their items, the claim of
an item whose scope is still to be created, and the brackets behind confirms and cancel
members. -/
structure Holding (world : World) : Prop where
  executor : ∀ w item, (world.workers w).stage.item? = some item →
    floryExecutorClass item.payload item.scopeId = .coordinator
  scope : ∀ w item s, (world.workers w).stage.item? = some item → item.scopeId = some s →
    item.payload ≠ .barrier → (world.workers w).isEnsure = false →
    (world.db.scopes.lookup s).isSome
  payload : ∀ w item, world.workers w = .ensure item → item.item.payload ≠ .barrier
  claimed : ∀ w item, world.workers w = .ensure item →
    world.db.Claimed item.item.vertexId ∨ (world.db.scopes.lookup item.scopeId).isSome
  confirms : ∀ w, ∀ x ∈ (world.workers w).confirms, world.db.Brackets x.1 x.2.vertexId
  member : ∀ key row, world.db.members.lookup key = some row →
    world.db.Brackets key.scopeId key.vertexId

variable {db : Db}

/-- A listed bracket is a row of its scope. -/
theorem brackets_of_sealedBrackets {runId : RunId} {bracket : SealedBracket}
    (h : bracket ∈ sealedBrackets db runId s) : db.Brackets s bracket.vertexId := by
  obtain ⟨⟨key, row⟩, hent, rfl⟩ := List.mem_map.mp h
  obtain ⟨hrow, hcond⟩ := Table.mem_rowsWhere.mp ((List.mem_insertionSort _).mp hent)
  simp only [Bool.and_eq_true, beq_iff_eq] at hcond
  exact ⟨key, row, hrow, hcond.1.1.2, rfl⟩

/-- A claim survives everything the environment does to an item of a scope. -/
theorem EnvironmentStep.claimed {db' : Db} (h : EnvironmentStep db db') {v : VertexId}
    (hrow : db.queue.lookup v = some row) (hclaim : row.claimedBy.isSome)
    (hclass : floryExecutorClass row.payload row.scopeId = .coordinator) : db'.Claimed v := by
  have hne : ∀ {v' row'}, db.queue.lookup v' = some row' →
      floryExecutorClass row'.payload row'.scopeId = .orchestrator → v ≠ v' := by
    rintro _ row' hrow' hread rfl
    obtain rfl := Option.mem_unique hrow hrow'
    cases hclass.symm.trans hread
  cases h with
  | freeze hfreez hchan => exact ⟨row, hchan.kept v row hrow, hclaim⟩
  | engineAppend hdraf happ hchan =>
    rcases hchan.queue v with hsame | ⟨-, row', hrow', hnone⟩
    · exact ⟨row, hsame.trans hrow, hclaim⟩
    obtain rfl := Option.mem_unique hrow hrow'
    rw [hnone] at hclaim
    cases hclaim
  | claimRead reader leaseMs hrow' hclass' =>
    rename_i v' row'
    by_cases hv : v = v'
    · subst hv
      exact ⟨_, AList.lookup_insert _, rfl⟩
    · exact ⟨row, (AList.lookup_insert_ne hv).trans hrow, hclaim⟩
  | completeRead hrow' hclass' =>
    exact ⟨row, (AList.lookup_erase_ne (hne hrow' hclass')).trans hrow, hclaim⟩
  | releaseRead _ hrow' hclass' =>
    exact ⟨row, (AList.lookup_insert_ne (hne hrow' hclass')).trans hrow, hclaim⟩
  | _ => exact ⟨row, hrow, hclaim⟩

/-- Ready work is of the class that claims it. -/
theorem class_of_ready {cls : ExecutorClass} (h : ready db cls row = true) :
    floryExecutorClass row.payload row.scopeId = cls := by
  simp only [ready, Bool.and_eq_true, beq_iff_eq] at h
  exact h.1.1.1

/-- A held item and a queue row of one vertex are of one class and scope. -/
theorem Frozen.row_of_item (h : Frozen world) (hitem : (world.workers w).stage.item? = some item)
    (hrow : world.db.queue.lookup item.vertexId = some row) :
    row.runId = item.runId ∧ row.scopeId = item.scopeId ∧ row.payload = item.payload := by
  have hsame := h.eq_of_vertexId (h.queued _ _ hrow) (h.held w item hitem) rfl
  simp only [QueueRow.vertex, WorkItem.vertex, CreatedVertex.mk.injEq] at hsame
  exact ⟨hsame.2.1, hsame.2.2.1, hsame.2.2.2.2⟩

/-- Two held items of one vertex are of one scope and payload. -/
theorem Frozen.item_unique (h : Frozen world) {w' : WorkerId} {item' : WorkItem}
    (hitem : (world.workers w).stage.item? = some item)
    (hitem' : (world.workers w').stage.item? = some item') (hv : item'.vertexId = item.vertexId) :
    item'.scopeId = item.scopeId ∧ item'.payload = item.payload := by
  have hsame := h.eq_of_vertexId (h.held w' item' hitem') (h.held w item hitem) hv
  simp only [WorkItem.vertex, CreatedVertex.mk.injEq] at hsame
  exact ⟨hsame.2.2.1, hsame.2.2.2.2⟩

/-- A claim whose scope is still to be created is lost only to a worker that has seen the
scope. -/
theorem Holding.claimed_move {w' : WorkerId} (h : Holding world) (hfroz : Frozen world)
    (hmove : WorkerMove cfg world a world' w) {item : ScopedItem}
    (hpc : world.workers w' = .ensure item) (hclaim : world.db.Claimed item.item.vertexId) :
    world'.db.Claimed item.item.vertexId ∨ (world.db.scopes.lookup item.scopeId).isSome := by
  obtain ⟨row, hrow, hby⟩ := hclaim
  have hitem : (world.workers w').stage.item? = some item.item := by rw [hpc]; rfl
  -- A worker past `ensure` that holds the same vertex has seen its scope.
  have hseen : ∀ held, (world.workers w).stage.item? = some held → held.vertexId = item.item.vertexId →
      (world.workers w).isEnsure = false → (world.db.scopes.lookup item.scopeId).isSome := by
    intro held hheld hv hpast
    obtain ⟨hs, hpay⟩ := hfroz.item_unique hitem hheld hv
    exact h.scope w held _ hheld (hs.trans item.inScope) (hpay ▸ h.payload w' item hpc) hpast
  have hqueue := hmove.step.queue item.item.vertexId
  rw [hrow] at hqueue
  generalize hnew : world'.db.queue.lookup item.item.vertexId = new at hqueue
  cases hqueue with
  | kept => exact .inl ⟨row, hnew, hby⟩
  | claimed => exact .inl ⟨_, hnew, rfl⟩
  | completed hpc' hv | released hpc' hv =>
    exact .inr (hseen _ (by rw [hpc']; rfl) hv (by rw [hpc']; rfl))
  | dequeued hpc' hrun hscope hlease hexis =>
    rw [(hfroz.row_of_item hitem hrow).2.1, item.inScope] at hscope
    rw [Option.some.inj hscope]
    exact .inr hexis

/-- What a moving worker holds afterwards is backed. -/
theorem Holding.own (h : Holding world) (hmove : WorkerMove cfg world a world' w)
    (hscop : ∀ s, (world.db.scopes.lookup s).isSome → (world'.db.scopes.lookup s).isSome)
    (hitem : (world'.workers w).stage.item? = some item) :
    floryExecutorClass item.payload item.scopeId = .coordinator ∧
    (∀ s, item.scopeId = some s → item.payload ≠ .barrier → (world'.workers w).isEnsure = false →
      (world'.db.scopes.lookup s).isSome) := by
  rcases hmove.step.dispatched hitem with hold | ⟨⟨-, hpc'⟩, ⟨row, hrow, hready, hver⟩, -⟩
  · refine ⟨h.executor w item hold, fun s hs hpay hpast => ?_⟩
    by_cases hens : (world.workers w).isEnsure = true
    · cases hpc : world.workers w with
      | ensure held =>
        have hstep := hmove.step
        rw [hpc] at hstep hold
        cases hold
        obtain rfl := Option.mem_unique held.inScope hs
        exact hstep.ensured_row (by simp [hitem])
      | _ => simp [hpc, Pc.isEnsure] at hens
    · exact hscop s (h.scope w item s hold hs hpay (by simpa using hens))
  · have hclass := class_of_ready hready
    simp only [QueueRow.vertex, WorkItem.vertex, CreatedVertex.mk.injEq] at hver
    refine ⟨by rw [hver.2.2.1, hver.2.2.2.2]; exact hclass, fun s hs hpay hpast => ?_⟩
    rw [hpc', isEnsure_dispatch hs hpay] at hpast
    cases hpast

/-- A bracket stays. -/
theorem Db.Brackets.step {v : VertexId} (h : world.db.Brackets s v) (hscop : Scoped world)
    (hchan : Changes cfg world a world' w) : world'.db.Brackets s v := by
  obtain ⟨key, _, hrow, hs, hv⟩ := h
  obtain ⟨_, hrow', -⟩ := hchan.bracket_some hscop hrow
  exact ⟨key, _, hrow', hs, hv⟩

/-- A cancel member was listed for a bracket. -/
theorem Holding.member_step (h : Holding world) (hscop : Scoped world)
    (hchan : Changes cfg world a world' w) {key : MemberKey} {row' : MemberRow}
    (hrow' : world'.db.members.lookup key = some row') :
    world'.db.Brackets key.scopeId key.vertexId := by
  have hmem := hchan.member key
  rw [hrow'] at hmem
  generalize hold : world.db.members.lookup key = old at hmem
  cases hmem with
  | kept => exact (h.member key row' hold).step hscop hchan
  | listed hpc hscope hopen hlease hscope' hcan hrun hundo htool hkey =>
    obtain ⟨hbrac, -, hs, -, -⟩ := mem_undoable.mp hundo
    subst hkey
    exact Db.Brackets.step ⟨_, _, hbrac, hs, rfl⟩ hscop hchan
  | claimed | completed =>
    exact (h.member key _ hold).step hscop hchan

/-- **A step keeps what stands behind held data.** -/
theorem Holding.step (h : Holding world) (hreach : Reachable cfg world)
    (hstep : step cfg world a = some world') : Holding world' := by
  have hscoped := scoped_of_reachable hreach
  have hfroz := frozen_of_reachable hreach
  have hscop : ∀ s, (world.db.scopes.lookup s).isSome → (world'.db.scopes.lookup s).isSome :=
    fun s => scope_isSome_step hreach hstep
  obtain ⟨_, hchan⟩ := changes_of_step hreach hstep
  have hbrac : ∀ {s v}, world.db.Brackets s v → world'.db.Brackets s v :=
    fun hbrack => hbrack.step hscoped hchan
  have hmem : ∀ key row, world'.db.members.lookup key = some row →
      world'.db.Brackets key.scopeId key.vertexId :=
    fun key row hrow => h.member_step hscoped hchan hrow
  rcases step_cases hstep with ⟨w, hmove⟩ | ⟨henv, hwor⟩
  · refine ⟨fun w' item hitem => ?_, fun w' item s hitem hs hpay hpast => ?_,
      fun w' item hpc' => ?_, fun w' item hpc' => ?_, fun w' x hx => ?_, hmem⟩ <;>
      by_cases hw : w' = w
    · subst hw
      exact (h.own hmove hscop hitem).1
    · rw [hmove.others w' hw] at hitem
      exact h.executor w' item hitem
    · subst hw
      exact (h.own hmove hscop hitem).2 s hs hpay hpast
    · rw [hmove.others w' hw] at hitem hpast
      exact hscop s (h.scope w' item s hitem hs hpay hpast)
    · subst hw
      obtain ⟨claimed, hnew, -⟩ := hmove.step.claimed_of_isEnsure (by rw [hpc']; rfl)
      exact (hpc' ▸ hnew ▸ handed_dispatch : Handed claimed (.ensure item)).payload
    · rw [hmove.others w' hw] at hpc'
      exact h.payload w' item hpc'
    · subst hw
      obtain ⟨claimed, hnew, hclaim⟩ := hmove.step.claimed_of_isEnsure (by rw [hpc']; rfl)
      have hitem : (dispatch claimed).stage.item? = some item.item := by rw [← hnew, hpc']; rfl
      rw [stage_dispatch] at hitem
      cases hitem
      exact .inl hclaim
    · rw [hmove.others w' hw] at hpc'
      rcases h.claimed w' item hpc' with hclaim | hsome
      · exact (h.claimed_move hfroz hmove hpc' hclaim).imp_right (hscop _)
      · exact .inr (hscop _ hsome)
    · subst hw
      rcases hmove.step.confirms hx with hold | ⟨runId, hlis⟩
      · exact hbrac (h.confirms w' x hold)
      · exact hbrac (brackets_of_sealedBrackets hlis)
    · rw [hmove.others w' hw] at hx
      exact hbrac (h.confirms w' x hx)
  · refine ⟨?_, ?_, ?_, ?_, ?_, hmem⟩ <;> rw [hwor]
    · exact h.executor
    · exact fun w item s hitem hs hpay hpast => hscop s (h.scope w item s hitem hs hpay hpast)
    · exact h.payload
    · intro w item hpc
      rcases h.claimed w item hpc with ⟨row, hrow, hclaim⟩ | hsome
      · have hitem : (world.workers w).stage.item? = some item.item := by rw [hpc]; rfl
        obtain ⟨-, hs, hpay⟩ := hfroz.row_of_item hitem hrow
        exact .inl (henv.claimed hrow hclaim (by rw [hs, hpay]; exact h.executor w _ hitem))
      · exact .inr (hscop _ hsome)
    · exact fun w x hx => hbrac (h.confirms w x hx)

/-- **What workers hold is backed in every reachable world.** -/
theorem holding_of_reachable (h : Reachable cfg world) : Holding world := by
  refine h.invariant_of (I := Holding) (fun _ hreach => hreach) ?_ ?_
  · refine ⟨?_, ?_, ?_, ?_, ?_, ?_⟩ <;>
      simp [World.initial, Pc.stage, Stage.item?, Pc.confirms]
  · intro mid mid' a hmid _ hhol _ hstep
    exact hhol.step hmid hstep

end Flory
