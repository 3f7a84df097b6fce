import Flory.Holding
import Flory.Submission
import Flory.Undo

/-!
# Closed Scopes and Later Freezes

A freeze reads every scope row of its run under `lock_run_scopes` and is refused while one of
them blocks it. A committed or cancelled row blocks it through one fact only: a bracket that
is still sealed past its deadline. `confirmScope` leaves no bracket sealed that declares a
confirm tool, since the list it works through holds every such bracket and no try seals once
the pivot is admitted; a saga's bracket declares none, is not in the list, and stays sealed in
the committed scope.

## Main results

* `confirming_of_reachable`: the confirms a worker has left cover the sealed brackets of its
  scope that declare a confirm tool, and a committed scope has none.
* `committed_scope_confirmed`: the tries of a committed scope are confirmed.
* `closed_scopes_never_gate`: where every try declares a confirm tool and every cancellation
  is decided with the succeeded tries sealed, closed scopes accept every later freeze.
* `closed_scopes_gate`: a committed saga and a try sealed behind its cancellation refuse every
  later freeze of their run.
-/

namespace Flory

variable {cfg : Config} {s : ScopeId} {scope : ScopeRow} {key : String} {world : World}

/-! ### The confirms left -/

/-- The confirms a site has left, once `confirmScope` has listed them. -/
def Site.todo : Site → Option (ScopedItem × List SealedBracket)
  | .confirm item bracket rest => some (item, bracket :: rest)
  | _ => none

/-- The confirms a worker has left before it commits its scope. -/
def Pc.todo : Pc → Option (ScopedItem × List SealedBracket)
  | .record site _ | .calling site _ _ | .resolve site _ _ _ | .retry site _ _ => site.todo
  | .confirmed item bracket rest => some (item, bracket :: rest)
  | .commit item => some (item, [])
  | _ => none

variable {db : Db}

section Moves

variable {pc pc' : Pc} {site : Site} {item : ScopedItem} {todo : List SealedBracket}

theorem GoesOn.todo_eq (h : GoesOn site pc) (htodo : pc.todo = some (item, todo)) :
    site.todo = some (item, todo) := by
  cases h with
  | finished h =>
    cases h with
    | confirmed => exact htodo
    | _ => cases htodo
  | _ => exact htodo

theorem Pc.Loose.no_todo (h : pc.Loose) : pc.todo = none := by
  cases h <;> rfl

theorem Handed.no_todo {work : WorkItem} (h : Handed work pc) : pc.todo = none := by
  cases h <;> rfl

/-- The loop of `confirmScope` has the brackets left that it was given. -/
theorem todo_confirmNext {held : ScopedItem} {brackets : List SealedBracket}
    (htodo : (confirmNext held brackets).todo = some (item, todo)) :
    item = held ∧ todo = brackets := by
  cases brackets with
  | nil =>
    cases htodo
    exact ⟨rfl, rfl⟩
  | cons =>
    have hsite := entered_confirm.goesOn.todo_eq htodo
    cases hsite
    exact ⟨rfl, rfl⟩

/-- A worker with confirms left holds the passed pivot of their scope. -/
theorem stage_of_todo (htodo : pc.todo = some (item, todo)) : pc.stage = .passed item := by
  have hsite : ∀ site : Site, site.todo = some (item, todo) → site.stage = .passed item := by
    intro site hsite
    cases site with
    | confirm => cases hsite; rfl
    | _ => cases hsite
  cases pc with
  | record site | calling site | resolve site | retry site => exact hsite site htodo
  | confirmed | commit => cases htodo; rfl
  | _ => cases htodo

/-- **How the confirms left come about**: they were left before, `SealedBrackets` listed them,
or the one in front of them was just made. -/
theorem WorkerStep.todo_cases {me : WorkerId} {db' : Db} (h : WorkerStep cfg me db pc db' pc')
    (htodo : pc'.todo = some (item, todo)) :
    pc.todo = some (item, todo) ∨
      (pc.stage = .passed item ∧ db' = db ∧ todo = sealedBrackets db item.item.runId item.scopeId) ∨
      ∃ bracket, pc.todo = some (item, bracket :: todo) ∧
        ∀ row, db'.brackets.lookup bracket.idempotencyKey = some row → row.state = .confirmed := by
  have hnone : pc'.todo ≠ none := by simp [htodo]
  cases h with
  | duplicate hpc | stillSuspended hpc | ineligible hpc | deferred hpc | suspended hpc
  | requested hpc => exact absurd (loose_request_next hpc).no_todo hnone
  | claimed => exact absurd handed_dispatch.no_todo hnone
  | ensured | opened => exact absurd handed_dispatchScoped.no_todo hnone
  | started => cases entered_regular.goesOn.todo_eq htodo
  | admitted => cases entered_pivot.goesOn.todo_eq htodo
  | memberClaimed => cases entered_inverse.goesOn.todo_eq htodo
  | failed | suspendedCancel | cancelCompleted | stuck =>
    exact absurd (Pc.Loose.no_todo (by simp)) hnone
  | answered =>
    unfold Flory.answered at htodo
    split at htodo
    · exact .inl htodo
    · exact .inl (goesOn_afterAttempt.todo_eq htodo)
  | resolved | unresolved => exact .inl (goesOn_afterAttempt.todo_eq htodo)
  | recorded | retried => exact .inl htodo
  | listed =>
    obtain ⟨rfl, rfl⟩ := todo_confirmNext htodo
    exact .inr (.inl ⟨rfl, rfl, rfl⟩)
  | confirmed =>
    obtain ⟨rfl, rfl⟩ := todo_confirmNext htodo
    refine .inr (.inr ⟨_, rfl, fun row hrow => ?_⟩)
    rw [AList.lookup_insert] at hrow
    cases hrow
    rfl
  | _ => cases htodo

end Moves

/-! ### Confirmable brackets -/

/-- A sealed bracket of a scope that declares a confirm tool. -/
def Db.Confirmable (db : Db) (s : ScopeId) (key : String) : Prop :=
  ∃ row, db.brackets.lookup key = some row ∧ row.scopeId = s ∧ row.state = .sealed ∧
    row.confirmTool.isSome

/-- `SealedBrackets` lists every confirmable bracket of its scope. -/
theorem mem_sealedBrackets {runId : RunId} (h : db.Confirmable s key)
    (hrun : ∀ row, db.brackets.lookup key = some row → row.runId = runId) :
    ∃ bracket ∈ sealedBrackets db runId s, bracket.idempotencyKey = key := by
  obtain ⟨row, hrow, hs, hstate, hcon⟩ := h
  refine ⟨row.confirmWork key, List.mem_map.mpr ⟨(key, row), ?_, rfl⟩, rfl⟩
  rw [List.mem_insertionSort, Table.mem_rowsWhere]
  exact ⟨hrow, by simp [hrun row hrow, hs, hstate, hcon]⟩

section Step

variable {world' : World} {a : Action} {w : WorkerId}

/-- No try seals in a scope whose pivot was admitted: all its tries have sealed. -/
theorem bracket_of_admitted (h : Reachable cfg world) (hchan : Changes cfg world a world' w)
    {row' : BracketRow} (hrow' : world'.db.brackets.lookup key = some row')
    (hscope : world.db.scopes.lookup row'.scopeId = some scope)
    (hadm : scope.state.isAdmitted = true) :
    ∃ row, world.db.brackets.lookup key = some row ∧ row.scopeId = row'.scopeId ∧
      row.confirmTool = row'.confirmTool ∧ (row'.state = .sealed → row.state = .sealed) := by
  have hfroz := frozen_of_reachable h
  have hscop := scoped_of_reachable h
  have hbrac := bracketed_of_reachable h
  rcases hchan.bracket_cases hscop hrow' with ⟨row, hrow, state, rfl, hcas⟩ |
    ⟨hnone, item, result, deadline, s, hpc, hs, htry, hkey, -, rfl⟩
  · refine ⟨row, hrow, rfl, rfl, fun hseal => ?_⟩
    rcases hcas with rfl | ⟨rfl, -⟩ | ⟨rfl, -⟩
    · exact hseal
    · cases hseal
    · cases hseal
  · have hitem : item.vertex ∈ world.db.vertices := hfroz.held w item (by rw [hpc]; rfl)
    obtain ⟨u, hu, hus, hurun⟩ := hscop.member s scope hscope
    have hreq : item.vertexId ∈ scope.requiredTryVertices := by
      rw [hscop.required s scope hscope, mem_requiredTries]
      exact ⟨item.vertex, hitem, rfl, (hfroz.scopes _ hitem u hu s hs hus).trans hurun, hs,
        by rw [tool_txn, txn_mode] at htry; exact htry⟩
    obtain ⟨key', row, hrow, hver, -⟩ := hbrac.complete s scope hscope hadm _ hreq
    obtain ⟨v, hv, hof⟩ := hbrac.owner key' row hrow
    obtain rfl := hfroz.eq_of_vertexId hv hitem (hof.vertex.symm.trans hver)
    have hkey' : key' = key := by
      rw [← hof.key, ← hkey, tool_txn]
      rfl
    rw [hkey', hnone] at hrow
    cases hrow

/-- A confirmable bracket of a scope whose pivot was admitted was confirmable before. -/
theorem Db.Confirmable.of_step (h : world'.db.Confirmable s key) (hreach : Reachable cfg world)
    (hchan : Changes cfg world a world' w) (hscope : world.db.scopes.lookup s = some scope)
    (hadm : scope.state.isAdmitted = true) : world.db.Confirmable s key := by
  obtain ⟨_, hrow', rfl, hstate, hcon⟩ := h
  obtain ⟨row, hrow, hs, htool, hseal⟩ := bracket_of_admitted hreach hchan hrow' hscope hadm
  exact ⟨row, hrow, hs, hseal hstate, htool ▸ hcon⟩

end Step

/-! ### The confirms of a committed scope -/

/-- **Confirms cover their scope**: what a worker has left covers the confirmable brackets of
its scope, and a committed scope has none. -/
structure Confirming (world : World) : Prop where
  listed : ∀ w item todo, (world.workers w).todo = some (item, todo) → ∀ key,
    world.db.Confirmable item.scopeId key → ∃ bracket ∈ todo, bracket.idempotencyKey = key
  committed : ∀ s scope, world.db.scopes.lookup s = some scope → scope.state = .committed →
    ∀ key, ¬ world.db.Confirmable s key

section Step

variable {world' : World} {a : Action} {w w₀ : WorkerId}

/-- The list of a worker that moves. -/
theorem Confirming.moved (hcon : Confirming world) (h : Reachable cfg world)
    (hchan : Changes cfg world a world' w₀) (hmove : WorkerMove cfg world a world' w)
    {item : ScopedItem} {todo : List SealedBracket}
    (htodo : (world'.workers w).todo = some (item, todo))
    (hkey : world'.db.Confirmable item.scopeId key) :
    ∃ bracket ∈ todo, bracket.idempotencyKey = key := by
  have hscop := scoped_of_reachable h
  have hold : ∀ scope, world.db.scopes.lookup item.scopeId = some scope →
      scope.state = .pivotPassed → world.db.Confirmable item.scopeId key :=
    fun scope hscope hpas => hkey.of_step h hchan hscope (by rw [hpas]; rfl)
  rcases hmove.step.todo_cases htodo with hsame | ⟨hstage, -, rfl⟩ | ⟨bracket, hbef, hdone⟩
  · obtain ⟨scope, hscope, -, hpas⟩ := hscop.passed w item (stage_of_todo hsame)
    exact hcon.listed w item todo hsame key (hold scope hscope hpas)
  · obtain ⟨scope, hscope, hrun, hpas⟩ := hscop.passed w item hstage
    have hbef := hold scope hscope hpas
    obtain ⟨row, hrow, hs, -⟩ := id hbef
    refine mem_sealedBrackets hbef fun row' hrow' => ?_
    obtain rfl := Option.mem_unique hrow hrow'
    rw [← hrun]
    exact ((bracketed_of_reachable h).run_eq (frozen_of_reachable h) hscop hrow (hs ▸ hscope)).symm
  · obtain ⟨scope, hscope, -, hpas⟩ := hscop.passed w item (stage_of_todo hbef)
    obtain ⟨found, hfound, heq⟩ :=
      hcon.listed w item _ hbef key (hold scope hscope hpas)
    rcases List.mem_cons.mp hfound with rfl | hrest
    · -- the bracket in front was just confirmed, so it is sealed no more
      obtain ⟨row, hrow, -, hstate, -⟩ := hkey
      rw [← heq] at hrow
      rw [hdone row hrow] at hstate
      cases hstate
    · exact ⟨found, hrest, heq⟩

/-- A scope becomes committed by the commit of the worker that holds its pivot. -/
theorem StateMove.commits {scope' : ScopeRow} (h : StateMove world world' w s scope scope')
    (hcom : scope'.state = .committed) :
    scope.state = .committed ∨ ∃ item, world.workers w = .commit item ∧ item.scopeId = s := by
  cases h with
  | kept hstate => exact .inl (hstate.symm.trans hcom)
  | committed hpc hs => exact .inr ⟨_, hpc, hs⟩
  | _ => simp_all

/-- A worker's move keeps the confirms in step with the brackets. -/
theorem Confirming.move (hcon : Confirming world) (h : Reachable cfg world)
    (hchan : Changes cfg world a world' w₀) (hmove : WorkerMove cfg world a world' w) :
    Confirming world' where
  listed := by
    intro w' item todo htodo key hkey
    by_cases hw : w' = w
    · subst hw
      exact hcon.moved h hchan hmove htodo hkey
    rw [hmove.others w' hw] at htodo
    obtain ⟨scope, hscope, -, hpas⟩ :=
      (scoped_of_reachable h).passed w' item (stage_of_todo htodo)
    exact hcon.listed w' item todo htodo key (hkey.of_step h hchan hscope (by rw [hpas]; rfl))
  committed := by
    intro s scope' hscope' hcom key hkey
    have hchang := hmove.step.scopeChange (scoped_of_reachable h) (frozen_of_reachable h)
      world'.workers s
    rcases hchang.origin hscope' with ⟨hopen, -⟩ | ⟨scope, hscope, hrow⟩
    · rw [hopen] at hcom
      cases hcom
    rcases hrow.move.commits hcom with hbef | ⟨item, hpc, rfl⟩
    · exact hcon.committed s scope hscope hbef key (hkey.of_step h hchan hscope (by rw [hbef]; rfl))
    have htodo : (world.workers w).todo = some (item, []) := by rw [hpc]; rfl
    obtain ⟨_, hheld, -, hpas⟩ :=
      (scoped_of_reachable h).passed w item (stage_of_todo htodo)
    obtain ⟨_, hbrac, -⟩ := hcon.listed w item [] htodo key
      (hkey.of_step h hchan hheld (by rw [hpas]; rfl))
    cases hbrac

/-- The environment leaves brackets, workers and scope states alone. -/
theorem Confirming.environment (hcon : Confirming world)
    (henv : EnvironmentStep world.db world'.db) (hwor : world'.workers = world.workers) :
    Confirming world' where
  listed := by
    intro w item todo htodo key hkey
    rw [hwor] at htodo
    unfold Db.Confirmable at hkey
    rw [henv.brackets] at hkey
    exact hcon.listed w item todo htodo key hkey
  committed := by
    intro s scope' hscope' hcom key hkey
    have hstate := henv.scope_state s
    rw [hscope', Option.map_some, hcom] at hstate
    obtain ⟨scope, hscope, hcom⟩ := Option.map_eq_some_iff.mp hstate.symm
    unfold Db.Confirmable at hkey
    rw [henv.brackets] at hkey
    exact hcon.committed s scope hscope hcom key hkey

end Step

/-- In every reachable world the confirms left cover their scope. -/
theorem confirming_of_reachable (h : Reachable cfg world) : Confirming world := by
  refine h.invariant_of (fun _ hreach => hreach)
    ⟨fun w item todo htodo => by simp [World.initial, Pc.todo] at htodo,
      by simp [World.initial]⟩ ?_
  intro mid mid' a hmid _ hcon _ hstep
  rcases step_cases hstep with ⟨w, hmove⟩ | ⟨henv, hwor⟩
  · obtain ⟨w₀, hchan⟩ := changes_of_step hmid hstep
    exact hcon.move hmid hchan hmove
  · exact hcon.environment henv hwor

/-- **A committed scope is confirmed**: no bracket of it that declares a confirm tool is left
sealed or was cancelled. -/
theorem committed_scope_confirmed {row : BracketRow} (h : Reachable cfg world)
    (hrow : world.db.brackets.lookup key = some row) (hcon : row.confirmTool.isSome)
    (hscope : world.db.scopes.lookup row.scopeId = some scope) (hcom : scope.state = .committed) :
    row.state = .confirmed := by
  cases hstate : row.state with
  | confirmed => rfl
  | sealed =>
    exact absurd ⟨row, hrow, rfl, hstate, hcon⟩
      ((confirming_of_reachable h).committed _ scope hscope hcom key)
  | cancelled =>
    have hside := (bracketed_of_reachable h).cancelled key row scope hrow hscope hstate
    rw [hcom] at hside
    cases hside

/-! ### Freezes after closed scopes -/

/-- Every try of a scope declares a confirm tool: the members are tcc, none a saga. -/
def confirmedTries (vertices : List FrozenVertex) : Bool :=
  vertices.all fun v => v.scopeId.isNone || !v.payload.mode.isTry ||
    (optionalString v.payload.txn.confirmTool).isSome

/-- The condition on a run: a cancellation is decided with the succeeded tries of its scope
sealed, and a freeze adds tries with a confirm tool only. -/
def closesBrackets (world : World) (a : Action) : Bool :=
  triesSealed world a && match a with
    | .freeze _ vertices _ => confirmedTries vertices
    | _ => true

/-- In such a run every created try of a scope declares a confirm tool. -/
theorem confirmTool_of_reachable
    (h : ReachableUnder cfg (fun world a => closesBrackets world a = true) world) :
    ∀ v ∈ world.db.vertices, v.scopeId.isSome → v.payload.mode.isTry = true →
      (optionalString v.payload.txn.confirmTool).isSome := by
  refine created_forall (fun mid runId frozen seq hall fv hfv hs htry => ?_) h
  have hrule := List.all_eq_true.mp (Bool.and_eq_true_iff.mp hall).2 fv hfv
  simp only [FrozenVertex.vertex] at hs htry ⊢
  simpa [Option.isNone_eq_false_iff.mpr hs, htry] using hrule

/-- In such a run every bracket declares a confirm tool. -/
theorem confirmable_of_reachable
    (h : ReachableUnder cfg (fun world a => closesBrackets world a = true) world) :
    ∀ key row, world.db.brackets.lookup key = some row → row.confirmTool.isSome := by
  refine h.invariant_of (I := fun world => ∀ key row, world.db.brackets.lookup key = some row →
    row.confirmTool.isSome) (fun _ hreach => hreach) (by simp [World.initial]) ?_
  intro mid mid' a hmid _ hcon _ hstep key row' hrow'
  have hreach : Reachable cfg mid := hmid.any
  obtain ⟨w, hchan⟩ := changes_of_step hreach hstep
  rcases hchan.bracket_cases (scoped_of_reachable hreach) hrow' with ⟨row, hrow, state, rfl, -⟩ |
    ⟨-, item, result, deadline, s, hpc, hs, htry, -, -, rfl⟩
  · exact hcon key row hrow
  have hitem : item.vertex ∈ mid.db.vertices :=
    (frozen_of_reachable hreach).held w item (by rw [hpc]; rfl)
  have hconf := confirmTool_of_reachable hmid item.vertex hitem
    (Option.isSome_of_eq_some hs) (by rw [tool_txn, txn_mode] at htry; exact htry)
  change (optionalString item.tool.txn.confirmTool).isSome = true
  rw [tool_txn]
  exact hconf

/-- A closed scope without a sealed bracket blocks no freeze. -/
theorem admissionBlock_of_closed (hclos : scope.state = .committed ∨ scope.state = .cancelled)
    (hseal : ∀ key row, db.brackets.lookup key = some row → row.scopeId = s → row.state ≠ .sealed) :
    (rowToScopeSnapshot (scope.locked db s)).admissionBlock = none := by
  have hexp : expiredTry db s = false := by
    refine Table.anyRow_eq_false_iff.mpr fun key row hrow => ?_
    by_cases hs : row.scopeId = s
    · simp [hseal key row hrow hs]
    · simp [hs]
  rcases hclos with hstate | hstate <;>
    simp [rowToScopeSnapshot, ScopeRow.locked, admissionBlock, hstate, hexp]

theorem checkScopeAdmission_eq_nil {scopes : List ScopeSnapshot}
    (h : ∀ scope ∈ scopes, scope.admissionBlock = none) : checkScopeAdmission scopes = [] :=
  List.flatMap_eq_nil_iff.mpr fun scope hscope => by simp [h scope hscope]

/-- **Closed scopes never gate a freeze**: in every run that freezes tries with a confirm tool
only, and decides cancellations with the succeeded tries sealed, the snapshot of a run whose
scopes are all committed or cancelled carries no block, and `checkScopeAdmission` accepts it. -/
theorem closed_scopes_never_gate {cfg : Config} {world : World}
    (h : ReachableUnder cfg (fun world a => closesBrackets world a = true) world) {runId : RunId}
    (hclosed : ∀ s scope, world.db.scopes.lookup s = some scope → scope.runId = runId →
      scope.state = .committed ∨ scope.state = .cancelled) (keys : List String) :
    (∀ scope ∈ (readAdmissionContext world.db runId keys).scopes, scope.admissionBlock = none) ∧
      checkScopeAdmission (readAdmissionContext world.db runId keys).scopes = [] := by
  have hbloc : ∀ scope ∈ (readAdmissionContext world.db runId keys).scopes,
      scope.admissionBlock = none := by
    intro snapshot hsnap
    obtain ⟨_, hloc, rfl⟩ := List.mem_map.mp hsnap
    obtain ⟨⟨s, scope⟩, hmem, rfl⟩ := List.mem_map.mp hloc
    rw [List.mem_insertionSort, Table.mem_rowsWhere] at hmem
    obtain ⟨hscope, hrun⟩ := hmem
    have hstate := hclosed s scope hscope (by simpa using hrun)
    refine admissionBlock_of_closed hstate fun key row hrow hs hseal => ?_
    rcases hstate with hcom | hcan
    · exact (confirming_of_reachable h.any).committed s scope hscope hcom key
        ⟨row, hrow, hs, hseal, confirmable_of_reachable h key row hrow⟩
    have hund := undone_of_reachable (h.mono fun _ _ hall =>
      (Bool.and_eq_true_iff.mp hall).1)
    exact hund.unsealed s scope hscope hcan key row hrow hs hseal
  exact ⟨hbloc, checkScopeAdmission_eq_nil hbloc⟩

/-- A vertex that calls a saga tool: it declares a compensation and no confirm. -/
def sagaVertex (v : VertexId) (parents : List VertexId) (s : ScopeId) (key : String) :
    FrozenVertex where
  vertexId := v
  parentRefs := parents
  scopeId := some s
  payload := .tool { tool := "book", txn :=
    { effectClass := .reversible, mode := .saga, idempotencyKey := key, tryTimeoutS := 60,
      compensateTool := "refund" } }
  companions := rfl

/-- A try, then the answered call of its scope's pivot. -/
def payFor (member : FrozenVertex) : List Action :=
  [.createRun 1, .freeze 1 [member, pivotVertex 12 [10] 5 "p"]] ++ callNext 1 ++
    [reply 1 .succeeded] ++ drive 1 3 ++ .poll 1 :: drive 1 5 ++ [reply 1 .succeeded]

/-- A tcc try, confirmed and committed, and its deadline gone by. -/
def tccCommitted : List Action :=
  payFor (tccVertex 10 [] 5 "a") ++ drive 1 4 ++ [reply 1 .succeeded] ++ drive 1 4 ++ [.tick 61000]

/-- The bracket of the tcc try. -/
theorem committed_scope_confirmed_tcc : ∃ row,
    (World.after {} tccCommitted).db.brackets.lookup "a" = some row ∧ row.state = .confirmed :=
  have h : Reachable {} (World.after {} tccCommitted) := reachable_after (by decide +kernel)
  have hrow := (Option.some_get (by decide +kernel)).symm
  ⟨_, hrow, committed_scope_confirmed h hrow (by decide +kernel)
    (Option.some_get (by decide +kernel)).symm (by decide +kernel)⟩

/-- Whether every scope of run 1 is closed. -/
def allClosed (db : Db) : Bool :=
  !db.scopes.anyRow fun _ row => row.runId == 1 && row.state != .committed && row.state != .cancelled

/-- The scopes of a run as `allClosed` tests them. -/
theorem closed_of_allClosed (h : allClosed db = true) (hscope : db.scopes.lookup s = some scope)
    (hrun : scope.runId = 1) : scope.state = .committed ∨ scope.state = .cancelled := by
  have hrow := Table.anyRow_eq_false_iff.mp (by simpa [allClosed] using h) s scope hscope
  by_cases hcom : scope.state = .committed
  · exact .inl hcom
  · exact .inr (by simpa [hrun, hcom] using hrow)

/-- A committed tcc scope past the deadline of its try lets the next freeze pass. -/
theorem closed_scopes_never_gate_tccCommitted :
    ((World.afterUnder {} closesBrackets tccCommitted).db.scopes.lookup 5).map ScopeRow.state =
        some .committed ∧
      checkScopeAdmission
        (readAdmissionContext (World.afterUnder {} closesBrackets tccCommitted).db 1 []).scopes = [] :=
  ⟨by decide +kernel, (closed_scopes_never_gate (reachable_afterUnder (by decide +kernel))
    (fun _ _ hscope hrun => closed_of_allClosed (by decide +kernel) hscope hrun) []).2⟩

/-- A saga, its scope committed, and the deadline of its try gone by. -/
def sagaCommitted : List Action :=
  payFor (sagaVertex 10 [] 5 "a") ++ drive 1 5 ++ [.tick 61000]

/-- A try sealed behind its cancellation, and its deadline gone by. -/
def lateTryExpired : List Action :=
  lateTry ++ drive 1 2 ++ [.tick 61000]

/-- **A closed scope can gate every later freeze**: after the commit of a scope with a saga
member, and after a cancellation that a late try survived, the run's only scope is closed and
its snapshot carries the block of an expired try, so `checkScopeAdmission` refuses. -/
theorem closed_scopes_gate :
    (∃ world, Reachable {} world ∧ allClosed world.db = true ∧
      (world.db.scopes.lookup 5).map ScopeRow.state = some .committed ∧
      (readAdmissionContext world.db 1 []).scopes.map ScopeSnapshot.admissionBlock =
        [some .expiredTry] ∧
      checkScopeAdmission (readAdmissionContext world.db 1 []).scopes ≠ []) ∧
    ∃ world, Reachable {} world ∧ allClosed world.db = true ∧
      (world.db.scopes.lookup 5).map ScopeRow.state = some .cancelled ∧
      (readAdmissionContext world.db 1 []).scopes.map ScopeSnapshot.admissionBlock =
        [some .expiredTry] ∧
      checkScopeAdmission (readAdmissionContext world.db 1 []).scopes ≠ [] :=
  ⟨⟨World.after {} sagaCommitted, reachable_after (by decide +kernel), by decide +kernel,
      by decide +kernel, by decide +kernel, by decide +kernel⟩,
    World.after {} lateTryExpired, reachable_after (by decide +kernel), by decide +kernel,
    by decide +kernel, by decide +kernel, by decide +kernel⟩

end Flory
