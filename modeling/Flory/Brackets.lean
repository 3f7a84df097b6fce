import Flory.Attempts

/-!
# Brackets and the Parallel Pivot

A bracket is the sealed evidence of one successful try. It is keyed by the idempotency key
of its vertex, and a vertex has one key from its freeze on, so no vertex has two brackets;
the count that `admit_pivot` makes of the sealed brackets of a scope is therefore a count
of vertices, and once it reaches the number of required tries every one of them is sealed.

## Main results

* `bracketed_of_reachable`: brackets, their vertices and their scopes agree in every
  reachable world.
* `parallel_pivot_safety`: from its admission on a pivot is backed by exactly one sealed or
  confirmed bracket for every try of its scope, however many there are, and no inverse of
  the scope was ever attempted.
-/

namespace Flory

variable {key : String} {s : ScopeId} {world : World}

/-! ### Brackets and vertices -/

/-- The transaction half of a vertex, as a worker decodes it. -/
def VertexPayload.txn : VertexPayload → TransactionSpec
  | .tool payload => payload.txn
  | _ => { effectClass := .none, mode := .plain }

theorem tool_of_effect {payload : VertexPayload} (h : payload.txn.effectClass ≠ .none) :
    ∃ tool, payload = .tool tool := by
  cases payload with
  | tool tool => exact ⟨tool, rfl⟩
  | _ => exact absurd rfl h

@[simp] theorem txn_mode (payload : VertexPayload) : payload.txn.mode = payload.mode := by
  cases payload <;> rfl

@[simp] theorem tool_txn (item : WorkItem) : item.tool.txn = item.payload.txn := by
  unfold WorkItem.tool
  cases item.payload <;> rfl

/-- The inverse tool of a vertex: its cancel tool, or else its compensation. -/
def TransactionSpec.inverseTool (txn : TransactionSpec) : Option String :=
  (optionalString txn.cancelTool).or (optionalString txn.compensateTool)

/-- A try that declares its companions has an inverse tool. -/
theorem inverseTool_isSome {payload : VertexPayload} (htry : payload.mode.isTry = true)
    (h : payload.declaresCompanions = true) : payload.txn.inverseTool.isSome := by
  cases payload with
  | tool payload =>
    simp only [VertexPayload.declaresCompanions, TransactionSpec.declaresCompanions] at h
    simp only [VertexPayload.txn, TransactionSpec.inverseTool, optionalString]
    simp only [VertexPayload.mode] at htry
    cases hmode : payload.txn.mode <;> simp_all [Mode.isTry]
  | _ => cases htry

/-- The bracket of a created vertex under its key. -/
structure BracketRow.Of (row : BracketRow) (key : String) (v : CreatedVertex) : Prop where
  vertex : row.tryVertexId = v.vertexId
  run : row.runId = v.runId
  scope : v.scopeId = some row.scopeId
  isTry : v.payload.mode.isTry = true
  key : v.payload.txn.idempotencyKey = key
  inverse : row.inverseTool = v.payload.txn.inverseTool

/-- The bracket a success seals is that of its vertex. -/
theorem sealedRow_of (db : Db) {item : WorkItem} (deadline : Time) (hs : item.scopeId = some s)
    (htry : item.tool.txn.mode.isTry = true) :
    (sealedRow db item s deadline).Of item.tool.txn.idempotencyKey item.vertex where
  vertex := rfl
  run := rfl
  scope := hs
  isTry := by simpa [WorkItem.vertex] using htry
  key := by simp [WorkItem.vertex]
  inverse := by
    simp [sealedRow, projectTry, tryPayload, BracketRow.inverseTool, TransactionSpec.inverseTool,
      WorkItem.vertex]

variable {row : BracketRow}

theorem BracketRow.Of.state {v : CreatedVertex} (h : row.Of key v) (state : BracketState) :
    ({ row with state := state } : BracketRow).Of key v :=
  ⟨h.vertex, h.run, h.scope, h.isTry, h.key, h.inverse⟩

/-- Whether a scope state follows the admission of its pivot. -/
def ScopeState.isAdmitted : ScopeState → Bool
  | .pivotInflight | .pivotPassed | .committed => true
  | _ => false

/-- Whether a scope state follows a passed pivot. -/
def ScopeState.isPassed : ScopeState → Bool
  | .pivotPassed | .committed | .suspended => true
  | _ => false

/-- **Brackets, vertices and scopes.** A bracket is that of a created try under the try's
key, in an existing scope. It is confirmed behind a passed pivot only and cancelled behind
a cancellation only, and behind an admission every required try has one. -/
structure Bracketed (world : World) : Prop where
  owner : ∀ key row, world.db.brackets.lookup key = some row →
    ∃ v ∈ world.db.vertices, row.Of key v
  scope : ∀ key row, world.db.brackets.lookup key = some row →
    (world.db.scopes.lookup row.scopeId).isSome
  confirmed : ∀ key row scope, world.db.brackets.lookup key = some row →
    world.db.scopes.lookup row.scopeId = some scope → row.state = .confirmed →
    scope.state.isPassed = true
  cancelled : ∀ key row scope, world.db.brackets.lookup key = some row →
    world.db.scopes.lookup row.scopeId = some scope → row.state = .cancelled →
    scope.state.isCancelSide = true
  complete : ∀ s scope, world.db.scopes.lookup s = some scope → scope.state.isAdmitted = true →
    ∀ v ∈ scope.requiredTryVertices, ∃ key row, world.db.brackets.lookup key = some row ∧
      row.tryVertexId = v ∧ row.scopeId = s ∧ row.state ≠ .cancelled

variable {row' : BracketRow}

/-- A vertex has at most one bracket. -/
theorem Bracketed.key_unique (hbracketed : Bracketed world) (hfrozen : Frozen world)
    {key' : String} (hrow : world.db.brackets.lookup key = some row)
    (hrow' : world.db.brackets.lookup key' = some row') (hv : row.tryVertexId = row'.tryVertexId) :
    key = key' := by
  obtain ⟨v, hmem, hof⟩ := hbracketed.owner key row hrow
  obtain ⟨v', hmem', hof'⟩ := hbracketed.owner key' row' hrow'
  obtain rfl := hfrozen.eq_of_vertexId hmem hmem' (by rw [← hof.vertex, ← hof'.vertex, hv])
  exact hof.key.symm.trans hof'.key

variable {scope : ScopeRow}

/-- The run of a bracket is that of its scope. -/
theorem Bracketed.run_eq (hbracketed : Bracketed world) (hfrozen : Frozen world)
    (hscoped : Scoped world) (hrow : world.db.brackets.lookup key = some row)
    (hscope : world.db.scopes.lookup row.scopeId = some scope) : scope.runId = row.runId := by
  obtain ⟨v, hmem, hof⟩ := hbracketed.owner key row hrow
  obtain ⟨v', hmem', hs', hrun'⟩ := hscoped.member _ _ hscope
  rw [← hrun', hof.run]
  exact hfrozen.scopes v' hmem' v hmem row.scopeId hs' hof.scope

/-- **Admission counts vertices**: when as many brackets are sealed as tries are required,
every required try has a sealed bracket. -/
theorem Bracketed.sealed_of_count (hbracketed : Bracketed world) (hfrozen : Frozen world)
    {runId : RunId} (hcount : sealedCount world.db runId s scope = scope.requiredTryVertices.length)
    {v : VertexId} (hv : v ∈ scope.requiredTryVertices) :
    ∃ key row, world.db.brackets.lookup key = some row ∧ row.tryVertexId = v ∧
      row.scopeId = s ∧ row.state = .sealed := by
  obtain ⟨key, row, hrow, hcond, hname⟩ := Table.exists_of_countRows_eq (fun key row _ hcond => by
      simp only [Bool.and_eq_true, List.contains_iff_mem] at hcond
      exact hcond.2)
    (fun key row key' row' hrow _ hrow' _ hname => hbracketed.key_unique hfrozen hrow hrow' hname)
    hcount hv
  simp only [Bool.and_eq_true, beq_iff_eq] at hcond
  exact ⟨key, row, hrow, hname, hcond.1.1.2, hcond.1.2⟩

/-! ### The invariant is kept -/

section Moves

variable {world' : World} {w : WorkerId} {scope' : ScopeRow}

/-- Behind a passed pivot a scope stays there. -/
theorem StateMove.isPassed (hmove : StateMove world world' w s scope scope')
    (hpas : scope.state.isPassed = true) : scope'.state.isPassed = true := by
  cases hmove with
  | kept hstate => rw [hstate]; exact hpas
  | passed _ _ _ hstate' | abandoned _ _ _ hstate' | committed _ _ _ hstate'
  | suspendedOpen _ hstate' | suspendedCancel _ _ _ _ hstate' => rw [hstate']; rfl
  | _ => simp_all [ScopeState.isPassed]

/-- An admitted scope was admitted before, or all its tries are counted now. -/
theorem StateMove.isAdmitted (hmove : StateMove world world' w s scope scope')
    (hadm' : scope'.state.isAdmitted = true) :
    scope.state.isAdmitted = true ∨ (scope.state = .opened ∧
      sealedCount world.db scope.runId s scope = scope.requiredTryVertices.length) := by
  cases hmove with
  | kept hstate => exact .inl (hstate ▸ hadm')
  | admitted _ _ hstate _ hseal => exact .inr ⟨hstate, hseal⟩
  | passed _ _ hstate | committed _ _ hstate => exact .inl (by rw [hstate]; rfl)
  | _ => simp_all [ScopeState.isAdmitted]

end Moves

section Step

variable {cfg : Config} {world world' : World} {a : Action} {w : WorkerId}

/-- The state a bracket may change to: confirmed behind a passed pivot, and cancelled behind a
cancellation. -/
def Db.Settles (db : Db) (row : BracketRow) (state : BracketState) : Prop :=
  state = row.state ∨
    (state = .confirmed ∧
      ∃ scope, db.scopes.lookup row.scopeId = some scope ∧ scope.state = .pivotPassed) ∨
    (state = .cancelled ∧
      ∃ scope, db.scopes.lookup row.scopeId = some scope ∧ scope.state = .cancelling)

/-- A bracket stays with its vertex and scope, and changes its state only to confirmed
behind a passed pivot and to cancelled behind a cancellation. -/
theorem Changes.bracket_some (hchanges : Changes cfg world a world' w) (hscoped : Scoped world)
    (hrow : world.db.brackets.lookup key = some row) :
    ∃ state, world'.db.brackets.lookup key = some { row with state := state } ∧
      world.db.Settles row state := by
  have hstep := hchanges.bracket key
  rw [hrow] at hstep
  generalize hnew : world'.db.brackets.lookup key = new at hstep
  cases hstep with
  | kept => exact ⟨row.state, rfl, .inl rfl⟩
  | confirmed hpc hscope =>
    obtain ⟨scope, hlook, -, hpas⟩ := hscoped.passed w _ (by rw [hpc]; rfl)
    exact ⟨_, rfl, .inr (.inl ⟨rfl, scope, hscope ▸ hlook, hpas⟩)⟩
  | cancelled hpc hscope hlook hcan =>
    exact ⟨_, rfl, .inr (.inr ⟨rfl, _, hscope ▸ hlook, hcan⟩)⟩

/-- A bracket after a step was there before, or is sealed by it. -/
theorem Changes.bracket_cases (hchanges : Changes cfg world a world' w) (hscoped : Scoped world)
    (hrow' : world'.db.brackets.lookup key = some row') :
    (∃ row, world.db.brackets.lookup key = some row ∧ ∃ state,
      row' = { row with state := state } ∧ world.db.Settles row state) ∨
    (world.db.brackets.lookup key = none ∧ ∃ item result deadline s,
      world.workers w = .succeed item result deadline ∧ item.scopeId = some s ∧
      item.tool.txn.mode.isTry = true ∧ item.tool.txn.idempotencyKey = key ∧
      (world.db.scopes.lookup s).isSome ∧ row' = sealedRow world.db item s deadline) := by
  cases hrow : world.db.brackets.lookup key with
  | some row =>
    obtain ⟨state, hnew, hcas⟩ := hchanges.bracket_some hscoped hrow
    exact .inl ⟨row, rfl, state, Option.mem_unique hrow' hnew, hcas⟩
  | none =>
    have hstep := hchanges.bracket key
    rw [hrow, hrow'] at hstep
    cases hstep with
    | sealed hpc hs htry hkey hexis =>
      exact .inr ⟨rfl, _, _, _, _, hpc, hs, htry, hkey, hexis, rfl⟩

section

variable (hbracketed : Bracketed world) (hfrozen : Frozen world) (hscoped : Scoped world)
  (hchanges : Changes cfg world a world' w)

include hbracketed hfrozen hscoped hchanges

/-- Brackets of created vertices, after a step. -/
theorem Bracketed.owner_step (hmono : world.db.vertices ⊆ world'.db.vertices)
    (hrow' : world'.db.brackets.lookup key = some row') :
    (∃ v ∈ world'.db.vertices, row'.Of key v) ∧ (world'.db.scopes.lookup row'.scopeId).isSome := by
  rcases hchanges.bracket_cases hscoped hrow' with ⟨row, hrow, state, rfl, -⟩ |
    ⟨-, item, result, deadline, s, hpc, hs, htry, rfl, hexis, rfl⟩
  · obtain ⟨v, hv, hof⟩ := hbracketed.owner key row hrow
    obtain ⟨scope, hscope⟩ := Option.isSome_iff_exists.mp (hbracketed.scope key row hrow)
    obtain ⟨scope', hscope', -⟩ := (hchanges.scope _).row hscope
    exact ⟨⟨v, hmono hv, hof.state state⟩, by rw [hscope']; rfl⟩
  · have hitem := hfrozen.held w item (by rw [hpc]; rfl)
    obtain ⟨scope, hscope⟩ := Option.isSome_iff_exists.mp hexis
    obtain ⟨scope', hscope', -⟩ := (hchanges.scope _).row hscope
    refine ⟨⟨_, hmono hitem, sealedRow_of _ _ hs htry⟩, ?_⟩
    change (world'.db.scopes.lookup s).isSome
    rw [hscope']
    rfl

omit hbracketed hfrozen hscoped hchanges in
/-- A bracket's state agrees with its scope's, after a step. -/
theorem Bracketed.state_step (hbracketed : Bracketed world) (hscoped : Scoped world)
    (hchanges : Changes cfg world a world' w) {scope' : ScopeRow}
    (hrow' : world'.db.brackets.lookup key = some row')
    (hscope' : world'.db.scopes.lookup row'.scopeId = some scope') :
    (row'.state = .confirmed → scope'.state.isPassed = true) ∧
      (row'.state = .cancelled → scope'.state.isCancelSide = true) := by
  rcases hchanges.bracket_cases hscoped hrow' with ⟨row, hrow, state, rfl, hcas⟩ |
    ⟨-, item, result, deadline, s, hpc, hs, htry, rfl, hexis, rfl⟩
  · obtain ⟨scope, hscope⟩ := Option.isSome_iff_exists.mp (hbracketed.scope key row hrow)
    obtain ⟨_, hscope₁, hchan⟩ := (hchanges.scope _).row hscope
    have hmove := hchan.move
    obtain rfl := Option.mem_unique hscope₁ hscope'
    have hsame : ∀ scope₀, world.db.scopes.lookup row.scopeId = some scope₀ → scope₀ = scope :=
      fun scope₀ h => Option.mem_unique h hscope
    rcases hcas with rfl | ⟨rfl, scope₀, hscope₀, hpas⟩ | ⟨rfl, scope₀, hscope₀, hcan⟩
    · exact ⟨fun hstate => hmove.isPassed (hbracketed.confirmed key row scope hrow hscope hstate),
        fun hstate => hmove.isCancelSide (hbracketed.cancelled key row scope hrow hscope hstate)⟩
    · obtain rfl := hsame scope₀ hscope₀
      exact ⟨fun _ => hmove.isPassed (by rw [hpas]; rfl), nofun⟩
    · obtain rfl := hsame scope₀ hscope₀
      exact ⟨nofun, fun _ => hmove.isCancelSide (by rw [hcan]; rfl)⟩
  · exact ⟨nofun, nofun⟩

/-- An admitted scope has a bracket for every required try, after a step. -/
theorem Bracketed.complete_step {scope' : ScopeRow}
    (hscope' : world'.db.scopes.lookup s = some scope')
    (hadm' : scope'.state.isAdmitted = true) {v : VertexId}
    (hv : v ∈ scope'.requiredTryVertices) :
    ∃ key row, world'.db.brackets.lookup key = some row ∧ row.tryVertexId = v ∧
      row.scopeId = s ∧ row.state ≠ .cancelled := by
  rcases (hchanges.scope s).origin hscope' with ⟨hopen, -⟩ | ⟨scope, hscope, hchan⟩
  · rw [hopen] at hadm'
    cases hadm'
  rw [hchan.required] at hv
  -- the bracket before the step, in a scope that is not cancelling
  obtain ⟨⟨key, row, hrow, hrowv, hrows, hrowst⟩, hcan⟩ : (∃ key row,
      world.db.brackets.lookup key = some row ∧ row.tryVertexId = v ∧ row.scopeId = s ∧
      row.state ≠ .cancelled) ∧ scope.state ≠ .cancelling := by
    rcases hchan.move.isAdmitted hadm' with hadm | ⟨hopen, hseal⟩
    · refine ⟨hbracketed.complete s scope hscope hadm v hv, fun hstate => ?_⟩
      rw [hstate] at hadm
      cases hadm
    obtain ⟨key, row, hrow, hrowv, hrows, hstate⟩ :=
      hbracketed.sealed_of_count hfrozen hseal hv
    exact ⟨⟨key, row, hrow, hrowv, hrows, by simp [hstate]⟩, by simp [hopen]⟩
  obtain ⟨_, hrow', hcas⟩ := hchanges.bracket_some hscoped hrow
  refine ⟨key, _, hrow', hrowv, hrows, ?_⟩
  rcases hcas with rfl | ⟨rfl, -⟩ | ⟨rfl, scope₀, hscope₀, hstate₀⟩
  · exact hrowst
  · exact BracketState.noConfusion
  rw [hrows, hscope] at hscope₀
  cases hscope₀
  exact absurd hstate₀ hcan

/-- **Brackets, vertices and scopes** are kept by every step. -/
theorem Bracketed.step (hmono : world.db.vertices ⊆ world'.db.vertices) : Bracketed world' where
  owner _ _ hrow := (hbracketed.owner_step hfrozen hscoped hchanges hmono hrow).1
  scope _ _ hrow := (hbracketed.owner_step hfrozen hscoped hchanges hmono hrow).2
  confirmed _ _ _ hrow hscope := (hbracketed.state_step hscoped hchanges hrow hscope).1
  cancelled _ _ _ hrow hscope := (hbracketed.state_step hscoped hchanges hrow hscope).2
  complete _ _ hscope hadm _ hv :=
    hbracketed.complete_step hfrozen hscoped hchanges hscope hadm hv

end

end Step

/-- **Brackets, vertices and scopes, in every reachable world.** -/
theorem bracketed_of_reachable {cfg : Config} (h : Reachable cfg world) : Bracketed world := by
  refine invariant_of_changes h (by constructor <;> simp [World.initial]) ?_
  intro mid mid' a w hmid _ _ hstep hchanges hbracketed
  exact hbracketed.step (frozen_of_reachable hmid) (scoped_of_reachable hmid) hchanges
    fun v hv => vertices_mono hstep hv

/-! ### The parallel pivot -/

/-- **Parallel-pivot safety**, for any number of branches. In every reachable world in which
a scope is inflight, passed or committed, each of its tries has exactly one bracket, sealed
or confirmed; no bracket of the scope is cancelled, and no inverse of it was ever
attempted. -/
theorem parallel_pivot_safety {cfg : Config} {world : World} (h : Reachable cfg world)
    {s : ScopeId} (hscope : world.db.scopes.lookup s = some scope)
    (hstate : scope.state = .pivotInflight ∨ scope.state = .pivotPassed ∨
      scope.state = .committed) :
    (∀ v ∈ world.db.vertices, v.scopeId = some s → v.payload.mode.isTry = true →
      ∃ key row, world.db.brackets.lookup key = some row ∧ row.tryVertexId = v.vertexId ∧
        row.scopeId = s ∧ (row.state = .sealed ∨ row.state = .confirmed) ∧
        ∀ key' row', world.db.brackets.lookup key' = some row' →
          row'.tryVertexId = v.vertexId → key' = key) ∧
    (∀ key row, world.db.brackets.lookup key = some row → row.scopeId = s →
      row.state ≠ .cancelled) ∧
    (∀ id attempt, world.db.attempts.lookup id = some attempt → attempt.scopeId = some s →
      attempt.operation ≠ .inverse) := by
  have hfrozen := frozen_of_reachable h
  have hscoped := scoped_of_reachable h
  have hbracketed := bracketed_of_reachable h
  have hadm : scope.state.isAdmitted = true := by
    rcases hstate with hstate | hstate | hstate <;> rw [hstate] <;> rfl
  have hside : scope.state.isCancelSide = false := by
    rcases hstate with hstate | hstate | hstate <;> rw [hstate] <;> rfl
  refine ⟨fun v hv hvs htry => ?_, fun key row hrow hrows hcan => ?_,
    fun id attempt hatt hs hinv => ?_⟩
  · have hreq := hscoped.mem_required hfrozen hscope hv hvs htry
    obtain ⟨key, row, hrow, hrowv, hrows, hrowst⟩ :=
      hbracketed.complete s scope hscope hadm _ hreq
    refine ⟨key, row, hrow, hrowv, hrows, ?_, fun key' row' hrow' hrowv' =>
      hbracketed.key_unique hfrozen hrow' hrow (hrowv'.trans hrowv.symm)⟩
    cases hbrac : row.state with
    | sealed => exact .inl rfl
    | confirmed => exact .inr rfl
    | cancelled => exact absurd hbrac hrowst
  · have := hbracketed.cancelled key row scope hrow (hrows ▸ hscope) hcan
    rw [hside] at this
    cases this
  have := (evidence_of_reachable h).inverse id attempt s scope hatt hs hscope hinv
  rw [hside] at this
  cases this

/-- Two tries succeed, and then the pivot of their scope is admitted and called. -/
def parallelTries : List Action :=
  [.createRun 1, .freeze 1 [tccVertex 10 [] 5 "a", tccVertex 11 [] 5 "b",
    pivotVertex 12 [10, 11] 5 "p"]] ++ callNext 1 ++ [reply 1 .succeeded] ++ drive 1 3 ++
    callNext 2 ++ [reply 2 .succeeded] ++ drive 2 3 ++ .poll 1 :: drive 1 5

/-- The inflight scope of a concrete run. -/
theorem parallel_pivot_safety_parallelTries :
    ∃ scope, (World.after {} parallelTries).db.scopes.lookup 5 = some scope ∧
      scope.state = .pivotInflight ∧
      ∀ v ∈ (World.after {} parallelTries).db.vertices, v.scopeId = some 5 →
        v.payload.mode.isTry = true → ∃ key row,
        (World.after {} parallelTries).db.brackets.lookup key = some row ∧
        row.tryVertexId = v.vertexId := by
  have hstate : ((World.after {} parallelTries).db.scopes.lookup 5).map ScopeRow.state =
      some .pivotInflight := by decide +kernel
  obtain ⟨scope, hscope, hinf⟩ := Option.map_eq_some_iff.mp hstate
  refine ⟨scope, hscope, hinf, fun v hv hs htry => ?_⟩
  obtain ⟨key, row, hrow, hrowv, -⟩ := (parallel_pivot_safety (reachable_after (by decide +kernel))
    hscope (.inl hinf)).1 v hv hs htry
  exact ⟨key, row, hrow, hrowv⟩

end Flory
