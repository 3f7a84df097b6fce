import Flory.Scopes

/-!
# Attempt Evidence and Cancellation

Every side-effecting request leaves a row of evidence before it is sent, written under the
lock of its scope. A cancellation is decided under the same lock, and only when all the
evidence of the scope is resolved; from then on no state of the scope admits a forward
request again. So nothing that moves a scope forward can still land behind its
cancellation.

## Main results

* `changes_of_step`: what a step of a reachable world does, row by row.
* `evidence_of_reachable`: evidence and scope state agree in every reachable world.
* `no_effect_behind_cancellation`: the forward evidence of a cancelled scope is resolved,
  and no forward request follows its cancellation.
-/

namespace Flory

variable {cfg : Config} {world world' : World} {a : Action} {w : WorkerId} {id : ℕ} {s : ScopeId}
  {row : AttemptRow} {scope : ScopeRow} {row' : AttemptRow}

/-! ### What a step does to one attempt -/

/-- **What a step of worker `w` does to one attempt**: nothing, record it, or resolve it. -/
inductive AttemptChange (world world' : World) (w : WorkerId) (id : ℕ) : Prop
  | kept (h : world'.db.attempts.lookup id = world.db.attempts.lookup id)
  | recorded {site : Site} {attempt : ℕ} (hpc : world.workers w = .record site attempt)
      (hid : id = world.db.nextAttemptId)
      (h' : world'.db.attempts.lookup id = some ((site.call.start attempt).row w))
      (hscope : ∀ s, site.call.scopeId = some s → ∃ row, world.db.scopes.lookup s = some row ∧
        row.runId = site.call.runId ∧ row.state ∈ site.call.operation.admissible)
      (hlease : holdsLease world.db w (site.call.start attempt) = true)
      (hscopes : world'.db.scopes = world.db.scopes)
      (hnext : world'.db.nextAttemptId = world.db.nextAttemptId + 1)
  | resolved {row : AttemptRow} {outcome : AttemptOutcome}
      (hpc : (world.workers w).resolves = some (id, outcome))
      (h : world.db.attempts.lookup id = some row) (hopen : row.outcome = none)
      (h' : world'.db.attempts.lookup id = some { row with outcome := some outcome })

/-- Recording an attempt leaves the scopes alone. -/
theorem WorkerStep.scopes_of_record {me : WorkerId} {db db' : Db} {pc' : Pc} {site : Site}
    {attempt : ℕ} (h : WorkerStep cfg me db (.record site attempt) db' pc') :
    db'.scopes = db.scopes := by
  cases h with
  | duplicate hpc | stillSuspended hpc | deferred hpc | suspended hpc | requested hpc => cases hpc
  | _ => rfl

/-- What a worker's move does to one attempt. -/
theorem attemptChange_of_move (hmove : WorkerMove cfg world a world' w) (id : ℕ) :
    AttemptChange world world' w id := by
  have hstep := hmove.step.attempt id
  generalize hold : world.db.attempts.lookup id = old at hstep
  generalize hnew : world'.db.attempts.lookup id = new at hstep
  cases hstep with
  | kept => exact .kept (hnew.trans hold.symm)
  | recorded _ hpc hid hscope hlease hnext =>
    exact .recorded hpc hid hnew hscope hlease (hpc ▸ hmove.step).scopes_of_record hnext
  | resolved hpc hopen => exact .resolved hpc hold hopen hnew

/-- What a step of worker `w` adds to the log. -/
inductive LogChange (world world' : World) (w : WorkerId) (new : List Event) : Prop
  | worker (h : LogStep world.db world'.db (world.workers w) new)
  | environment (h : ∀ e ∈ new, e.inherited = false ∧ (EngineEvent world.db e ∨
      (∃ seq, e.body = .subgraph (.frozen seq)) ∨ ∃ fv : FrozenVertex, e.toEventDraft = fv.draft))

/-- **One step, row by row**: what it does to every scope, attempt, bracket and cancel
member, and what it adds to the log. A step of the environment touches scopes at most, and
counts as one of any worker; only `advance` changes the state of a scope or any other of these
rows. -/
structure Changes (cfg : Config) (world : World) (a : Action) (world' : World) (w : WorkerId) :
    Prop where
  scope : ∀ s, ScopeChange world world' w s
  attempt : ∀ id, AttemptChange world world' w id
  bracket : ∀ key, BracketStep world.db (world.workers w) key (world.db.brackets.lookup key)
    (world'.db.brackets.lookup key)
  member : ∀ key, MemberStep cfg w world.db world'.db (world.workers w) key (world.db.members.lookup key)
    (world'.db.members.lookup key)
  log : ∃ new, world'.db.log = world.db.log ++ new ∧ LogChange world world' w new
  action : a = .advance w ∨ (world'.db.brackets = world.db.brackets ∧
    world'.db.members = world.db.members ∧ world'.db.attempts = world.db.attempts ∧
    ∀ s, (world'.db.scopes.lookup s).map ScopeRow.state =
      (world.db.scopes.lookup s).map ScopeRow.state)

/-- One step of a reachable world, row by row. -/
theorem changes_of_step (h : Reachable cfg world) (hstep : step cfg world a = some world') :
    ∃ w, Changes cfg world a world' w := by
  rcases step_cases hstep with ⟨w, hmove⟩ | ⟨henv, -⟩
  · exact ⟨w, hmove.step.scopeChange (scoped_of_reachable h) (frozen_of_reachable h) _,
      attemptChange_of_move hmove, hmove.step.bracket, hmove.step.member,
      hmove.step.log.imp fun _ h => ⟨h.1, .worker h.2⟩,
      hmove.action.imp_right fun hsame => by simp [hsame]⟩
  refine ⟨0, fun s => .touched (henv.scope s) 0, fun id => .kept (by rw [henv.attempts]),
    fun key => ?_, fun key => ?_, henv.log.imp fun _ h => ⟨h.1, .environment h.2⟩,
    .inr ⟨henv.brackets, henv.members, henv.attempts, henv.scope_state⟩⟩
  · rw [henv.brackets]
    exact .kept _
  · rw [henv.members]
    exact .kept _

/-- **The invariant rule**, with each step read row by row between reachable worlds. -/
theorem invariant_of_changes {allowed : World → Action → Prop} {I : World → Prop}
    (h : ReachableUnder cfg allowed world) (hinit : I World.initial)
    (hkept : ∀ {mid mid' a w}, Reachable cfg mid → Reachable cfg mid' → allowed mid a →
      step cfg mid a = some mid' → Changes cfg mid a mid' w → I mid → I mid') : I world := by
  refine h.invariant_of (fun _ hreach => hreach.any) hinit ?_
  intro mid mid' a hmid hmid' hinv hall hstep
  obtain ⟨w, hchanges⟩ := changes_of_step hmid hstep
  exact hkept hmid hmid' hall hstep hchanges hinv

/-- **A new attempt** is recorded by a worker that holds its lease, in a scope whose state
admits it. -/
theorem attempt_of_step (h : Reachable cfg world) (hstep : step cfg world a = some world')
    (hnone : world.db.attempts.lookup id = none) (hrow : world'.db.attempts.lookup id = some row) :
    ∃ w site n, a = .advance w ∧ world.workers w = .record site n ∧
      row = (site.call.start n).row w ∧ holdsLease world.db w (site.call.start n) = true ∧
      ∀ s, site.call.scopeId = some s → ∃ scope, world.db.scopes.lookup s = some scope ∧
        scope.state ∈ site.call.operation.admissible := by
  obtain ⟨w, hchanges⟩ := changes_of_step h hstep
  have hact : a = .advance w := by
    refine hchanges.action.resolve_right fun hsame => ?_
    rw [hsame.2.2.1, hnone] at hrow
    cases hrow
  cases hchanges.attempt id with
  | kept hsame =>
    rw [hsame, hnone] at hrow
    cases hrow
  | recorded hpc hid hnew hscope hlease =>
    obtain rfl := Option.mem_unique hnew hrow
    refine ⟨w, _, _, hact, hpc, rfl, hlease, fun s hs => ?_⟩
    obtain ⟨scope, hscope, -, hadm⟩ := hscope s hs
    exact ⟨scope, hscope, hadm⟩
  | resolved hpc hold =>
    rw [hnone] at hold
    cases hold

/-! ### Evidence and scope state agree -/

/-- Whether an operation moves its scope forward. -/
def Operation.isForward : Operation → Bool
  | .call | .pivot | .status => true
  | _ => false

/-- No state on the side of cancellation admits a forward operation. -/
theorem not_isCancelSide_of_forward {operation : Operation} {state : ScopeState}
    (hfor : operation.isForward = true) (h : state ∈ operation.admissible) :
    state.isCancelSide = false := by
  cases operation <;> simp only [Operation.isForward, Operation.admissible, List.mem_cons,
    List.not_mem_nil, or_false, reduceCtorEq] at hfor h
  · rcases h with rfl | rfl | rfl <;> rfl
  · rw [h]; rfl
  · rw [h]; rfl

/-- **Evidence and scopes.** An attempt in a scope belongs to the scope's run. Behind a
cancellation the forward attempts are resolved, and inverse attempts are made behind one
only. -/
structure Evidence (world : World) : Prop where
  scope : ∀ id row s, world.db.attempts.lookup id = some row → row.scopeId = some s →
    ∃ scope, world.db.scopes.lookup s = some scope ∧ scope.runId = row.runId
  settled : ∀ id row s scope, world.db.attempts.lookup id = some row → row.scopeId = some s →
    world.db.scopes.lookup s = some scope → scope.state = .cancelling ∨ scope.state = .cancelled →
    row.operation.isForward = true → row.outcome.isSome
  inverse : ∀ id row s scope, world.db.attempts.lookup id = some row → row.scopeId = some s →
    world.db.scopes.lookup s = some scope → row.operation = .inverse →
    scope.state.isCancelSide = true

/-- No attempt of a scope without unresolved evidence lacks its outcome. -/
theorem isSome_of_unresolvedAttempt {db : Db} {runId : RunId}
    (h : unresolvedAttempt db runId s = false) (hrow : db.attempts.lookup id = some row)
    (hrun : row.runId = runId) (hs : row.scopeId = some s) : row.outcome.isSome := by
  have hrow := Table.anyRow_eq_false_iff.mp h id row hrow
  simpa [hrun, hs] using hrow

/-- Only a scope behind its cancellation comes to be `cancelling` or `cancelled` with
forward evidence, all of it resolved. -/
theorem StateMove.settled {scope' : ScopeRow} (hmove : StateMove world world' w s scope scope')
    (hstate' : scope'.state = .cancelling ∨ scope'.state = .cancelled) :
    scope.state = .cancelling ∨ scope.state = .cancelled ∨
      unresolvedAttempt world.db scope.runId s = false := by
  cases hmove with
  | kept hstate => exact hstate ▸ hstate'.imp_right .inl
  | requested _ _ _ _ _ hres => exact .inr (.inr hres)
  | cancelCompleted _ hstate => exact .inl hstate
  | _ => simp_all

/-- What the scope of an attempt shows: a cancellation behind every forward attempt that is
resolved, and behind none that is not. -/
def Db.ShowsScope (db : Db) (row : AttemptRow) (s : ScopeId) : Prop :=
  ∃ scope, db.scopes.lookup s = some scope ∧ scope.runId = row.runId ∧
    (scope.state = .cancelling ∨ scope.state = .cancelled → row.operation.isForward = true →
      row.outcome.isSome) ∧
    (row.operation = .inverse → scope.state.isCancelSide = true)

section

variable (hevidence : Evidence world) (hchanges : Changes cfg world a world' w)

include hevidence hchanges

/-- Evidence that was there before a step. -/
theorem Evidence.kept
    (hrow : world.db.attempts.lookup id = some row) (hrun : row'.runId = row.runId)
    (hs : row'.scopeId = row.scopeId) (hoper : row'.operation = row.operation)
    (hout : row.outcome.isSome → row'.outcome.isSome) (hrows : row'.scopeId = some s) :
    world'.db.ShowsScope row' s := by
  rw [hs] at hrows
  obtain ⟨scope, hscope, hscop⟩ := hevidence.scope id row s hrow hrows
  obtain ⟨scope', hscope', hchan⟩ := (hchanges.scope s).row hscope
  refine ⟨scope', hscope', by rw [hchan.run, hscop, hrun], fun hstate' hfor => ?_, fun hinv => ?_⟩
  · rw [hoper] at hfor
    refine hout ?_
    rcases hchan.move.settled hstate' with hstate | hstate | hres
    · exact hevidence.settled id row s scope hrow hrows hscope (.inl hstate) hfor
    · exact hevidence.settled id row s scope hrow hrows hscope (.inr hstate) hfor
    · exact isSome_of_unresolvedAttempt hres hrow hscop.symm hrows
  · exact hchan.move.isCancelSide
      (hevidence.inverse id row s scope hrow hrows hscope (hoper ▸ hinv))

/-- Evidence and scopes, for one attempt after a step. -/
theorem Evidence.attempt_step (hrow' : world'.db.attempts.lookup id = some row')
    (hs : row'.scopeId = some s) : world'.db.ShowsScope row' s := by
  cases hchanges.attempt id with
  | kept hsame => exact hevidence.kept hchanges (hsame ▸ hrow') rfl rfl rfl (fun h => h) hs
  | recorded hpc hid hnew hscope hlease hsame =>
    obtain rfl := Option.mem_unique hnew hrow'
    obtain ⟨scope, hlook, hrun, hadm⟩ := hscope s hs
    refine ⟨scope, by rw [hsame]; exact hlook, hrun, fun hstate hfor => ?_, fun hinv => ?_⟩
    · have hside := not_isCancelSide_of_forward hfor hadm
      rcases hstate with hstate | hstate <;> rw [hstate] at hside <;> cases hside
    change (Site.call _).operation = .inverse at hinv
    rw [hinv] at hadm
    rw [List.mem_singleton.mp hadm]
    rfl
  | resolved hpc hrow hopen hnew =>
    obtain rfl := Option.mem_unique hnew hrow'
    refine hevidence.kept hchanges hrow ?_ ?_ ?_ ?_ hs
    · rfl
    · rfl
    · rfl
    · exact fun _ => rfl

/-- **Evidence and scopes** are kept by every step. -/
theorem Evidence.step : Evidence world' := by
  have hcase := fun id row' s (hrow' : world'.db.attempts.lookup id = some row')
    (hs : row'.scopeId = some s) => hevidence.attempt_step hchanges hrow' hs
  refine ⟨fun id row' s hrow' hs => ?_, fun id row' s scope' hrow' hs hscope' => ?_,
    fun id row' s scope' hrow' hs hscope' => ?_⟩
  · obtain ⟨scope', hscope', hrun, -⟩ := hcase id row' s hrow' hs
    exact ⟨scope', hscope', hrun⟩
  · obtain ⟨scope, hscope, -, hset, -⟩ := hcase id row' s hrow' hs
    obtain rfl := Option.mem_unique hscope hscope'
    exact hset
  obtain ⟨scope, hscope, -, -, hinv⟩ := hcase id row' s hrow' hs
  obtain rfl := Option.mem_unique hscope hscope'
  exact hinv

end

/-- **Evidence and scopes, in every reachable world.** -/
theorem evidence_of_reachable (h : Reachable cfg world) : Evidence world :=
  invariant_of_changes h (by constructor <;> simp [World.initial])
    fun _ _ _ _ hchanges hevidence => hevidence.step hchanges

/-! ### No effect behind a cancellation -/

/-- A step behind a cancellation records no forward attempt of the scope, and leaves the
resolved ones alone. -/
theorem forward_step (h : Reachable cfg world) (hstep : step cfg world a = some world')
    (hscope : world.db.scopes.lookup s = some scope) (hside : scope.state.isCancelSide = true)
    (hrow' : world'.db.attempts.lookup id = some row') (hs : row'.scopeId = some s)
    (hfor : row'.operation.isForward = true) :
    ∃ row, world.db.attempts.lookup id = some row ∧ row.scopeId = some s ∧
      row.operation = row'.operation ∧ (row.outcome.isSome → row' = row) := by
  obtain ⟨w, hchanges⟩ := changes_of_step h hstep
  cases hchanges.attempt id with
  | kept hsame => exact ⟨row', hsame ▸ hrow', hs, rfl, fun _ => rfl⟩
  | recorded hpc hid hnew hadmit =>
    obtain rfl := Option.mem_unique hnew hrow'
    obtain ⟨_, hscope', -, hadm⟩ := hadmit s hs
    obtain rfl := Option.mem_unique hscope hscope'
    rw [not_isCancelSide_of_forward hfor hadm] at hside
    cases hside
  | resolved hpc hrow hopen hnew =>
    rename_i row outcome
    obtain rfl := Option.mem_unique hnew hrow'
    exact ⟨row, hrow, hs, rfl, by simp [hopen]⟩

/-- Behind a cancellation the forward attempts of a scope are final. -/
theorem forward_final (h : Reachable cfg world) (hscope : world.db.scopes.lookup s = some scope)
    (hstate : scope.state = .cancelling ∨ scope.state = .cancelled)
    (hlat : Transition.Reachable (step cfg) Transition.anyStep world world') :
    (∃ scope', world'.db.scopes.lookup s = some scope' ∧ scope'.state.isCancelSide = true) ∧
      ∀ id row, world'.db.attempts.lookup id = some row → row.scopeId = some s →
        row.operation.isForward = true → world.db.attempts.lookup id = some row := by
  induction hlat with
  | refl =>
    refine ⟨⟨scope, hscope, ?_⟩, fun id row hrow _ _ => hrow⟩
    rcases hstate with hstate | hstate <;> rw [hstate] <;> rfl
  | tail hmid _ hstep ih =>
    obtain ⟨⟨scope', hscope', hside⟩, hfin⟩ := ih
    constructor
    · obtain ⟨w, hchan⟩ := scope_change (h.trans hmid) hstep s
      obtain ⟨scope'', hscope'', hrow⟩ := hchan.row hscope'
      exact ⟨scope'', hscope'', hrow.move.isCancelSide hside⟩
    intro id row' hrow' hs hfor
    obtain ⟨row, hrow, hrows, hoper, hsame⟩ :=
      forward_step (h.trans hmid) hstep hscope' hside hrow' hs hfor
    have hold := hfin id row hrow hrows (hoper ▸ hfor)
    have hset := (evidence_of_reachable h).settled id row s scope hold hrows hscope hstate
      (hoper ▸ hfor)
    rw [hsame hset]
    exact hold

/-- **No effect behind a cancellation.** In every reachable world the calls, pivots and
status queries of a scope that is cancelling or cancelled all have an outcome, and once a
scope is cancelling no run from there on records another one for it. -/
theorem no_effect_behind_cancellation {cfg : Config} {world : World} (h : Reachable cfg world)
    {s : ScopeId} {scope : ScopeRow} (hscope : world.db.scopes.lookup s = some scope) :
    (scope.state = .cancelling ∨ scope.state = .cancelled → ∀ id row,
      world.db.attempts.lookup id = some row → row.scopeId = some s →
      row.operation.isForward = true → row.outcome.isSome) ∧
    (scope.state = .cancelling → ∀ world',
      Transition.Reachable (step cfg) Transition.anyStep world world' → ∀ id row,
      world'.db.attempts.lookup id = some row → row.scopeId = some s →
      row.operation.isForward = true → world.db.attempts.lookup id = some row) := by
  refine ⟨fun hstate id row hrow hs hfor => ?_, fun hstate world' hlater => ?_⟩
  · exact (evidence_of_reachable h).settled id row s scope hrow hs hscope hstate hfor
  · exact (forward_final h hscope (.inl hstate) hlater).2

/-- A try succeeds, and then its scope is cancelled on request. -/
def cancelledTry : List Action :=
  [.createRun 1, .freeze 1 [tccVertex 10 [] 5 "a"]] ++ callNext 1 ++ [reply 1 .succeeded] ++
    drive 1 3 ++ [requestCancel 1 5, .poll 1] ++ drive 1 1

/-- The cancelling scope of a concrete run. -/
theorem no_effect_behind_cancellation_cancelledTry :
    ∃ scope, (World.after {} cancelledTry).db.scopes.lookup 5 = some scope ∧
      scope.state = .cancelling ∧ ∀ world', Transition.Reachable (step {}) Transition.anyStep
        (World.after {} cancelledTry) world' → ∀ id row,
        world'.db.attempts.lookup id = some row → row.scopeId = some 5 →
        row.operation.isForward = true →
        (World.after {} cancelledTry).db.attempts.lookup id = some row := by
  have hstate : ((World.after {} cancelledTry).db.scopes.lookup 5).map ScopeRow.state =
      some .cancelling := by decide +kernel
  obtain ⟨scope, hscope, hcan⟩ := Option.map_eq_some_iff.mp hstate
  exact ⟨scope, hscope, hcan,
    (no_effect_behind_cancellation (reachable_after (by decide +kernel)) hscope).2 hcan⟩

end Flory
