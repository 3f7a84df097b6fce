import Flory.Fence
import Flory.Holding

/-!
# Shadowed Work

A `subgraph/shadowed` takes work out of the plan: from then on nothing may be attempted on
behalf of a vertex it names. The trigger only looks at the queue and at the scope rows of the
moment; that this is enough follows from how work comes to be attempted at all.

A call, a pivot and a status query need the queue row of their vertex, which is gone and never
returns. A confirm or an inverse operation needs a bracket of the vertex and its scope in
`pivot-passed` or `cancelling`: a vertex whose scope has a row is only shadowed when the scope
is over, and a vertex whose scope has none is held by nobody, so that it never gets a bracket.

## Main results

* `Dead.step`: dead work stays dead.
* `Dead.not_recorded`: nothing is attempted on behalf of dead work.
* `shadowed_work_dead`: an accepted shadow leaves dead work behind, for good.
-/

namespace Flory

variable {world world' : World} {db' : Db} {v : CreatedVertex} {cfg : Config} {a : Action}
  {w : WorkerId} {s : ScopeId}

/-! ### Dead work -/

/-- Whether a scope is past every confirm and every inverse operation. -/
def ScopeState.isOver : ScopeState → Bool
  | .cancelled | .suspended | .committed => true
  | _ => false

/-- A scope that is over stays over. -/
theorem StateMove.isOver {row row' : ScopeRow} (hmove : StateMove world world' w s row row')
    (h : row.state.isOver = true) : row'.state.isOver = true := by
  cases hmove with
  | kept hstate => rw [hstate]; exact h
  | abandoned _ _ hstate => rcases hstate with hstate | hstate <;> simp [hstate, ScopeState.isOver] at h
  | suspendedCancel _ _ _ _ hstate' => rw [hstate']; rfl
  | committed _ _ hstate => simp [hstate, ScopeState.isOver] at h
  | _ => simp_all [ScopeState.isOver]

/-- **Why nothing is attempted on behalf of a vertex** that is not queued: its scope is over,
or it is no try of a scope, or it has no bracket and nobody holds it. -/
inductive Spent (world : World) (v : CreatedVertex) : Prop
  | ended {s : ScopeId} {row : ScopeRow} (hs : v.scopeId = some s)
      (hrow : world.db.scopes.lookup s = some row) (hstate : row.state.isOver = true)
  | plain (h : v.scopeId = none ∨ v.payload.mode.isTry = false)
  | untried (hbracket : ∀ s, ¬ world.db.Brackets s v.vertexId)
      (hheld : ∀ w item, (world.workers w).stage.item? = some item → item.vertexId ≠ v.vertexId)

/-- **Dead work**: a vertex that is not queued and on whose behalf nothing is attempted. -/
structure Dead (world : World) (v : CreatedVertex) : Prop where
  known : v ∈ world.db.vertices
  queue : world.db.queue.lookup v.vertexId = none
  spent : Spent world v

/-- The environment queues new vertices only. -/
theorem EnvironmentStep.queue_none {db : Db} (h : EnvironmentStep db db') (hv : v ∈ db.vertices)
    (hnone : db.queue.lookup v.vertexId = none) : db'.queue.lookup v.vertexId = none := by
  have hne : ∀ {v' : VertexId} {row : QueueRow}, db.queue.lookup v' = some row → v.vertexId ≠ v' := by
    rintro v' row hrow rfl
    rw [hnone] at hrow
    cases hrow
  cases h with
  | freeze hfreez hchan =>
    rcases hchan.queue v.vertexId with hsame | ⟨-, fv, hfv, hid, -, -⟩
    · exact hsame.trans hnone
    have hfresh := (freezable_mem hfreez hfv).1
    rw [hid, vertexKnown_of_mem hv] at hfresh
    cases hfresh
  | engineAppend hdraf happ hchan =>
    rcases hchan.queue v.vertexId with hsame | ⟨hnone', -⟩
    · exact hsame.trans hnone
    · exact hnone'
  | claimRead reader leaseMs hrow | releaseRead readyAt hrow =>
    exact (AList.lookup_insert_ne (hne hrow)).trans hnone
  | completeRead hrow => exact (AList.lookup_erase_ne (hne hrow)).trans hnone
  | _ => exact hnone

/-- A vertex that left the queue never returns to it. -/
theorem queue_none_step (hstep : step cfg world a = some world') (hv : v ∈ world.db.vertices)
    (hnone : world.db.queue.lookup v.vertexId = none) :
    world'.db.queue.lookup v.vertexId = none := by
  rcases step_cases hstep with ⟨w, hmove⟩ | ⟨henv, -⟩
  · cases hrow' : world'.db.queue.lookup v.vertexId with
    | none => rfl
    | some =>
      obtain ⟨_, hrow, -⟩ := hmove.step.queue_vertex hrow'
      rw [hnone] at hrow
      cases hrow
  · exact henv.queue_none hv hnone

/-- A vertex that is not queued comes into nobody's hands. -/
theorem unheld_step (hstep : step cfg world a = some world') {v : VertexId}
    (hnone : world.db.queue.lookup v = none)
    (hheld : ∀ w item, (world.workers w).stage.item? = some item → item.vertexId ≠ v) (w : WorkerId)
    (item : WorkItem) (hitem : (world'.workers w).stage.item? = some item) : item.vertexId ≠ v := by
  rcases step_cases hstep with ⟨mover, hmove⟩ | ⟨-, hwor⟩
  · by_cases hw : w = mover
    · subst hw
      rcases hmove.step.dispatched hitem with hold | ⟨-, ⟨row, hrow, -⟩, -⟩
      · exact hheld w item hold
      rintro rfl
      rw [hnone] at hrow
      cases hrow
    · rw [hmove.others w hw] at hitem
      exact hheld w item hitem
  · rw [hwor] at hitem
    exact hheld w item hitem

/-- A bracket is the work of a worker that held its vertex. -/
theorem brackets_step (hchan : Changes cfg world a world' w) {v : VertexId}
    (h : world'.db.Brackets s v) : world.db.Brackets s v ∨
      ∃ item, (world.workers w).stage.item? = some item ∧ item.vertexId = v := by
  obtain ⟨key, row', hrow', hs, hv⟩ := h
  have hbrac := hchan.bracket key
  rw [hrow'] at hbrac
  generalize hold : world.db.brackets.lookup key = old at hbrac
  cases hbrac with
  | kept => exact .inl ⟨key, row', hold, hs, hv⟩
  | sealed hpc => exact .inr ⟨_, by rw [hpc]; rfl, hv⟩
  | confirmed | cancelled => exact .inl ⟨key, _, hold, hs, hv⟩

section

variable (h : Dead world v) (hreach : Reachable cfg world)

include h hreach

/-- **Dead work stays dead.** -/
theorem Dead.step (hstep : step cfg world a = some world') : Dead world' v := by
  refine ⟨vertices_mono hstep h.known, queue_none_step hstep h.known h.queue, ?_⟩
  obtain ⟨w, hchan⟩ := changes_of_step hreach hstep
  cases h.spent with
  | ended hs hrow hstate =>
    obtain ⟨_, hrow', hchang⟩ := (hchan.scope _).row hrow
    exact .ended hs hrow' (hchang.move.isOver hstate)
  | plain hplain => exact .plain hplain
  | untried hbrac hheld =>
    refine .untried (fun s hbrac' => ?_) (unheld_step hstep h.queue hheld)
    rcases brackets_step hchan hbrac' with hold | ⟨item, hitem, hv⟩
    · exact hbrac s hold
    · exact hheld w item hitem hv

/-! ### Attempts on behalf of dead work -/

/-- A bracket of dead work belongs to a scope that is over. -/
theorem Dead.over_of_brackets (hbrac : world.db.Brackets s v.vertexId) :
    ∃ row, world.db.scopes.lookup s = some row ∧ row.state.isOver = true := by
  obtain ⟨key, row, hrow, rfl, hv⟩ := hbrac
  obtain ⟨_, hown, hof⟩ := (bracketed_of_reachable hreach).owner key row hrow
  obtain rfl := (frozen_of_reachable hreach).eq_of_vertexId hown h.known (hof.vertex.symm.trans hv)
  cases h.spent with
  | ended hs hscope hstate =>
    obtain rfl := Option.mem_unique hof.scope hs
    exact ⟨_, hscope, hstate⟩
  | plain hplain =>
    rcases hplain with hnone | hmode
    · cases hnone.symm.trans hof.scope
    · cases hmode.symm.trans hof.isTry
  | untried hnone => exact absurd ⟨key, row, hrow, rfl, hv⟩ (hnone _)

/-- **Nothing is attempted on behalf of dead work.** -/
theorem Dead.not_recorded {site : Site} {n : ℕ} (hpc : world.workers w = .record site n)
    (hscope : ∀ s, site.call.scopeId = some s → ∃ row, world.db.scopes.lookup s = some row ∧
      row.runId = site.call.runId ∧ row.state ∈ site.call.operation.admissible)
    (hlease : holdsLease world.db w (site.call.start n) = true) :
    site.call.vertexId ≠ v.vertexId := by
  intro hv
  -- The forward operations need the queue row of their own vertex.
  have hqueued : ∀ start : AttemptStart, start.leaseSource = .workQueue →
      start.leaseVertexId = v.vertexId → holdsLease world.db w start = true → False := by
    intro start hsour hlv hhol
    simp only [holdsLease, hsour] at hhol
    rw [hlv, h.queue] at hhol
    cases hhol
  -- The others need a bracket, whose scope is over.
  have hover : ∀ s, site.call.scopeId = some s → world.db.Brackets s v.vertexId →
      (∀ state ∈ site.call.operation.admissible, state.isOver = false) → False := by
    intro s hs hbrac hadm
    obtain ⟨row, hrow, -, hstate⟩ := hscope s hs
    obtain ⟨_, hrow', hstate'⟩ := h.over_of_brackets hreach hbrac
    obtain rfl := Option.mem_unique hrow hrow'
    rw [hadm _ hstate] at hstate'
    cases hstate'
  cases site with
  | regular | pivot | status => exact hqueued _ rfl hv hlease
  | confirm item bracket =>
    have hbrac := (holding_of_reachable hreach).confirms w (item.scopeId, bracket)
      (by rw [hpc]; exact List.mem_cons_self)
    rw [show bracket.vertexId = v.vertexId from hv] at hbrac
    exact hover item.scopeId item.inScope hbrac
      (by simp [Site.call, Operation.admissible, ScopeState.isOver])
  | inverse c member =>
    have hmem : (world.db.members.lookup ⟨c.runId, c.scopeId, member.vertexId⟩).isSome := by
      simp only [holdsLease, Call.start, Site.call, Option.any_some] at hlease
      exact Option.isSome_of_any hlease
    obtain ⟨row, hrow⟩ := Option.isSome_iff_exists.mp hmem
    have hbrac := (holding_of_reachable hreach).member _ row hrow
    rw [show member.vertexId = v.vertexId from hv] at hbrac
    exact hover c.scopeId rfl hbrac (by simp [Site.call, Operation.admissible, ScopeState.isOver])

/-- Every attempt for dead work is an old one. -/
theorem Dead.attempt_step (hstep : Flory.step cfg world a = some world') {id : ℕ}
    {row' : AttemptRow} (hrow' : world'.db.attempts.lookup id = some row')
    (hv : row'.vertexId = v.vertexId) :
    ∃ row, world.db.attempts.lookup id = some row ∧ row.vertexId = v.vertexId := by
  obtain ⟨w, hchan⟩ := changes_of_step hreach hstep
  cases hchan.attempt id with
  | kept hsame => exact ⟨row', hsame.symm.trans hrow', hv⟩
  | recorded hpc hid hnew hscope hlease =>
    obtain rfl := Option.mem_unique hnew hrow'
    exact absurd hv (h.not_recorded hreach hpc hscope hlease)
  | resolved hpc hrow hopen hnew =>
    obtain rfl := Option.mem_unique hnew hrow'
    exact ⟨_, hrow, hv⟩

end

/-! ### A shadow leaves dead work behind -/

/-- An event that shadows a vertex of its run. -/
def Event.Shadows (e : Event) (v : CreatedVertex) : Prop :=
  ∃ vertexIds, e.body = .subgraphShadowed vertexIds ∧ v.vertexId ∈ vertexIds ∧ v.runId = e.runId

/-- A try of a scope without a row has no bracket, and who holds it has it claimed. -/
theorem untried_of_row (hreach : Reachable cfg world) (hv : v ∈ world.db.vertices)
    (hs : v.scopeId = some s) (htry : v.payload.mode.isTry = true)
    (hrow : world.db.scopes.lookup s = none) :
    (∀ s, ¬ world.db.Brackets s v.vertexId) ∧ ∀ w item,
      (world.workers w).stage.item? = some item → item.vertexId = v.vertexId →
      world.db.Claimed v.vertexId := by
  have hfroz := frozen_of_reachable hreach
  have hhol := holding_of_reachable hreach
  constructor
  · rintro t ⟨key, row, hbrack, -, hid⟩
    have hbrac := bracketed_of_reachable hreach
    obtain ⟨_, hown, hof⟩ := hbrac.owner key row hbrack
    obtain rfl := hfroz.eq_of_vertexId hown hv (hof.vertex.symm.trans hid)
    have hsome := hbrac.scope key row hbrack
    rw [Option.mem_unique hof.scope hs, hrow] at hsome
    cases hsome
  · intro w item hitem hid
    obtain rfl := hfroz.eq_of_vertexId (hfroz.held w item hitem) hv hid
    by_cases hens : (world.workers w).isEnsure = true
    · cases hpc : world.workers w with
      | ensure held =>
        rw [hpc] at hitem
        cases hitem
        rcases hhol.claimed w held hpc with hclaim | hsome
        · exact hclaim
        · rw [Option.mem_unique held.inScope hs, hrow] at hsome
          cases hsome
      | _ => simp [hpc, Pc.isEnsure] at hens
    · have hpay : item.payload ≠ .barrier := by
        intro hbar
        simp only [WorkItem.vertex, hbar] at htry
        cases htry
      have hsome := hhol.scope w item s hitem hs hpay (by simpa using hens)
      rw [hrow] at hsome
      cases hsome

/-- **An accepted shadow leaves dead work behind.** -/
theorem dead_of_shadowed (hreach : Reachable cfg world) {runId : RunId} {draft : EventDraft}
    (hstep : step cfg world (.engineAppend runId [draft]) = some { world with db := db' })
    (hins : EngineInsert world.db runId draft db') (hv : v ∈ world.db.vertices)
    (hshad : (world.db.stamp runId draft).Shadows v) :
    Dead { world with db := db' } v := by
  obtain ⟨_, hbody, hnam, hrun⟩ := hshad
  have hver : v ∈ db'.vertices := vertices_mono hstep hv
  cases hins with
  | note hreq hshadow => exact absurd hbody (hshadow _)
  | requested hbody' => cases hbody.symm.trans hbody'
  | shadowed hbody' hclos hfree hqueue hdb =>
    obtain rfl := EventBody.subgraphShadowed.inj (hbody.symm.trans hbody')
    have hnone : db'.queue.lookup v.vertexId = none := (hqueue _).trans (if_pos hnam)
    have hscopes : db'.scopes = world.db.scopes := by rw [hdb]; rfl
    have hbrac : db'.brackets = world.db.brackets := by rw [hdb]; rfl
    refine ⟨hver, hnone, ?_⟩
    cases hs : v.scopeId with
    | none => exact .plain (.inl hs)
    | some s =>
      by_cases htry : v.payload.mode.isTry = true
      · cases hrow : world.db.scopes.lookup s with
        | some row =>
          have hscop : row.runId = v.runId := by
            have hscopeOf := scopeOf_of_vertex (scoped_of_reachable hreach)
              (frozen_of_reachable hreach) hv hs hrow
            exact (Db.scopeOf_eq_some_iff.mp hscopeOf).2
          have hstate := hclos v.vertexId hnam s row hrow (hscop.trans hrun) ⟨v, hv, rfl, hrun, hs⟩
          refine .ended hs (hscopes ▸ hrow : db'.scopes.lookup s = some row) ?_
          rcases hstate with hstate | hstate <;> rw [hstate] <;> rfl
        | none =>
          obtain ⟨hbrack, hclaim⟩ := untried_of_row hreach hv hs htry hrow
          refine .untried (fun t => ?_) fun w item hitem hid => ?_
          · unfold Db.Brackets
            rw [hbrac]
            exact hbrack t
          obtain ⟨queued, hqueued, hby⟩ := hclaim w item hitem hid
          rw [hfree v.vertexId hnam queued hqueued] at hby
          cases hby
      · exact .plain (.inr (by simpa using htry))

/-- Every vertex that some later event shadows is dead. -/
def ShadowsDead (world : World) : Prop :=
  world.db.log.Pairwise fun e₀ e => ∀ v, e₀.created? = some v → e.Shadows v → Dead world v

/-- New events that shadow only the dead keep it so. -/
theorem ShadowsDead.append {new : List Event} (h : ShadowsDead world)
    (hlog : world'.db.log = world.db.log ++ new) (hdead : ∀ v, Dead world v → Dead world' v)
    (hquiet : new.Pairwise fun _ e => ∀ v, ¬ e.Shadows v)
    (hnew : ∀ e ∈ new, ∀ v ∈ world.db.vertices, e.Shadows v → Dead world' v) :
    ShadowsDead world' := by
  unfold ShadowsDead
  rw [hlog, List.pairwise_append]
  refine ⟨h.imp fun hpair v hv hshad => hdead v (hpair v hv hshad),
    hquiet.imp fun hnot v _ hshad => absurd hshad (hnot v), ?_⟩
  intro e₀ he₀ e he v hv hshad
  exact hnew e he v (mem_vertices.mpr ⟨e₀, he₀, hv⟩) hshad

theorem WorkerEvent.not_shadows {db : Db} {pc : Pc} {e : Event} (h : WorkerEvent db db' pc e)
    (v : CreatedVertex) : ¬ e.Shadows v := by
  rintro ⟨_, _, -⟩
  cases h <;> simp_all [EventBody.isPlain, EventBody.isSucceeded]

/-- One event of the Engine leaves the shadowed dead. -/
theorem ShadowsDead.insert {runId : RunId} {draft : EventDraft} (h : ShadowsDead world)
    (hreach : Reachable cfg world)
    (hstep : step cfg world (.engineAppend runId [draft]) = some { world with db := db' })
    (hins : EngineInsert world.db runId draft db') : ShadowsDead { world with db := db' } := by
  have hlog : db'.log = world.db.log ++ [world.db.stamp runId draft] := by
    cases hins with
    | note => rfl
    | requested hbody hnod hnam hoth hdb | shadowed hbody hclos hfree hqueue hdb =>
      rw [hdb]; rfl
  refine h.append hlog (fun v hdead => hdead.step hreach hstep) (List.pairwise_singleton _ _) ?_
  intro e he v hv hshad
  obtain rfl := List.mem_singleton.mp he
  exact dead_of_shadowed hreach hstep hins hv hshad

/-- The environment leaves the shadowed dead. -/
theorem ShadowsDead.environment (h : ShadowsDead world) (hreach : Reachable cfg world)
    (henv : EnvironmentStep world.db db')
    (hdead : ∀ v, Dead world v → Dead { world with db := db' } v) :
    ShadowsDead { world with db := db' } := by
  have hquiet : db'.log = world.db.log → ShadowsDead { world with db := db' } := fun hlog =>
    h.append (hlog.trans (List.append_nil _).symm) hdead .nil (by simp)
  cases henv with
  | engineAppend hdraf happ =>
    exact engineAppend_invariant_of hreach hdraf happ
      (fun mid draft mid' hmid hone _ hstep hins => hone.insert hmid hstep hins) h
  | freeze hfreez hchan =>
    obtain ⟨new, hlog, hmap, -⟩ := hchan.log
    have hnot : ∀ e ∈ new, ∀ v, ¬ e.Shadows v := by
      rintro e he v ⟨_, hbody, -⟩
      rcases body_of_freezeDrafts (hmap ▸ List.mem_map_of_mem he) with hfroz | ⟨_, hcreat⟩
      · cases hfroz.symm.trans hbody
      · cases hcreat.symm.trans hbody
    exact h.append hlog hdead (List.pairwise_of_forall_mem_list fun _ _ e he => hnot e he)
      fun e he v _ hshad => absurd hshad (hnot e he v)
  | _ => exact hquiet rfl

/-- **The shadowed are dead in every reachable world.** -/
theorem shadowsDead_of_reachable (h : Reachable cfg world) : ShadowsDead world := by
  refine h.invariant_of (I := ShadowsDead) (fun _ hreach => hreach) .nil ?_
  intro mid mid' a hmid _ hshad _ hstep
  have hdead : ∀ v, Dead mid v → Dead mid' v := fun v hdead => hdead.step hmid hstep
  rcases step_cases hstep with ⟨w, hmove⟩ | ⟨henv, hwor⟩
  · obtain ⟨_, hlog, hnew⟩ := hmove.step.log
    exact hshad.append hlog hdead
      (List.pairwise_of_forall_mem_list fun _ _ e he => (hnew.origin e he).not_shadows)
      fun e he v _ hbad => absurd hbad ((hnew.origin e he).not_shadows v)
  · obtain ⟨_, workers'⟩ := mid'
    obtain rfl : workers' = mid.workers := hwor
    exact hshad.environment hmid henv hdead

/-- **Shadowed work is dead**: once a shadow that names a vertex of its run is in the log, the
vertex is out of the queue for good, and every attempt ever recorded for it was recorded
before. -/
theorem shadowed_work_dead {cfg : Config} {world world' : World} (h : Reachable cfg world)
    {before after : List Event} {e : Event} (hlog : world.db.log = before ++ e :: after)
    {vertexIds : List VertexId} (hbody : e.body = .subgraphShadowed vertexIds) {v : CreatedVertex}
    (hv : v ∈ before.filterMap Event.created?) (hrun : v.runId = e.runId)
    (hnamed : v.vertexId ∈ vertexIds)
    (hlater : Transition.Reachable (step cfg) Transition.anyStep world world') :
    world'.db.queue.lookup v.vertexId = none ∧
    ∀ id row', world'.db.attempts.lookup id = some row' → row'.vertexId = v.vertexId →
      ∃ row, world.db.attempts.lookup id = some row ∧ row.vertexId = v.vertexId := by
  obtain ⟨e₀, he₀, hcreat⟩ := List.mem_filterMap.mp hv
  have hpairs := shadowsDead_of_reachable h
  rw [ShadowsDead, hlog] at hpairs
  have hdead : Dead world v := (List.pairwise_append.mp hpairs).2.2 e₀ he₀ e List.mem_cons_self v
    hcreat ⟨vertexIds, hbody, hnamed, hrun⟩
  suffices hrun : Reachable cfg world' ∧ Dead world' v ∧ ∀ id row', _ from
    ⟨hrun.2.1.queue, hrun.2.2⟩
  refine hlater.invariant (I := fun mid => Reachable cfg mid ∧ Dead mid v ∧ ∀ id row',
    mid.db.attempts.lookup id = some row' → row'.vertexId = v.vertexId →
    ∃ row, world.db.attempts.lookup id = some row ∧ row.vertexId = v.vertexId)
    ⟨h, hdead, fun id row hrow hid => ⟨row, hrow, hid⟩⟩ ?_
  rintro mid _ a ⟨hmid, hmidD, hold⟩ _ hstep
  refine ⟨hmid.tail trivial hstep, hmidD.step hmid hstep, fun id row' hrow' hid => ?_⟩
  obtain ⟨row, hrow, hid⟩ := hmidD.attempt_step hmid hstep hrow' hid
  exact hold id row hrow hid

/-- The vertices an event shadows. -/
def EventBody.shadowed? : EventBody → Option (List VertexId)
  | .subgraphShadowed vertexIds => some vertexIds
  | _ => none

/-- A try fails, its scope is cancelled on request, and the pivot of the scope is shadowed. -/
def shadowedPivot : List Action :=
  failedCall ++ drive 1 1 ++ [requestCancel 1 5 10, .poll 1] ++ drive 1 3 ++
    [.engineAppend 1 [{ body := .subgraphShadowed [20] }]]

theorem shadowed_work_dead_shadowedPivot :
    ∃ before e, (World.after {} shadowedPivot).db.log = before ++ [e] ∧
      e.body = .subgraphShadowed [20] ∧ ∀ world', Transition.Reachable (step {}) Transition.anyStep
        (World.after {} shadowedPivot) world' →
        world'.db.queue.lookup 20 = none ∧
        ∀ id row', world'.db.attempts.lookup id = some row' → row'.vertexId = 20 →
          ∃ row, (World.after {} shadowedPivot).db.attempts.lookup id = some row ∧
            row.vertexId = 20 := by
  have hreach : Reachable {} (World.after {} shadowedPivot) := reachable_after (by decide +kernel)
  have hlast : (World.after {} shadowedPivot).db.log.getLast?.map
      (fun e => (e.runId, e.body.shadowed?)) = some (1, some [20]) := by decide +kernel
  have hcreat : ((World.after {} shadowedPivot).db.log.dropLast.filterMap Event.created?).any
      (fun v => v.vertexId == 20 && v.runId == 1) = true := by decide +kernel
  obtain ⟨e, he, hfacts⟩ := Option.map_eq_some_iff.mp hlast
  obtain ⟨hrun, _⟩ := Prod.mk.inj hfacts
  have hbody : e.body = .subgraphShadowed [20] := by
    cases hbody : e.body <;> simp_all [EventBody.shadowed?]
  obtain ⟨v, hv, hver⟩ := List.any_eq_true.mp hcreat
  simp only [Bool.and_eq_true, beq_iff_eq] at hver
  have hlog := (List.dropLast_append_getLast? e he).symm
  refine ⟨_, e, hlog, hbody, fun world' hlater => ?_⟩
  have hdead := shadowed_work_dead hreach hlog hbody hv (hver.2.trans hrun.symm)
    (by simp [hver.1]) hlater
  rw [hver.1] at hdead
  exact hdead

end Flory
