import Flory.Calls
import Flory.Holding
import Flory.Origins

/-!
# Work Behind the Pivot

Rule R1 asks that whatever a proposal orders behind the pivot of a scope can be retried. The
runtime decides by other means: any member that is not a try can be claimed once the pivot has
passed, wherever the graph has put it. This module relates the two. Work moves along the parent
edges (`Forward`): what a worker holds, what has succeeded and what has passed as a pivot has
only succeeded parents. So behind a passed pivot the tries of its scope and its ancestors have
all succeeded, and what is left of the scope is behind the pivot in the graph, where R1 applies,
or parallel to it.

## Main results

* `forward_of_reachable`: work moves along the parent edges.
* `scopesSubmitted_of_reachable`: the members of a scope come from one submission.
* `work_behind_pivot_retry_safe`: the calls that start behind a passed pivot are retry-safe,
  when those parallel to it are and nothing is called again that has succeeded.
* `unsafe_work_behind_pivot`: each of these conditions is needed.
-/

namespace Flory

open Except (error ok)

variable {world : World} {pc : Pc} {cfg : Config} {v : CreatedVertex} {s : ScopeId}

/-! ### Successes -/

/-- Whether the log records that a vertex succeeded. -/
def Db.done (db : Db) (v : VertexId) : Bool :=
  db.log.any fun e => e.body.isSucceeded && e.vertexId == some v

section Done

variable {db db' : Db} {v : VertexId}

theorem done_iff : db.done v = true ↔
    ∃ e ∈ db.log, e.body.isSucceeded = true ∧ e.vertexId = some v := by
  simp [Db.done, List.any_eq_true]

/-- What a longer log records. -/
theorem done_append {new : List Event} (hlog : db'.log = db.log ++ new) :
    db'.done v = true ↔ db.done v = true ∨
      ∃ e ∈ new, e.body.isSucceeded = true ∧ e.vertexId = some v := by
  simp only [done_iff, hlog, List.mem_append, or_and_right, exists_or]

theorem done_mono {new : List Event} (hlog : db'.log = db.log ++ new) (h : db.done v = true) :
    db'.done v = true :=
  (done_append hlog).mpr (.inl h)

/-- A parent that lets its child be claimed has succeeded. -/
theorem done_of_succeeded {runId : RunId} (h : db.succeeded runId v = true) : db.done v = true := by
  simp only [Db.succeeded, List.any_eq_true, Bool.and_eq_true, beq_iff_eq] at h
  obtain ⟨e, he, ⟨hbody, -⟩, hv⟩ := h
  exact done_iff.mpr ⟨e, he, hbody, hv⟩

/-- The parents of a ready vertex have succeeded. -/
theorem done_of_ready {cls : ExecutorClass} {row : QueueRow} (h : ready db cls row = true) :
    ∀ p ∈ row.parentRefs, db.done p = true := by
  simp only [ready, Bool.and_eq_true, List.all_eq_true] at h
  exact fun p hp => done_of_succeeded (h.2 p hp)

end Done

/-- Whether the parents of a vertex have succeeded. -/
def Db.parentsDone (db : Db) (v : VertexId) : Bool :=
  db.vertices.all fun u => u.vertexId != v || u.parentRefs.all db.done

variable {db : Db}

/-- The parents of a created vertex, one by one. -/
theorem parentsDone_iff {v : VertexId} : db.parentsDone v = true ↔
    ∀ u ∈ db.vertices, u.vertexId = v → ∀ p ∈ u.parentRefs, db.done p = true := by
  simp only [Db.parentsDone, List.all_eq_true, Bool.or_eq_true, bne_iff_ne, ne_eq]
  exact forall₂_congr fun u _ => ⟨fun h hv => h.resolve_left (not_not.mpr hv), fun h => by tauto⟩

/-- Whether an action of the Engine keeps to the parent edges: it records the success of a
vertex behind those of its parents. -/
def followsParents (world : World) : Action → Bool
  | .engineAppend _ drafts => drafts.all fun draft =>
    !draft.body.isSucceeded || draft.vertexId.all world.db.parentsDone
  | _ => true

/-! ### Work along the parent edges -/

/-- **Work moves along the parent edges**: what is held, has succeeded or has passed as a pivot
has only succeeded parents, and a sealed try has succeeded. -/
structure Forward (world : World) : Prop where
  held : ∀ w item, (world.workers w).stage.item? = some item → ∀ p ∈ item.parentRefs,
    world.db.done p = true
  succeeded : ∀ v ∈ world.db.vertices, world.db.done v.vertexId = true → ∀ p ∈ v.parentRefs,
    world.db.done p = true
  passed : ∀ e ∈ world.db.log, e.body.isPivotPassed = true → ∃ p ∈ world.db.vertices,
    p.scopeId = e.scopeId ∧ p.payload.txn.effectClass = .irreversible ∧
    ∀ q ∈ p.parentRefs, world.db.done q = true
  sealed : ∀ key row, world.db.brackets.lookup key = some row →
    world.db.done row.tryVertexId = true

variable {db' : Db}

/-- A success or a passed pivot is that of the item its worker holds. -/
theorem WorkerEvent.held_item {e : Event} (h : WorkerEvent db db' pc e)
    (hbody : e.body.isSucceeded = true ∨ e.body.isPivotPassed = true) :
    ∃ item, pc.stage.item? = some item ∧ e.vertexId = some item.vertexId := by
  cases h with
  | plain =>
    cases hb : e.body <;>
      simp_all [EventBody.isPlain, EventBody.isSucceeded, EventBody.isPivotPassed]
  | barrier hpc _ hv | sealed hpc _ hv | succeeded hpc _ hv | pivotSucceeded hpc _ hv
  | passed hpc _ _ hv => exact ⟨_, by rw [hpc]; rfl, hv⟩
  | tried _ hb | admitted _ hb | confirmed _ hb | requested _ hb | completed _ hb =>
    simp [hb, EventBody.isSucceeded, EventBody.isPivotPassed] at hbody

/-- A passed pivot is that of an irreversible item, in its scope. -/
theorem WorkerEvent.pivot_item {e : Event} (h : WorkerEvent db db' pc e) (hrout : pc.Routed)
    (hbody : e.body.isPivotPassed = true) :
    ∃ item, pc.stage.item? = some item ∧ item.scopeId = e.scopeId ∧
      item.payload.txn.effectClass = .irreversible := by
  cases h with
  | passed hpc hpas hrun hv hs hrow hstate hpiv hrow' hstate' =>
    rename_i item result row row'
    rw [hpc] at hrout ⊢
    refine ⟨item.item, rfl, item.inScope.trans hs.symm, ?_⟩
    exact (congrArg TransactionSpec.effectClass (tool_txn item.item)).symm.trans hrout
  | plain =>
    cases hb : e.body <;> simp_all [EventBody.isPlain, EventBody.isPivotPassed]
  | barrier | sealed | succeeded | pivotSucceeded =>
    cases hb' : e.body <;> simp_all [EventBody.isSucceeded, EventBody.isPivotPassed]
  | tried _ hb | admitted _ hb | confirmed _ hb | requested _ hb | completed _ hb =>
    simp [hb, EventBody.isPivotPassed] at hbody

/-- A sealed try is recorded together with its success. -/
theorem WorkerStep.sealed_done {me : WorkerId} {pc' : Pc} (h : WorkerStep cfg me db pc db' pc')
    {key : String} {row' : BracketRow} (hnone : db.brackets.lookup key = none)
    (hrow' : db'.brackets.lookup key = some row') : db'.done row'.tryVertexId = true := by
  cases h with
  | sealed hscope htry hkey hexis =>
    rename_i item result deadline s
    have hlook : AList.lookup key (AList.insert item.tool.txn.idempotencyKey
        (sealedRow db item s deadline) db.brackets) = some row' := hrow'
    rw [Table.lookup_insert_eq, hnone] at hlook
    split at hlook
    · cases hlook
      refine done_iff.mpr ⟨_, List.mem_append_right _ (List.mem_singleton_self _), rfl, rfl⟩
    · cases hlook
  | confirmed hrow hrun hscope hstate =>
    have hlook : AList.lookup key (AList.insert _ _ db.brackets) = some row' := hrow'
    rw [Table.lookup_insert_eq, hnone] at hlook
    split at hlook
    · rename_i heq
      rw [heq, hrow] at hnone
      cases hnone
    · cases hlook
  | cancelCompleted =>
    have hlook : (cancelBrackets db _ _).lookup key = some row' := hrow'
    rw [cancelBrackets, Table.lookup_mapRows, hnone] at hlook
    cases hlook
  | _ => exact absurd (hnone.symm.trans hrow') (by simp)

section Step

variable {world' : World} {a : Action} {w : WorkerId}

/-- A vertex that has succeeded was created before. -/
theorem known_of_done (hreach : Reachable cfg world) (hreach' : Reachable cfg world')
    (hstep : step cfg world a = some world') (hv : v ∈ world'.db.vertices)
    (hdone : world.db.done v.vertexId = true) : v ∈ world.db.vertices := by
  obtain ⟨e, he, hbody, hid⟩ := done_iff.mp hdone
  obtain ⟨v₀, hv₀, hid₀, -⟩ := (succeededOnce_of_reachable hreach).sealed e he hbody
  have heq := (frozen_of_reachable hreach').eq_of_vertexId (vertices_mono hstep hv₀) hv
    (Option.mem_unique hid₀ hid)
  exact heq ▸ hv₀

/-- A move of a worker keeps work on the parent edges. -/
theorem Forward.move (h : Forward world) (hreach : Reachable cfg world)
    (hmove : WorkerMove cfg world a world' w) : Forward world' := by
  obtain ⟨new, hlog, hnew⟩ := hmove.step.log
  have hvert := hmove.step.vertices
  have hfroz := frozen_of_reachable hreach
  have hmono : ∀ {p : VertexId}, world.db.done p = true → world'.db.done p = true := done_mono hlog
  -- the vertex of an event is the item its worker holds
  have hnewP : ∀ e ∈ new, e.body.isSucceeded = true ∨ e.body.isPivotPassed = true →
      ∀ v ∈ world.db.vertices, e.vertexId = some v.vertexId → ∀ p ∈ v.parentRefs,
      world.db.done p = true := by
    intro e he hbody v hv hid p hp
    obtain ⟨item, hitem, hver⟩ := (hnew.origin e he).held_item hbody
    obtain rfl := hfroz.eq_of_vertexId (hfroz.held w item hitem) hv (Option.mem_unique hver hid)
    exact h.held w item hitem p hp
  constructor
  · intro w' item hitem p hp
    by_cases hw : w' = w
    · subst hw
      rcases hmove.step.dispatched hitem with hold | ⟨-, ⟨row, -, hready, hver⟩, -⟩
      · exact hmono (h.held w' item hold p hp)
      · have hpar : item.parentRefs = row.parentRefs := congrArg CreatedVertex.parentRefs hver
        exact hmono (done_of_ready hready p (hpar ▸ hp))
    · rw [hmove.others w' hw] at hitem
      exact hmono (h.held w' item hitem p hp)
  · intro v hv hdone p hp
    rw [hvert] at hv
    rcases (done_append hlog).mp hdone with hold | ⟨e, he, hbody, hid⟩
    · exact hmono (h.succeeded v hv hold p hp)
    · exact hmono (hnewP e he (.inl hbody) v hv hid p hp)
  · intro e he hbody
    rw [hvert]
    rw [hlog] at he
    rcases List.mem_append.mp he with he | he
    · obtain ⟨p, hp, hs, hpiv, hpar⟩ := h.passed e he hbody
      exact ⟨p, hp, hs, hpiv, fun q hq => hmono (hpar q hq)⟩
    obtain ⟨item, hitem, hs, hpiv⟩ :=
      (hnew.origin e he).pivot_item (routed_of_reachable hreach w) hbody
    exact ⟨item.vertex, hfroz.held w item hitem, hs, hpiv,
      fun q hq => hmono (h.held w item hitem q hq)⟩
  · intro key row' hrow'
    cases hrow : world.db.brackets.lookup key with
    | none => exact hmove.step.sealed_done hrow hrow'
    | some row =>
      have hsame : row'.tryVertexId = row.tryVertexId := by
        have hbrac := hmove.step.bracket key
        rw [hrow, hrow'] at hbrac
        cases hbrac <;> rfl
      rw [hsame]
      exact hmono (h.sealed key row hrow)

/-- What the Engine appends along the parent edges: no passed pivot, and a success only behind
the parents of its vertex. -/
theorem EngineAction.forward (h : EngineAction world.db a db')
    (hfol : followsParents world a = true) :
    ∃ new, db'.log = world.db.log ++ new ∧ ∀ e ∈ new, e.body.isPivotPassed = false ∧
      (e.body.isSucceeded = true → ∀ v ∈ db'.vertices, e.vertexId = some v.vertexId →
        ∀ p ∈ v.parentRefs, world.db.done p = true) := by
  cases h with
  | freeze hfreez happ =>
    obtain ⟨new, hlog, hmap, -⟩ := appendEvents_log rfl happ
    refine ⟨new, hlog, fun e he => ?_⟩
    rcases body_of_freezeDrafts (hmap ▸ List.mem_map_of_mem he) with hbody | ⟨_, hbody⟩ <;>
      simp [hbody, EventBody.isPivotPassed, EventBody.isSucceeded]
  | @batch runId drafts _ hdraf happ =>
    obtain ⟨new, hlog, hmap, -⟩ := appendEvents_log rfl happ
    have hmem : ∀ e ∈ new, e.toEventDraft ∈ drafts := fun e he => hmap ▸ List.mem_map_of_mem he
    have heng : ∀ e ∈ new, engineDraft e.toEventDraft = true := fun e he =>
      List.all_eq_true.mp hdraf _ (hmem e he)
    have hver : db'.vertices = world.db.vertices := by
      refine vertices_append hlog fun e he => ?_
      have hdraft := heng e he
      cases hbody : e.body <;> simp_all [engineDraft, EventBody.isCreated]
    refine ⟨new, hlog, fun e he => ⟨?_, fun hbody v hv hid => ?_⟩⟩
    · have hdraft := heng e he
      cases hbody : e.body <;> simp_all [engineDraft, EventBody.isPivotPassed]
    · rw [hver] at hv
      have hpar := List.all_eq_true.mp hfol _ (hmem e he)
      simp only [hbody, hid, Bool.not_true, Bool.false_or, Option.all_some] at hpar
      exact parentsDone_iff.mp hpar v hv rfl
  | silent hlog => exact ⟨[], by simp [hlog], by simp⟩

/-- A transaction of the Engine that keeps to the parent edges keeps work on them. -/
theorem Forward.environment (h : Forward world) (hreach : Reachable cfg world)
    (hreach' : Reachable cfg world') (hstep : step cfg world a = some world')
    (hfol : followsParents world a = true) (henv : EnvironmentStep world.db world'.db)
    (hwor : world'.workers = world.workers) (hact : EngineAction world.db a world'.db) :
    Forward world' := by
  obtain ⟨_, hlog, hnew⟩ := hact.forward hfol
  have hmono : ∀ {p : VertexId}, world.db.done p = true → world'.db.done p = true := done_mono hlog
  constructor
  · intro w item hitem p hp
    rw [hwor] at hitem
    exact hmono (h.held w item hitem p hp)
  · intro v hv hdone p hp
    rcases (done_append hlog).mp hdone with hold | ⟨e, he, hbody, hid⟩
    · exact hmono (h.succeeded v (known_of_done hreach hreach' hstep hv hold) hold p hp)
    · exact hmono ((hnew e he).2 hbody v hv hid p hp)
  · intro e he hbody
    rw [hlog] at he
    rcases List.mem_append.mp he with he | he
    · obtain ⟨p, hp, hs, hpiv, hpar⟩ := h.passed e he hbody
      exact ⟨p, vertices_mono hstep hp, hs, hpiv, fun q hq => hmono (hpar q hq)⟩
    · rw [(hnew e he).1] at hbody
      cases hbody
  · intro key row hrow
    rw [henv.brackets] at hrow
    exact hmono (h.sealed key row hrow)

end Step

/-- **Work moves along the parent edges** in every run whose Engine keeps to them. -/
theorem forward_of_reachable
    (h : ReachableUnder cfg (fun world a => followsParents world a = true) world) :
    Forward world := by
  refine h.invariant_of (I := Forward) (K := Reachable cfg) (fun _ hreach => hreach.any) ?_ ?_
  · refine ⟨nofun, nofun, fun e he => ?_, nofun⟩
    cases he
  · intro mid mid' a hmid hmid' hfor hfol hstep
    rcases step_actions hstep with ⟨w, hmove⟩ | ⟨henv, hwor, hact, -⟩
    · exact hfor.move hmid hmove
    · exact hfor.environment hmid hmid' hstep hfol henv hwor hact

/-! ### Rules for what is parallel to a pivot -/

/-- Whether every scope lists the vertices that name it. -/
def listsMembers (context : GraphContext) : Bool :=
  context.vertices.entries.all fun entry =>
    entry.2.scopeId.all fun s => (context.membersOf s).contains entry.1

/-- Whether a member with an effect that is no try, and that the graph does not order with the
pivot, is retry-safe. -/
def retrySafeBeside (context : GraphContext) (pivotId memberId : String) : Bool :=
  (context.tools.get? memberId).all fun tool =>
    memberId == pivotId || (context.ancestorsOf pivotId).contains memberId ||
      (context.descendantsOf pivotId).contains memberId || tool.effectClass == .none ||
      tool.mode.isTry || tool.idempotentRetryable

/-- Whether a workflow lists its members, and those parallel to a pivot are retry-safe. -/
def parallelSafe (workflow : WorkflowSubmission) (resolved : ResolvedToolView) : Bool :=
  match buildContext (lowerToProposal workflow) resolved.registry with
  | ok context => listsMembers context && workflow.scopes.all fun scope =>
    (scopePivots context scope.id).all fun pivotId =>
      (context.membersOf scope.id).all (retrySafeBeside context pivotId)
  | error _ => false

section Static

variable {catalogue : Catalogue} {runId : RunId} {vertices : List FrozenVertex}
  {workflow : WorkflowSubmission} {resolved : ResolvedToolView} {newId : ℕ → ℕ}
  {context : GraphContext} {ordered : List SubmittedVertex}
  (h : Admission db runId vertices workflow resolved newId context ordered)

include h

/-- A vertex that names a scope is listed by it. -/
theorem Admission.listed (hlists : listsMembers context = true) {vertex : SubmittedVertex}
    {fv : FrozenVertex} (horig : h.From vertex fv) {name : String}
    (hname : given vertex.scope = some name) : vertex.id ∈ context.membersOf name := by
  have hver : context.vertices.get? vertex.id = some (lowerVertex vertex) := by
    rw [h.vertex, horig.known, Option.map_some]
  have hlis := List.all_eq_true.mp hlists _ (OrderedMap.get?_eq_some_iff.mp hver)
  simpa [lowerVertex, hname] using hlis

/-- **What the rules leave for the other side of a pivot**: a member that is no try and no
ancestor of the pivot is retry-safe. -/
theorem Admission.retryable (hpub : catalogue.view resolved.digest = some resolved)
    (hdis : Function.Injective newId) (hsafe : parallelSafe workflow resolved = true)
    {p v : SubmittedVertex} {fp fv : FrozenVertex} (hp : h.From p fp) (hv : h.From v fv)
    (hps : fp.scopeId = some s) (hvs : fv.scopeId = some s)
    (hpivot : fp.payload.txn.effectClass = .irreversible)
    (heff : fv.payload.txn.effectClass ≠ .none)
    (hreg : fv.payload.txn.effectClass ≠ .irreversible)
    (hplain : fv.payload.txn.mode.isTry = false) (hbef : ¬ context.Before v.id p.id) :
    ∃ contract, catalogue.contract? fv.payload = some contract ∧
      contract.txn.idempotentRetryable = true := by
  have hwrit : fp.payload.txn.effectClass ≠ .none := by simp [hpivot]
  obtain ⟨_, htool⟩ := tool_of_effect hwrit
  obtain ⟨_, htool'⟩ := tool_of_effect heff
  obtain ⟨pc, -, -, hptool, _, _, _, _, hpsp⟩ := h.contract hpub hp htool
  obtain ⟨vc, -, hvcon, hvtool, _, _, _, _, hvsp⟩ := h.contract hpub hv htool'
  refine ⟨vc, hvcon, ?_⟩
  rw [htool] at hpivot
  rw [htool'] at heff hreg hplain
  simp only [VertexPayload.txn, hpsp, hvsp, compileTxn] at hpivot heff hreg hplain
  -- the two are members of one scope of the proposal
  obtain ⟨scope, hscope, hpname, hpid⟩ := hp.named hps
  obtain ⟨_, -, hvname, hvid⟩ := hv.named hvs
  rw [← scopeIds_inj hdis hpid hvid] at hvname
  simp only [parallelSafe, h.built, Bool.and_eq_true, List.all_eq_true] at hsafe
  obtain ⟨hlis, hbes⟩ := hsafe
  have hpmem := h.listed hlis hp hpname
  have hvmem := h.listed hlis hv hvname
  have hpiv : p.id ∈ scopePivots context scope.id := by
    refine List.mem_filter.mpr ⟨List.mem_map.mpr ⟨(p.id, pc.definition), ?_, rfl⟩,
      List.contains_iff_mem.mpr hpmem⟩
    exact List.mem_filter.mpr ⟨OrderedMap.get?_eq_some_iff.mp hptool,
      by simp [ToolContract.definition, hpivot]⟩
  by_cases hbeh : context.Before p.id v.id
  · exact retryable_of_accepted (buildContext_ok h.built) h.rules hscope hpiv hvmem hvtool hbeh
  have hcon := buildContext_ok h.built
  have hne : v.id ≠ p.id := by
    intro heq
    rw [heq, hptool] at hvtool
    exact hreg ((congrArg ToolDefinition.effectClass (Option.some.inj hvtool)).symm.trans hpivot)
  have hsafe := hbes scope hscope p.id hpiv v.id hvmem
  rw [← context_ancestors hcon] at hbef
  rw [← context_descendants hcon] at hbeh
  simpa [retrySafeBeside, hvtool, ToolContract.definition, hne, hbef, hbeh, heff,
    hplain] using hsafe

/-- The ancestors of a vertex whose parents have succeeded have succeeded. -/
theorem Forward.ancestor (hfor : Forward world)
    (hfroz : ∀ fv ∈ vertices, fv.vertex runId ∈ world.db.vertices) {p : SubmittedVertex}
    {fp : FrozenVertex} (hp : p ∈ ordered) (horig : h.From p fp)
    (hparen : ∀ q ∈ fp.parentRefs, world.db.done q = true) {x : String}
    (hbef : context.Before x p.id) :
    ∃ u ∈ ordered, u.id = x ∧ ∃ fu ∈ vertices, h.From u fu ∧
      world.db.done fu.vertexId = true := by
  induction hbef using Relation.TransGen.head_induction_on with
  | single hpar =>
    obtain ⟨u, hu, hid, fu, hfu, hufu, hmem⟩ := h.parent hp horig hpar
    exact ⟨u, hu, hid, fu, hfu, hufu, hparen _ hmem⟩
  | head hpar _ ih =>
    obtain ⟨c, hc, rfl, fc, hfc, hcfc, hdone⟩ := ih
    obtain ⟨u, hu, hid, fu, hfu, hufu, hmem⟩ := h.parent hc hcfc hpar
    exact ⟨u, hu, hid, fu, hfu, hufu, hfor.succeeded _ (hfroz fc hfc) hdone _ hmem⟩

end Static

/-! ### Calls behind a passed pivot -/

/-- Whether a worker calls nothing that has succeeded. -/
def callsUnfinished (world : World) : Action → Bool
  | .advance w =>
    match world.workers w with
    | .record (.regular item) _ => !world.db.done item.vertexId
    | _ => true
  | _ => true

/-- The steps of a run that keeps what is called behind a pivot retry-safe: its submissions list
their members and are retry-safe beside their pivots, its Engine keeps to the parent edges, and
its workers call nothing that has succeeded. -/
structure KeepsRetrySafe (catalogue : Catalogue) (world : World) (a : Action) : Prop where
  freezes : FreezesSubmitted catalogue parallelSafe world a
  follows : followsParents world a = true
  unfinished : callsUnfinished world a = true

/-- A try of a scope whose pivot has passed has succeeded. -/
theorem done_of_passed (hreach : Reachable cfg world) (hfor : Forward world) {scope : ScopeRow}
    (hscope : world.db.scopes.lookup s = some scope) (hadm : scope.state.isAdmitted = true)
    (hv : v ∈ world.db.vertices) (hs : v.scopeId = some s) (htry : v.payload.mode.isTry = true) :
    world.db.done v.vertexId = true := by
  have hreq := (scoped_of_reachable hreach).mem_required (frozen_of_reachable hreach) hscope hv
    hs htry
  obtain ⟨key, row, hrow, hrowv, -⟩ :=
    (bracketed_of_reachable hreach).complete s scope hscope hadm _ hreq
  exact hrowv ▸ hfor.sealed key row hrow

/-- **A call behind a passed pivot**: its vertex is held by a worker, has not succeeded, and is
neither a try nor a pivot. -/
theorem call_behind_pivot {world' : World} {a : Action} (hreach : Reachable cfg world)
    (hfor : Forward world) (hunf : callsUnfinished world a = true)
    (hstep : step cfg world a = some world') {id : ℕ} {attempt : AttemptRow}
    (hnew : world.db.attempts.lookup id = none)
    (hatt : world'.db.attempts.lookup id = some attempt)
    (hoper : attempt.operation = .call ∨ attempt.operation = .pivot) {scope : ScopeRow}
    (hscope : world.db.scopes.lookup s = some scope) (hpas : scope.state.isPassed = true)
    (hs : attempt.scopeId = some s) (hv : v ∈ world.db.vertices)
    (hver : v.vertexId = attempt.vertexId) :
    v.scopeId = some s ∧ world.db.done v.vertexId = false ∧
      v.payload.txn.effectClass ≠ .irreversible ∧ v.payload.txn.mode.isTry = false := by
  obtain ⟨w, site, n, rfl, hpc, rfl, -, hstat⟩ := attempt_of_step hreach hstep hnew hatt
  obtain ⟨_, hrow, hadm⟩ := hstat s hs
  obtain rfl := Option.mem_unique hscope hrow
  rcases hoper with hcall | hpiv
  · have hcall : site.call.operation = .call := hcall
    have hadmit : scope.state.isAdmitted = true := by
      rw [hcall] at hadm
      revert hadm hpas
      cases scope.state <;>
        simp [Operation.admissible, ScopeState.isPassed, ScopeState.isAdmitted]
    obtain ⟨item, rfl⟩ := regular_of_call hcall
    have hfroz := frozen_of_reachable hreach
    obtain rfl := hfroz.eq_of_vertexId (hfroz.held w item (by rw [hpc]; rfl)) hv hver.symm
    have hdone : world.db.done item.vertexId = false := by
      simpa [callsUnfinished, hpc] using hunf
    refine ⟨hs, hdone, fun heq => ?_, ?_⟩
    · have hrout := routed_of_reachable hreach w
      rw [hpc] at hrout
      exact hrout ((congrArg TransactionSpec.effectClass (tool_txn item)).trans heq)
    by_contra htry
    rw [Bool.not_eq_false, txn_mode] at htry
    have htried := done_of_passed hreach hfor hscope hadmit hv hs htry
    rw [show item.vertex.vertexId = item.vertexId from rfl, hdone] at htried
    cases htried
  · -- the pivot itself is called in a state it has left
    have hpiv : site.call.operation = .pivot := hpiv
    rw [hpiv] at hadm
    simp only [Operation.admissible, List.mem_singleton] at hadm
    rw [hadm] at hpas
    cases hpas

/-- **Work behind the pivot is retry-safe**: in a run that keeps it so, a call or pivot attempt
that starts behind the passed pivot of its scope, for a vertex with an effect, uses a tool whose
contract is idempotent-retryable. -/
theorem work_behind_pivot_retry_safe {catalogue : Catalogue} {cfg : Config} {world world' : World}
    {a : Action} (h : ReachableUnder cfg (KeepsRetrySafe catalogue) world)
    (hallowed : KeepsRetrySafe catalogue world a) (hstep : step cfg world a = some world') {id : ℕ}
    {attempt : AttemptRow} (hnew : world.db.attempts.lookup id = none)
    (hattempt : world'.db.attempts.lookup id = some attempt)
    (hoperation : attempt.operation = .call ∨ attempt.operation = .pivot) {e : Event}
    (he : e ∈ world.db.log) (hpassed : e.body = .txnPivotPassed) (hs : attempt.scopeId = e.scopeId)
    {v : CreatedVertex} (hv : v ∈ world.db.vertices) (hvertex : v.vertexId = attempt.vertexId)
    (heffect : v.payload.txn.effectClass ≠ .none) :
    ∃ contract, catalogue.contract? v.payload = some contract ∧
      contract.txn.idempotentRetryable = true := by
  have hreach : Reachable cfg world := h.any
  have hfor : Forward world := forward_of_reachable (h.mono fun _ _ h => h.follows)
  have hpiv : e.body.isPivotPassed = true := by rw [hpassed]; rfl
  obtain ⟨s, _, hes, hscope, hstate, -⟩ :=
    (gated_of_reachable hreach).passed e he hpiv
  obtain ⟨hvs, hunf, hreg, hplain⟩ := call_behind_pivot hreach hfor
    hallowed.unfinished hstep hnew hattempt hoperation hscope hstate (hs.trans hes) hv hvertex
  -- the pivot and the vertex come from one submission
  obtain ⟨p, hp, hps, hpivot, hpar⟩ := hfor.passed e he hpiv
  obtain ⟨_, runId, _, _, _, _, horig⟩ :=
    scopesSubmitted_of_reachable (h.mono fun _ _ h => h.freezes) p hp s (hps.trans hes)
  obtain ⟨fp, hfp, rfl⟩ := horig.members p hp (hps.trans hes)
  obtain ⟨fv, hfv, rfl⟩ := horig.members v hv hvs
  obtain ⟨_, _, hadm⟩ := horig.submitted.admission
  obtain ⟨sp, hsp, hspfp⟩ := hadm.origin hfp
  obtain ⟨sv, _, hsvfv⟩ := hadm.origin hfv
  refine hadm.retryable horig.submitted.published horig.submitted.distinct
    horig.accepted hspfp hsvfv (hps.trans hes) hvs hpivot heffect hreg hplain fun hbef => ?_
  -- an ancestor of the pivot has succeeded
  obtain ⟨u, hu, hid, fu, _, hufu, hdone⟩ :=
    hfor.ancestor hadm horig.frozen hsp hspfp hpar hbef
  have hsame : fu.vertexId = fv.vertexId :=
    Option.some.inj ((hid ▸ hufu.id).symm.trans hsvfv.id)
  rw [hsame, show fv.vertexId = (fv.vertex runId).vertexId from rfl, hunf] at hdone
  cases hdone

/-- A reservation, a payment and a shipment behind it, which can be retried. -/
def shipping : WorkflowSubmission where
  vertices := [shopCall "a" "reserve", shopCall "p" "pay" ["a"], shopCall "s" "ship" ["p"]]
  scopes := [⟨"S", ["a", "p", "s"]⟩]

/-- The reservation and then the payment succeed, and another worker is about to call what
comes next. -/
def payThenCall : List Action :=
  callNext 1 ++ [reply 1 .succeeded] ++ drive 1 3 ++ .poll 1 :: drive 1 5 ++
    [reply 1 .succeeded] ++ drive 1 2 ++ .poll 2 :: drive 2 4

/-- Whether a step without a freeze keeps what is called behind a pivot retry-safe. -/
def keepsRetrySafe (world : World) : Action → Bool
  | .freeze _ _ _ => false
  | a => followsParents world a && callsUnfinished world a

/-- A step that passes the test. -/
theorem keepsRetrySafe_sound (catalogue : Catalogue) {a : Action}
    (h : keepsRetrySafe world a = true) : KeepsRetrySafe catalogue world a := by
  cases a with
  | freeze => cases h
  | _ =>
    simp only [keepsRetrySafe, Bool.and_eq_true] at h
    exact ⟨trivial, h.1, h.2⟩

/-- The world in which the shipment is about to be called. -/
def shippedRun : World :=
  (submittedRun shipping).playUnder .standard keepsRetrySafe payThenCall

/-- The shipment behind a passed pivot is retry-safe. -/
theorem work_behind_pivot_retry_safe_shipping :
    ∃ v ∈ shippedRun.db.vertices, v.payload.txn.effectClass = .bufferable ∧
      ∃ contract, shopCatalogue.contract? v.payload = some contract ∧
        contract.txn.idempotentRetryable = true := by
  have hsub : KeepsRetrySafe shopCatalogue (World.after {} [.createRun 1])
      (.freeze 1 (shopFreeze oneRun 1 shipping)) :=
    ⟨⟨_, _, _, shop_submitted (by decide +kernel), by decide +kernel⟩, rfl, rfl⟩
  have hreach : ReachableUnder {} (KeepsRetrySafe shopCatalogue) shippedRun :=
    (reachable_submittedRun ⟨trivial, rfl, rfl⟩ hsub (by decide +kernel)).trans
      ((reachable_playUnder (by decide +kernel)).mono fun _ _ => keepsRetrySafe_sound _)
  obtain ⟨world', hstep⟩ := Option.isSome_iff_exists.mp
    (show (step {} shippedRun (.advance 2)).isSome = true by decide +kernel)
  have hatt : ((step {} shippedRun (.advance 2)).bind fun world' =>
      (world'.db.attempts.lookup 3).map fun row => (row.operation, row.scopeId, row.vertexId)) =
      some (.call, some 13, 12) := by decide +kernel
  rw [hstep, Option.bind_some] at hatt
  obtain ⟨_, hattem, hfacts⟩ := Option.map_eq_some_iff.mp hatt
  obtain ⟨hoper, hfacts⟩ := Prod.mk.inj hfacts
  obtain ⟨hscope, hver⟩ := Prod.mk.inj hfacts
  have hpas : shippedRun.db.log.any (fun e => e.body.isPivotPassed && e.scopeId == some 13) =
      true := by decide +kernel
  obtain ⟨e, he, hbody⟩ := List.any_eq_true.mp hpas
  simp only [Bool.and_eq_true, beq_iff_eq] at hbody
  have hcreat : shippedRun.db.vertices.any (fun v => v.vertexId == 12 &&
      v.payload.txn.effectClass == .bufferable) = true := by decide +kernel
  obtain ⟨v, hv, hbuf⟩ := List.any_eq_true.mp hcreat
  simp only [Bool.and_eq_true, beq_iff_eq] at hbuf
  refine ⟨v, hv, hbuf.2, work_behind_pivot_retry_safe hreach
    (keepsRetrySafe_sound _ (by decide +kernel)) hstep (by decide +kernel) hattem
    (.inl hoper) he ?_ (hscope.trans hbody.2.symm) hv (hbuf.1.trans hver.symm)
    (by simp [hbuf.2])⟩
  cases hb : e.body <;> simp_all [EventBody.isPivotPassed]

/-- Whether a step starts the call of a vertex with an effect, behind the passed pivot of its
scope, with a tool that is not retry-safe. -/
def startsUnsafely (catalogue : Catalogue) (world world' : World) : Bool :=
  world'.db.attempts.anyRow fun id attempt => (world.db.attempts.lookup id).isNone &&
    attempt.operation == .call &&
    world.db.log.any (fun e => e.body.isPivotPassed && e.scopeId == attempt.scopeId) &&
    world.db.vertices.any fun v => v.vertexId == attempt.vertexId &&
      v.payload.txn.effectClass != .none &&
      (catalogue.contract? v.payload).any fun contract => !contract.txn.idempotentRetryable

/-- A hold parallel to the payment. -/
def parallelHold : WorkflowSubmission where
  vertices := [shopCall "a" "reserve", shopCall "p" "pay" ["a"], shopCall "h" "hold"]
  scopes := [⟨"S", ["a", "p", "h"]⟩]

/-- A hold behind the payment that its scope does not list. -/
def unlistedHold : WorkflowSubmission where
  vertices := [shopCall "a" "reserve", shopCall "p" "pay" ["a"], shopCall "h" "hold" ["p"]]
  scopes := [⟨"S", ["a", "p"]⟩]

/-- A hold before the payment. -/
def holdThenPay : WorkflowSubmission where
  vertices := [shopCall "h" "hold", shopCall "p" "pay" ["h"]]
  scopes := [⟨"S", ["h", "p"]⟩]

/-- The hold succeeds and its worker crashes before it completes the work; the payment passes,
and the hold is about to be called again once its lease is over. -/
def holdAgain : List Action :=
  .poll 1 :: drive 1 5 ++ [reply 1 .succeeded] ++ drive 1 2 ++ .crash 1 :: .poll 1 :: drive 1 5 ++
    [reply 1 .succeeded] ++ drive 1 2 ++ .tick 31000 :: .poll 2 :: drive 2 4

/-- An admitted submission and a run of it that starts such a call. -/
structure UnsafeRun (submission : WorkflowSubmission) (script : List Action) : Prop where
  admitted : ∃ events, submit oneRun 1 submission shopView {} (10 + ·) 0 = ok (.admitted events) ∧
    shopFreeze oneRun 1 submission = frozenVertices events
  reached : Reachable {} ((submittedRun submission).play {} script)
  starts : ∃ world', step {} ((submittedRun submission).play {} script) (.advance 2) = some world' ∧
    startsUnsafely shopCatalogue ((submittedRun submission).play {} script) world' = true

/-- A run that is evaluated. -/
theorem unsafeRun_of_play {submission : WorkflowSubmission} {script : List Action}
    (hadm : shopAdmits oneRun 1 submission = true)
    (hfreez : (step {} (World.after {} [.createRun 1])
      (.freeze 1 (shopFreeze oneRun 1 submission))).isSome = true)
    (hscr : (Transition.run (step {}) (submittedRun submission) script).isSome = true)
    (hstar : (step {} ((submittedRun submission).play {} script) (.advance 2)).any
      (startsUnsafely shopCatalogue ((submittedRun submission).play {} script)) = true) :
    UnsafeRun submission script where
  admitted := shopFreeze_of_admits hadm
  reached := (reachable_submittedRun trivial trivial hfreez).trans (reachable_play hscr)
  starts := by
    rw [Option.any_eq_true] at hstar
    exact hstar

/-- **Work behind the pivot need not be retry-safe**: an accepted hold that is not retry-safe is
called behind the passed pivot of its scope when it is parallel to the pivot, when its scope does
not list it, and when it has succeeded but is still in the queue. -/
theorem unsafe_work_behind_pivot :
    UnsafeRun parallelHold payThenCall ∧ UnsafeRun unlistedHold payThenCall ∧
      UnsafeRun holdThenPay holdAgain := by
  refine ⟨unsafeRun_of_play ?_ ?_ ?_ ?_, unsafeRun_of_play ?_ ?_ ?_ ?_,
    unsafeRun_of_play ?_ ?_ ?_ ?_⟩ <;> decide +kernel

end Flory
