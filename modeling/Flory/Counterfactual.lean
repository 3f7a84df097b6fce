import Flory.Forks
import Flory.Normalization
import Flory.Origins
import Flory.Pivot

/-!
# Counterfactual Runs Execute Reads

A fork is meant for evaluation: nothing it executes may have an effect. What executes a
vertex is the work queue, and what puts a vertex there is its `vertex/created`, unless it is
an inherited copy. So a fork executes what is frozen into it. The submission path knows
that a run is counterfactual, and asks for it in one place, for the branches a router of
the submission may later emit; the vertices of the submission itself are frozen whatever
their effect.

## Main results

* `branches_read`: a router bound by a submission into a fork has branches that only read.
* `forksRead_of_reachable`: when only reads are frozen into forks, their queued work is
  reads.
* `fork_executes_reads`: both together.
* `fork_executes_write`: a submission that writes is frozen into a fork and queued.
-/

namespace Flory

open Except (ok)
open Fallible (bind_eq_ok map_eq_ok)

variable {catalogue : Catalogue} {db : Db} {runId : RunId} {db' : Db}
  {resolved : ResolvedToolView} {workflow : WorkflowSubmission} {cfg : Config}
  {world world' : World}

/-! ### Branches of routers -/

/-- `RuleBranch`: one branch of a template as its author writes it. -/
structure RuleBranch where
  condition : String := ""
  subDag : SubDagProposal

/-- The position of an effect class in `EFFECT_ORDER`. -/
def EffectClass.rank : EffectClass → ℕ
  | .none => 0
  | .bufferable => 1
  | .reversible => 2
  | .irreversible => 3

/-- `higherEffect`. -/
def higherEffect (first second : EffectClass) : EffectClass :=
  if second.rank ≤ first.rank then first else second

/-- The effects of the tools a proposal calls, as far as the registry knows them. -/
def calledEffects (registry : ToolRegistry) (vertices : List ProposalVertex) : List EffectClass :=
  vertices.filterMap fun vertex =>
    if vertex.kind = .tool then
      ((given vertex.tool).bind registry.definitions.get?).map ToolDefinition.effectClass
    else none

/-- `traitsOf`: a branch with what is derived from its proposal when it is published. -/
def traitsOf (branch : RuleBranch) (resolved : ResolvedToolView) : AdmissibleBranch :=
  let effects := calledEffects resolved.registry branch.subDag.vertices
  { condition := branch.condition
    subDag := branch.subDag
    opensScope := !branch.subDag.scopes.isEmpty
    hasPivot := effects.contains .irreversible
    maxEffect := effects.foldl higherEffect .none }

/-- `toSubmittedVertex`: a vertex of a branch, submitted. -/
def toSubmittedVertex (vertex : ProposalVertex) : SubmittedVertex where
  id := vertex.id
  parents := vertex.parents
  scope := given vertex.scopeId
  kind := match vertex.kind with
    | .tool => .tool (vertex.tool.getD "") (.obj []) none false
    | .router => .router none
    | .planner => .planner
    | .confirmationBarrier => .confirmationBarrier

/-- The submission of a matched branch, behind its router. -/
def branchSubmission (branch : RuleBranch) (routerVertexId : VertexId) : WorkflowSubmission where
  vertices := branch.subDag.vertices.map toSubmittedVertex
  scopes := branch.subDag.scopes
  attachTo := [routerVertexId]

/-- Whether the tools a workflow calls have no effect, as far as the view knows them. -/
def readsOnly (workflow : WorkflowSubmission) (resolved : ResolvedToolView) : Bool :=
  workflow.vertices.all fun vertex =>
    match vertex.kind with
    | .tool tool _ _ _ =>
      ((contractsById resolved.tools).get? tool).all fun contract =>
        contract.txn.effectClass == .none
    | _ => true

/-- The highest of some effects is none only if all of them are. -/
theorem foldl_higherEffect_eq_none {effects : List EffectClass} {start : EffectClass}
    (h : effects.foldl higherEffect start = .none) :
    start = .none ∧ ∀ effect ∈ effects, effect = .none := by
  induction effects generalizing start with
  | nil => exact ⟨h, by simp⟩
  | cons effect rest ih =>
    obtain ⟨hhead, hrest⟩ := ih h
    have hboth : start = .none ∧ effect = .none := by
      revert hhead
      cases start <;> cases effect <;> decide
    exact ⟨hboth.1, by simpa [hboth.2] using hrest⟩

/-- A branch published without an effect is submitted without one, over the view it was
published over. -/
theorem branch_readsOnly {branch : RuleBranch}
    (hnone : (traitsOf branch resolved).maxEffect = .none) {routerVertexId : VertexId}
    {interposed : List String}
    (h : normalizeWorkflow (branchSubmission branch routerVertexId) = ok (workflow, interposed))
    (hnam : (contractsById resolved.tools).get? "" = none) :
    readsOnly workflow resolved = true := by
  obtain ⟨-, hall⟩ := foldl_higherEffect_eq_none hnone
  simp only [readsOnly, List.all_eq_true]
  intro vertex hver
  split
  · rename_i tool input key confirmed hkind
    obtain ⟨proposed, hproposed, rfl⟩ :=
      List.mem_map.mp (normalizeWorkflow_tools h hver hkind)
    have hsame := hkind
    cases hcon : (contractsById resolved.tools).get? tool with
    | none => rfl
    | some =>
      simp only [Option.all_some, beq_iff_eq]
      have htool : proposed.kind = .tool ∧ proposed.tool.getD "" = tool := by
        simp only [toSubmittedVertex] at hsame
        split at hsame <;> simp_all
      have hgiv : given proposed.tool = some tool := by
        cases hprop : proposed.tool with
        | none =>
          rw [hprop] at htool
          rw [← htool.2] at hcon
          simp [hnam] at hcon
        | some name =>
          rw [hprop, Option.getD_some] at htool
          obtain rfl := htool.2
          have hne : name ≠ "" := by
            rintro rfl
            simp [hnam] at hcon
          simp [given, hne]
      refine hall _ (List.mem_filterMap.mpr ⟨proposed, hproposed, ?_⟩)
      rw [if_pos htool.1, hgiv, Option.bind_some, loadToolRegistry_ok resolved.loaded, hcon]
      rfl
  · rfl

/-- A run with a seed floor. -/
def isCounterfactual (db : Db) (runId : RunId) : Bool :=
  (db.runs.lookup runId).any fun run => run.seedFloor.isSome

/-- A published view has no nameless tool. -/
theorem nameless_of_published (h : catalogue.view resolved.digest = some resolved) :
    (contractsById resolved.tools).get? "" = none := by
  cases hcon : (contractsById resolved.tools).get? "" with
  | none => rfl
  | some contract =>
    obtain ⟨hmem, hid⟩ := mem_of_contractsById hcon
    obtain ⟨_, hadm⟩ := catalogue.admitted _ _ h contract hmem
    exact absurd hid (admitted_named hadm)

/-- A branch that passes a read-only slot has no effect. -/
theorem maxEffect_of_admissible {branches : List AdmissibleBranch} {slot : SlotPlacementContext}
    {scopes : List ScopeSnapshot} (hread : slot.isReadOnlyContext = true)
    (h : checkFreezeAdmission branches slot scopes = ok []) {branch : AdmissibleBranch}
    (hbran : branch ∈ branches) : branch.maxEffect = .none := by
  obtain ⟨_, hfound, hnil⟩ := bind_eq_ok.mp h
  obtain ⟨-, hflat⟩ := List.append_eq_nil_iff.mp (Except.ok.inj hnil)
  obtain ⟨i, hi, rfl⟩ := List.getElem_of_mem hbran
  have hent : (i, branches[i]) ∈ branches.mapIdx fun i branch => (i, branch) :=
    List.mem_mapIdx.mpr ⟨i, hi, rfl⟩
  obtain ⟨violations, hviol, hjud⟩ :=
    Fallible.exists_right_of_mem (Fallible.mapM_eq_ok.mp hfound) hent
  have hclean : violations = [] := List.flatten_eq_nil_iff.mp hflat violations hviol
  by_contra hwrit
  simp only [branchViolations, hread, ne_eq, hwrit, not_false_eq_true, and_self, if_true] at hjud
  rw [← Except.ok.inj hjud] at hclean
  cases hclean

/-- **A router bound by a submission into a fork has branches that only read.** -/
theorem branches_read {submission : WorkflowSubmission} {interposed : List String}
    {templates : TemplateResolver} {newId : ℕ → ℕ} {proposedSeq : ℕ} {events : List EventDraft}
    (hfork : isCounterfactual db runId = true)
    (hnor : normalizeWorkflow submission = ok (workflow, interposed))
    (hsub : submit db runId submission resolved templates newId proposedSeq = ok (.admitted events))
    {router : String} {template : PublishedRuleTemplate}
    (hbound : (bindRouters templates workflow).get? router = some (some template))
    {branch : AdmissibleBranch} (hbran : branch ∈ template.branches) :
    branch.maxEffect = .none := by
  obtain ⟨_, _, _, hnor', -, hpas⟩ := submit_admitted hsub
  obtain ⟨rfl, -⟩ := Prod.mk.inj (Except.ok.inj (hnor.symm.trans hnor'))
  obtain ⟨_, hfound, hnil⟩ := map_eq_ok.mp hpas.branches
  obtain ⟨violations, hviol, hjudg⟩ := Fallible.exists_right_of_mem
    (Fallible.mapM_eq_ok.mp hfound) (OrderedMap.get?_eq_some_iff.mp hbound)
  have hclean : violations = [] := List.flatten_eq_nil_iff.mp hnil violations hviol
  obtain ⟨judged, hadm, hmap⟩ := bind_eq_ok.mp hjudg
  have hjud : judged = [] := by
    rw [← Except.ok.inj hmap] at hclean
    exact List.map_eq_nil_iff.mp hclean
  exact maxEffect_of_admissible hfork (hjud ▸ hadm) hbran

/-! ### Runs and their queued work -/

/-- The runs of a database are still there, and counterfactual as before. -/
structure RunsKept (db db' : Db) : Prop where
  known : ∀ r, (db.runs.lookup r).isSome → (db'.runs.lookup r).isSome
  kind : ∀ r, isCounterfactual db' r = isCounterfactual db r

theorem RunsKept.of_eq (h : db'.runs = db.runs) : RunsKept db db' :=
  ⟨fun r hr => by rwa [h], fun r => by rw [isCounterfactual, h]; rfl⟩

theorem RunsKept.trans {db₁ db₂ db₃ : Db} (h₁ : RunsKept db₁ db₂) (h₂ : RunsKept db₂ db₃) :
    RunsKept db₁ db₃ :=
  ⟨fun r hr => h₂.known r (h₁.known r hr), fun r => (h₂.kind r).trans (h₁.kind r)⟩

/-- Storing an event moves its run's counter. -/
theorem runsKept_push {draft : EventDraft} : RunsKept db (db.push runId draft) := by
  refine ⟨fun r hr => ?_, fun r => ?_⟩
  · rw [Db.push, Table.lookup_insert_eq]
    split
    · rfl
    · exact hr
  · rw [isCounterfactual, isCounterfactual, Db.push, Table.lookup_insert_eq]
    split
    · rename_i heq
      subst heq
      cases db.runs.lookup r <;> rfl
    · rfl

theorem Pushes.runsKept (h : Pushes db db') : RunsKept db db' := by
  induction h with
  | same hruns => exact .of_eq hruns
  | push _ hruns _ ih => exact ih.trans (runsKept_push.trans (.of_eq hruns))

/-- Whatever the environment does but fork, the runs are kept. -/
theorem EnvironmentStep.runsKept (h : EnvironmentStep db db') : RunsKept db db' := by
  cases h with
  | createRun hnone =>
    refine ⟨fun r hr => ?_, fun r => ?_⟩
    · rw [Table.lookup_insert_eq]
      split
      · rfl
      · exact hr
    · rw [isCounterfactual, isCounterfactual, Table.lookup_insert_eq]
      split
      · rename_i heq
        rw [heq, hnone]
        rfl
      · rfl
  | freeze _ hchan | engineAppend _ _ hchan => exact hchan.pushes.runsKept
  | _ => exact .of_eq rfl

theorem runsKept_step {a : Action} (h : step cfg world a = some world') :
    RunsKept world.db world'.db := by
  rcases step_cases h with ⟨w, hmove⟩ | ⟨henv, -⟩
  · exact hmove.step.pushes.runsKept
  · exact henv.runsKept

/-- A batch without a projection, appended by the Engine. -/
theorem appendEvents_note {draft : EventDraft} (hnote : draft.body.isNote = true)
    (h : appendEvents engine runId [draft] db = ok db') : db' = db.push runId draft := by
  simp only [appendEvents, List.foldlM_cons, List.foldlM_nil, bind_eq_ok] at h
  obtain ⟨_, hone, hmid⟩ := h
  obtain ⟨-, -, -, haft⟩ := appendOne_ok rfl hone
  rw [afterInsert_note engine _ hnote] at haft
  rw [← Except.ok.inj hmid, ← Except.ok.inj haft]

/-- An inherited event is stored and changes no table but the queue, which it may shorten. -/
theorem afterInsert_inheriting {e : Event} (h : afterInsert inheriting db e = ok db') :
    db'.runs = db.runs ∧ ∀ v row, db'.queue.lookup v = some row → db.queue.lookup v = some row := by
  refine ⟨(afterInsert_kept h).runs, fun v row hrow => ?_⟩
  have hproj : Projected db e true db' := projected_of_afterInsert h
  cases hproj with
  | note | inherited => exact hrow
  | shadowed =>
    rw [Table.lookup_filterRows] at hrow
    exact (Option.filter_eq_some_iff.mp hrow).1

/-- Copying inherited events. -/
theorem copyInheritedWith_queue {copies : List InheritedCopy}
    (h : copyInheritedWith runId copies db = ok db') :
    db'.runs = db.runs ∧ ∀ v row, db'.queue.lookup v = some row → db.queue.lookup v = some row := by
  unfold copyInheritedWith at h
  split at h
  · exact Except.ok.inj h ▸ ⟨rfl, fun _ _ hrow => hrow⟩
  unfold copyInheritedEvents at h
  split at h
  · cases h
  split at h
  · cases h
  split at h
  · cases h
  refine Fallible.foldlM_invariant (I := fun mid : Db => mid.runs = db.runs ∧ ∀ v row,
    mid.queue.lookup v = some row → db.queue.lookup v = some row)
    (fun mid copy mid' _ hmid hturn => ?_) ⟨rfl, fun _ _ hrow => hrow⟩ h
  unfold copyOne at hturn
  split at hturn
  · cases hturn
  simp only [bind_eq_ok] at hturn
  obtain ⟨⟨⟩, -, ⟨⟩, -, hturn⟩ := hturn
  split at hturn
  · cases hturn
  · obtain ⟨hruns, hqueue⟩ := afterInsert_inheriting hturn
    exact ⟨hruns.trans hmid.1, fun v row hrow => hmid.2 v row (hqueue v row hrow)⟩

/-- **What a fork does to runs and queued work**: one run is new and counterfactual, and
nothing is queued. -/
theorem fork_queue {request : ForkRequest} {childRunId : RunId} {inherits : Event → Bool}
    (h : fork db request childRunId inherits = ok db') :
    db.runs.lookup childRunId = none ∧
    (∀ r, (db.runs.lookup r).isSome → (db'.runs.lookup r).isSome) ∧
    (∀ r, r ≠ childRunId → isCounterfactual db' r = isCounterfactual db r) ∧
    ∀ v row, db'.queue.lookup v = some row → db.queue.lookup v = some row := by
  simp only [fork, bind_eq_ok] at h
  obtain ⟨_, -, h⟩ := h
  split at h
  · cases h
  simp only [bind_eq_ok] at h
  obtain ⟨_, -, db₁, hcreat, _, hcreated, db₃, hcopy, hseed⟩ := h
  obtain rfl := appendEvents_note rfl hcreated
  obtain rfl := appendEvents_note rfl hseed
  obtain ⟨hruns, hqueue⟩ := copyInheritedWith_queue hcopy
  have hkept : RunsKept db₁ (db₃.push childRunId { body := .runEndSeed }) :=
    runsKept_push.trans ((RunsKept.of_eq hruns).trans runsKept_push)
  unfold createForkRun at hcreat
  split at hcreat
  · cases hcreat
  split at hcreat
  · cases hcreat
  rename_i hnone
  cases hcreat
  refine ⟨by simpa using hnone, fun r hr => hkept.known r ?_, fun r hr => ?_, hqueue⟩
  · rw [Table.lookup_insert_eq]
    split
    · rfl
    · exact hr
  · rw [hkept.kind, isCounterfactual, isCounterfactual, Table.lookup_insert_eq, if_neg hr]

/-! ### Freezing reads -/

/-- What a freeze into a fork is allowed to be: that of an admitted submission that calls
tools without an effect only. -/
def FreezesReads (catalogue : Catalogue) (world : World) : ForkAction → Prop
  | .live (.freeze runId vertices _) => isCounterfactual world.db runId = true →
      ∃ workflow resolved newId,
        Submitted catalogue world.db runId vertices workflow resolved newId ∧
        readsOnly workflow resolved = true
  | _ => True

/-- Work without an effect, by its payload and by its contract. -/
def ReadWork (catalogue : Catalogue) (payload : VertexPayload) : Prop :=
  payload.effectClass = .none ∧
    ∀ contract, catalogue.contract? payload = some contract → contract.txn.effectClass = .none

/-- A submission that reads freezes reads. -/
theorem Submitted.reads {vertices : List FrozenVertex} {newId : ℕ → ℕ}
    (h : Submitted catalogue db runId vertices workflow resolved newId)
    (hreads : readsOnly workflow resolved = true) {fv : FrozenVertex} (hfv : fv ∈ vertices) :
    ReadWork catalogue fv.payload := by
  obtain ⟨_, _, hadm⟩ := h.admission
  obtain ⟨vertex, -, horig⟩ := hadm.origin hfv
  cases hpay : fv.payload with
  | tool payload =>
    obtain ⟨tool, _, _, _, contract, hkind, hcon, htool, hdig, -, hspec⟩ :=
      compiled_tool (hpay ▸ horig.payload)
    obtain ⟨_, _, _, _, htxn⟩ := hspec
    have hcon : (contractsById resolved.tools).get? tool = some contract := hcon
    have hdig : payload.toolViewDigest = resolved.digest := hdig
    have hnone : contract.txn.effectClass = .none := by
      have hver := List.all_eq_true.mp hreads vertex (mem_of_verticesById horig.known).1
      simpa [hkind, hcon] using hver
    refine ⟨?_, fun contract' hcon' => ?_⟩
    · rw [VertexPayload.effectClass, htxn]
      exact hnone
    simp only [Catalogue.contract?, hdig, h.published, Option.bind_some, htool, hcon] at hcon'
    rw [← Option.some.inj hcon']
    exact hnone
  | _ => exact ⟨rfl, fun _ hcon => by simp [Catalogue.contract?] at hcon⟩

/-- Queued work belongs to a run, and that of a fork has no effect. -/
def ForksRead (catalogue : Catalogue) (world : World) : Prop :=
  ∀ v row, world.db.queue.lookup v = some row →
    (world.db.runs.lookup row.runId).isSome ∧
    (isCounterfactual world.db row.runId = true → ReadWork catalogue row.payload)

/-- A batch is appended to a run. -/
theorem known_of_appendEvents {session : Session} (hcopy : session.inheritCopy = false)
    {drafts : List EventDraft} (h : appendEvents session runId drafts db = ok db') :
    (db.runs.lookup runId).isSome := by
  cases drafts with
  | nil => cases h
  | cons =>
    simp only [appendEvents, List.foldlM_cons, bind_eq_ok] at h
    obtain ⟨_, hone, -⟩ := h
    exact (appendOne_ok hcopy hone).1

/-- A step of the live system. -/
theorem ForksRead.live {a : Action} (h : ForksRead catalogue world)
    (hall : FreezesReads catalogue world (.live a)) (hstep : step cfg world a = some world') :
    ForksRead catalogue world' := by
  intro v row' hrow'
  have hruns := runsKept_step hstep
  rw [hruns.kind]
  rcases queue_action hstep hrow' with ⟨row, hrow, hsame⟩ | ⟨runId, frozen, seq, rfl, fv, hfv, hsame⟩
  · simp only [QueueRow.vertex, CreatedVertex.mk.injEq, true_and] at hsame
    obtain ⟨hrun, -, -, hpay⟩ := hsame
    rw [hrun, hpay]
    exact ⟨hruns.known _ (h v row hrow).1, (h v row hrow).2⟩
  · simp only [QueueRow.vertex, FrozenVertex.vertex, CreatedVertex.mk.injEq] at hsame
    obtain ⟨-, hrun, -, -, hpay⟩ := hsame
    rw [hrun, hpay]
    refine ⟨hruns.known _ ?_, fun hfork => ?_⟩
    · simp only [step] at hstep
      split at hstep
      · exact known_of_appendEvents rfl (commit_eq_some hstep).1
      · cases hstep
    · obtain ⟨_, _, _, hsub, hreads⟩ := hall hfork
      exact hsub.reads hreads hfv

/-- A fork has no queued work when it is made. -/
theorem ForksRead.fork {request : ForkRequest} {childRunId : RunId} {inherits : Event → Bool}
    (h : ForksRead catalogue world)
    (hfork : fork world.db request childRunId inherits = ok world'.db) :
    ForksRead catalogue world' := by
  obtain ⟨hnew, hknown, hkind, hqueue⟩ := fork_queue hfork
  intro v row hrow
  obtain ⟨hrun, hreads⟩ := h v row (hqueue v row hrow)
  have hne : row.runId ≠ childRunId := by
    intro heq
    rw [heq, hnew] at hrun
    cases hrun
  rw [hkind _ hne]
  exact ⟨hknown _ hrun, hreads⟩

/-- **The queued work of forks is reads** in every world reached by freezing only reads into
them. -/
theorem forksRead_of_reachable
    (h : Transition.Reachable (forkStep cfg) (FreezesReads catalogue) World.initial world) :
    ForksRead catalogue world := by
  refine h.invariant (I := ForksRead catalogue) nofun ?_
  intro mid mid' a hmid hall hstep
  cases a with
  | live => exact hmid.live hall hstep
  | fork => exact hmid.fork (commit_eq_some hstep).1

/-- **A fork executes reads.** In every run of the system with forks in which only
submissions without an effect are frozen into forks, no vertex with an effect is ever queued
under a fork. And a router bound by a submission into a fork can only emit branches that
meet that condition, over the view its template was published over. -/
theorem fork_executes_reads {catalogue : Catalogue} {cfg : Config} {world : World}
    (h : Transition.Reachable (forkStep cfg) (FreezesReads catalogue) World.initial world) :
    (∀ v row, world.db.queue.lookup v = some row → isCounterfactual world.db row.runId = true →
      row.payload.effectClass = .none ∧ ∀ contract, catalogue.contract? row.payload = some contract →
        contract.txn.effectClass = .none) ∧
    ∀ runId submission resolved templates newId proposedSeq events workflow interposed,
      isCounterfactual world.db runId = true →
      normalizeWorkflow submission = ok (workflow, interposed) →
      submit world.db runId submission resolved templates newId proposedSeq =
        ok (.admitted events) →
      ∀ router template, (bindRouters templates workflow).get? router = some (some template) →
      ∀ view branch, catalogue.view view.digest = some view →
      traitsOf branch view ∈ template.branches →
      ∀ routerVertexId branchWorkflow routers,
      normalizeWorkflow (branchSubmission branch routerVertexId) = ok (branchWorkflow, routers) →
      readsOnly branchWorkflow view = true := by
  refine ⟨fun v row hrow hfork => (forksRead_of_reachable h v row hrow).2 hfork, ?_⟩
  intro runId submission resolved templates newId proposedSeq events workflow interposed hfork
    hnor hsub router template hbound view branch hpub hbran routerVertexId
    branchWorkflow routers hbranc
  exact branch_readsOnly (branches_read hfork hnor hsub hbound hbran) hbranc
    (nameless_of_published hpub)

/-- A planner's run and a fork of it. -/
def forkedPlan : List ForkAction :=
  [.live (.createRun 1), .live (.freeze 1 [plannerVertex 10]),
   .fork ⟨1, 10, 2⟩ 2 fun _ => true]

/-- A submission that reserves. -/
def reserveSubmission : WorkflowSubmission where
  vertices := [shopCall "a" "reserve"]
  scopes := [⟨"S", ["a"]⟩]

/-- A submission that only reads. -/
def quoteSubmission : WorkflowSubmission where
  vertices := [shopCall "q" "confirm" [] ""]

/-- The vertices a submission freezes into the fork. -/
def forkVertices (submission : WorkflowSubmission) : List FrozenVertex :=
  shopFreeze (World.afterForks .standard forkedPlan).db 2 submission 20

/-- The world in which a submission is frozen into the fork. -/
def submittedFork (submission : WorkflowSubmission) : World :=
  (World.afterForks .standard forkedPlan).play .standard [.freeze 2 (forkVertices submission)]

/-- The freeze of a submission into the fork, in a run whose steps meet a condition. -/
theorem reachable_submittedFork {allowed : World → ForkAction → Prop}
    {submission : WorkflowSubmission}
    (hplan : Transition.Reachable (forkStep {}) allowed World.initial (World.afterForks {} forkedPlan))
    (hfreez : allowed (World.afterForks {} forkedPlan) (.live (.freeze 2 (forkVertices submission))))
    (hrun : (step {} (World.afterForks {} forkedPlan)
      (.freeze 2 (forkVertices submission))).isSome = true) :
    Transition.Reachable (forkStep {}) allowed World.initial (submittedFork submission) := by
  obtain ⟨last, hlast⟩ := Option.isSome_iff_exists.mp hrun
  have hwor : submittedFork submission = last := by
    rw [submittedFork, World.play, Transition.run, hlast]
    rfl
  rw [hwor]
  exact hplan.tail hfreez hlast

/-- **A submission that reserves is admitted into a fork, and its reservation is queued
there.** -/
theorem fork_executes_write :
    Transition.Reachable (forkStep {}) Transition.anyStep World.initial
      (submittedFork reserveSubmission) ∧
    Submitted shopCatalogue (World.afterForks {} forkedPlan).db 2 (forkVertices reserveSubmission)
      (shopWorkflow reserveSubmission) shopView (20 + ·) ∧
    isCounterfactual (submittedFork reserveSubmission).db 2 = true ∧
    ∃ row contract, (submittedFork reserveSubmission).db.queue.lookup 20 = some row ∧
      row.runId = 2 ∧ shopCatalogue.contract? row.payload = some contract ∧
      contract.txn.effectClass = .reversible := by
  have hqueued : ((submittedFork reserveSubmission).db.queue.lookup 20).bind (fun row =>
      (shopCatalogue.contract? row.payload).map fun contract =>
        (row.runId, contract.txn.effectClass)) = some (2, .reversible) := by decide +kernel
  obtain ⟨row, hrow, hcon⟩ := Option.bind_eq_some_iff.mp hqueued
  obtain ⟨contract, hcon, hfacts⟩ := Option.map_eq_some_iff.mp hcon
  obtain ⟨hrun, heff⟩ := Prod.mk.inj hfacts
  exact ⟨reachable_submittedFork (Transition.reachable_getD (by decide +kernel)) trivial
    (by decide +kernel), shop_submitted (by decide +kernel), by decide +kernel, row, contract, hrow,
    hrun, hcon, heff⟩

/-- Freezes into live runs only. -/
def freezesLive (world : World) : ForkAction → Bool
  | .live (.freeze runId _ _) => !isCounterfactual world.db runId
  | _ => true

/-- The plan of the fork freezes into the live run only. -/
theorem reachable_forkedPlan :
    Transition.Reachable (forkStep {}) (FreezesReads shopCatalogue) World.initial
      (World.afterForks {} forkedPlan) := by
  have hlive : Transition.Reachable (forkStep {}) (fun world a => freezesLive world a = true)
      World.initial (World.afterForks {} forkedPlan) :=
    Transition.guarded_reachable_getD (by decide +kernel)
  refine hlive.mono fun world a hall => ?_
  unfold FreezesReads
  split
  · intro hfork
    simp [freezesLive, hfork] at hall
  · trivial

/-- A quote is queued in the fork, and everything queued there is a read. -/
theorem fork_executes_reads_quote :
    ((submittedFork quoteSubmission).db.queue.lookup 20).map QueueRow.runId = some 2 ∧
    ∀ v row, (submittedFork quoteSubmission).db.queue.lookup v = some row →
      isCounterfactual (submittedFork quoteSubmission).db row.runId = true →
      row.payload.effectClass = .none := by
  refine ⟨by decide +kernel, fun v row hrow hfork => ?_⟩
  have hreach : Transition.Reachable (forkStep {}) (FreezesReads shopCatalogue) World.initial
      (submittedFork quoteSubmission) :=
    reachable_submittedFork reachable_forkedPlan (fun _ => ⟨_, _, _, shop_submitted
      (by decide +kernel), by decide +kernel⟩) (by decide +kernel)
  exact ((fork_executes_reads hreach).1 v row hrow hfork).1

end Flory
