import Flory.Causality
import Flory.Submission

/-!
# Where Frozen Vertices Come From

A freeze carries the vertices an admitted submission compiles to. A `Catalogue` holds the tool
views that were ever published, each under the digest of its content, and `Submitted` says that
a freeze is that of an admitted submission over one of them. Every vertex of such a freeze is
the `Origin` of one vertex of the workflow: its parents are the frozen parents of that vertex,
its scope is the one that vertex names, and its payload states the contract that vertex's tool
is published under.

## Main results

* `frozen_origins`: a freeze is the workflow in its topological order, vertex by vertex.
* `Admission.contract`: the contract of a frozen tool call is the one the rules have checked.
-/

namespace Flory

open Except (error ok)
open Fallible (bind_eq_ok)

variable {submission workflow : WorkflowSubmission} {fv : FrozenVertex} {db : Db} {runId : RunId}
  {vertices : List FrozenVertex} {resolved : ResolvedToolView} {newId : ℕ → ℕ}

/-! ### Catalogues and submissions -/

/-- The tool views that were published: each is found under its digest, and the gateway has
admitted its contracts. -/
structure Catalogue where
  view : String → Option ResolvedToolView
  addressed : ∀ digest resolved, view digest = some resolved → resolved.digest = digest
  schemaError : String → Json → Option String
  admitted : ∀ digest resolved, view digest = some resolved → ∀ tool ∈ resolved.tools,
    ∃ registered, Admitted schemaError registered tool

/-- The contract a frozen vertex was compiled from. -/
def Catalogue.contract? (catalogue : Catalogue) : VertexPayload → Option ToolContract
  | .tool payload => (catalogue.view payload.toolViewDigest).bind fun resolved =>
    (contractsById resolved.tools).get? payload.tool
  | _ => none

/-- A freeze of an admitted submission over a published view. The workflow is the submission
with its routers, and no two calls of `newId` return one id. -/
structure Submitted (catalogue : Catalogue) (db : Db) (runId : RunId) (vertices : List FrozenVertex)
    (workflow : WorkflowSubmission) (resolved : ResolvedToolView) (newId : ℕ → ℕ) : Prop where
  published : catalogue.view resolved.digest = some resolved
  distinct : Function.Injective newId
  admitted : ∃ submission interposed templates proposedSeq events,
    normalizeWorkflow submission = ok (workflow, interposed) ∧
    submit db runId submission resolved templates newId proposedSeq = ok (.admitted events) ∧
    vertices = frozenVertices events

/-- A vertex of a workflow and the frozen vertex it compiles to. -/
structure Origin (workflow : WorkflowSubmission) (ctx : CompileContext) (vertex : SubmittedVertex)
    (fv : FrozenVertex) : Prop where
  known : (verticesById workflow.vertices).get? vertex.id = some vertex
  id : (vertexIds workflow ctx.newId).get? vertex.id = some fv.vertexId
  parents : fv.parentRefs = if vertex.parents = [] then workflow.attachTo
    else vertex.parents.filterMap (vertexIds workflow ctx.newId).get?
  scope : fv.scopeId = (given vertex.scope).bind (scopeIds workflow ctx.newId).get?
  payload : vertexPayload ctx vertex = ok fv.payload

section Passed

variable {context : RunAdmissionContext} {templates : TemplateResolver} {drafts : List EventDraft}

/-- A compiled draft is that of a frozen vertex with its origin. -/
theorem origin_of_compiled (hval : resolved.registry.validate = []) {vertex : SubmittedVertex}
    {draft : EventDraft} (hver : (verticesById workflow.vertices).get? vertex.id = some vertex)
    (h : compileVertex workflow ⟨resolved.tools, resolved.digest, newId, context.brackets⟩ vertex =
      ok draft) :
    ∃ fv, FrozenVertex.ofDraft? draft = some fv ∧
      Origin workflow ⟨resolved.tools, resolved.digest, newId, context.brackets⟩ vertex fv := by
  obtain ⟨_, hpay, rfl⟩ := compileVertex_ok h
  obtain ⟨id, hid⟩ := Option.isSome_iff_exists.mp
    (vertexIds_isSome (mem_of_verticesById hver).1 newId)
  exact ⟨_, (exists_frozen rfl hid rfl
    (compiled_companions resolved.loaded hval hpay)).1, hver, hid, rfl, rfl, hpay⟩

/-- **A freeze is the workflow in its topological order**, vertex by vertex. -/
theorem frozen_origins (h : FreezePassed context workflow resolved templates newId drafts) :
    ∃ ordered, topologicalOrder workflow.vertices = ok ordered ∧
      List.Forall₂ (Origin workflow ⟨resolved.tools, resolved.digest, newId, context.brackets⟩)
        ordered (frozenVertices drafts) := by
  obtain ⟨-, -, hval, -⟩ := checkSubDag_accepted h.accepted
  have hcom := h.compiled
  simp only [compileVertexDrafts, bind_eq_ok] at hcom
  obtain ⟨ordered, hord, hdraf⟩ := hcom
  refine ⟨ordered, hord, ?_⟩
  have hver := (topologicalOrder_ok hord).2.1
  have htur := Fallible.mapM_eq_ok.mp hdraf
  clear hord hdraf h
  induction htur with
  | nil => exact .nil
  | cons hturn _ ih =>
    obtain ⟨fv, hfv, horig⟩ := origin_of_compiled hval (hver _ (by simp)) hturn
    rw [frozenVertices, List.filterMap_cons_some hfv]
    exact .cons horig (ih fun vertex hvert => hver vertex (by simp [hvert]))

end Passed

/-- The context a submission is compiled in. -/
def compileContext (db : Db) (runId : RunId) (workflow : WorkflowSubmission)
    (resolved : ResolvedToolView) (newId : ℕ → ℕ) : CompileContext :=
  ⟨resolved.tools, resolved.digest, newId,
    (readAdmissionContext db runId (businessKeys workflow resolved)).brackets⟩

/-- What a submitted freeze has passed, and what it is made of. -/
structure Admission (db : Db) (runId : RunId) (vertices : List FrozenVertex)
    (workflow : WorkflowSubmission) (resolved : ResolvedToolView) (newId : ℕ → ℕ)
    (context : GraphContext) (ordered : List SubmittedVertex) : Prop where
  built : buildContext (lowerToProposal workflow) resolved.registry = ok context
  rules : ruleViolations context (lowerToProposal workflow)
    (readAdmissionContext db runId (businessKeys workflow resolved)).scopes = []
  sorted : topologicalOrder workflow.vertices = ok ordered
  origins : List.Forall₂ (Origin workflow (compileContext db runId workflow resolved newId)) ordered
    vertices

/-- An admitted submission has passed the rules. -/
theorem admission_of_submit {interposed : List String} {templates : TemplateResolver}
    {proposedSeq : ℕ} {events : List EventDraft}
    (hnor : normalizeWorkflow submission = ok (workflow, interposed))
    (hsub : submit db runId submission resolved templates newId proposedSeq = ok (.admitted events)) :
    ∃ context ordered,
      Admission db runId (frozenVertices events) workflow resolved newId context ordered := by
  obtain ⟨_, _, drafts, hnor', rfl, hpas⟩ := submit_admitted hsub
  obtain ⟨rfl, -⟩ := Prod.mk.inj (Except.ok.inj (hnor.symm.trans hnor'))
  obtain ⟨context, hbuilt, -, hrul⟩ := checkSubDag_accepted hpas.accepted
  obtain ⟨ordered, hord, horig⟩ := frozen_origins hpas
  have hfroz : frozenVertices ({ body := .subgraph (.frozen proposedSeq) } :: drafts) =
      frozenVertices drafts := rfl
  exact ⟨context, ordered, hbuilt, hrul, hord, hfroz ▸ horig⟩

/-- A submitted freeze has passed the rules. -/
theorem Submitted.admission {catalogue : Catalogue}
    (h : Submitted catalogue db runId vertices workflow resolved newId) :
    ∃ context ordered, Admission db runId vertices workflow resolved newId context ordered := by
  obtain ⟨_, _, _, _, _, hnor, hsub, rfl⟩ := h.admitted
  exact admission_of_submit hnor hsub

/-! ### Ids -/

section Ids

variable {a : String}

theorem vertexIds_inj (hdis : Function.Injective newId) {b : String} {n : VertexId}
    (ha : (vertexIds workflow newId).get? a = some n)
    (hb : (vertexIds workflow newId).get? b = some n) : a = b :=
  OrderedMap.get?_mapIdx_inj hdis ha hb

/-- Different scopes of a workflow have different ids. -/
theorem scopeIds_inj (hdis : Function.Injective newId) {b : String} {n : ScopeId}
    (ha : (scopeIds workflow newId).get? a = some n)
    (hb : (scopeIds workflow newId).get? b = some n) : a = b :=
  have hshif : Function.Injective fun i => newId (workflow.vertices.length + i) :=
    fun _ _ hij => Nat.add_left_cancel (hdis hij)
  OrderedMap.get?_mapIdx_inj hshif ha hb

theorem vertexIds_new {n : VertexId} (h : (vertexIds workflow newId).get? a = some n) :
    ∃ i, n = newId i := by
  obtain ⟨i, _, hi⟩ := List.mem_mapIdx.mp (OrderedMap.mem_of_get?_ofEntries h)
  exact ⟨i, (Prod.mk.inj hi).2.symm⟩

/-- The id of a scope is one of the new ones, and the scope is declared. -/
theorem scopeIds_new {n : ScopeId} (h : (scopeIds workflow newId).get? a = some n) :
    (∃ i, n = newId i) ∧ ∃ scope ∈ workflow.scopes, scope.id = a := by
  obtain ⟨i, hi, hent⟩ := List.mem_mapIdx.mp (OrderedMap.mem_of_get?_ofEntries h)
  obtain ⟨hid, hn⟩ := Prod.mk.inj hent
  exact ⟨⟨_, hn.symm⟩, _, List.getElem_mem hi, hid⟩

end Ids

/-! ### Freezes the system takes -/

section Admission

variable {context : GraphContext} {ordered : List SubmittedVertex}

/-- The vertices of a workflow and those they are frozen as. -/
abbrev Admission.From (_ : Admission db runId vertices workflow resolved newId context ordered) :
    SubmittedVertex → FrozenVertex → Prop :=
  Origin workflow (compileContext db runId workflow resolved newId)

theorem Admission.origin (h : Admission db runId vertices workflow resolved newId context ordered)
    (hfv : fv ∈ vertices) : ∃ vertex ∈ ordered, h.From vertex fv :=
  Fallible.exists_left_of_mem h.origins hfv

/-- The vertices of an order have distinct names. -/
theorem ParentsFirst.distinct (h : ParentsFirst ordered) :
    ordered.Pairwise fun u v => u.id ≠ v.id := by
  rw [List.pairwise_iff_getElem]
  intro i j hi hj hij
  have hspl : ordered = ordered.take j ++ ordered[j] :: ordered.drop (j + 1) := by
    rw [← List.drop_eq_getElem_cons hj, List.take_append_drop]
  refine (h _ _ _ hspl).2 _ ?_
  exact List.mem_take_iff_getElem.mpr ⟨i, by omega, rfl⟩

/-- The vertices of a submitted freeze have distinct ids. -/
theorem nodup_of_origins {ctx : CompileContext} (hdis : Function.Injective ctx.newId)
    (hnam : ordered.Pairwise fun u v => u.id ≠ v.id)
    (horig : List.Forall₂ (Origin workflow ctx) ordered vertices) :
    (vertices.map FrozenVertex.vertexId).Nodup := by
  induction horig with
  | nil => exact List.nodup_nil
  | cons horigin hrest ih =>
    obtain ⟨hhead, htail⟩ := List.pairwise_cons.mp hnam
    refine List.nodup_cons.mpr ⟨fun hmem => ?_, ih htail⟩
    obtain ⟨fv, hfv, hid⟩ := List.mem_map.mp hmem
    obtain ⟨u, hu, hu'⟩ := Fallible.exists_left_of_mem hrest hfv
    exact hhead u hu (vertexIds_inj hdis horigin.id (hid ▸ hu'.id))

/-! ### What the rules have checked -/

section

variable (h : Admission db runId vertices workflow resolved newId context ordered)

include h

theorem Admission.vertex (id : String) :
    context.vertices.get? id = ((verticesById workflow.vertices).get? id).map lowerVertex :=
  proposal_vertices (buildContext_ok h.built).vertices id

variable {vertex : SubmittedVertex}

/-- A parent the rules see is frozen as a parent. -/
theorem Admission.parent (hver : vertex ∈ ordered) (horig : h.From vertex fv)
    {parent : String} (hparen : parent ∈ parentsOf context.vertices vertex.id) :
    ∃ u ∈ ordered, u.id = parent ∧ ∃ fu ∈ vertices,
      h.From u fu ∧
      fu.vertexId ∈ fv.parentRefs := by
  have hpar : parent ∈ vertex.parents := by
    simpa [parentsOf, h.vertex, horig.known, lowerVertex] using hparen
  obtain ⟨hfir, -, -⟩ := topologicalOrder_ok h.sorted
  obtain ⟨before, after, hspl⟩ := List.append_of_mem hver
  obtain ⟨u, hu, huid⟩ := (hfir before vertex after hspl).1 parent hpar
  have hu : u ∈ ordered := hspl ▸ List.mem_append_left _ hu
  obtain ⟨fu, hfu, hufu⟩ := Fallible.exists_right_of_mem h.origins hu
  refine ⟨u, hu, huid, fu, hfu, hufu, ?_⟩
  rw [horig.parents, if_neg (List.ne_nil_of_mem hpar)]
  exact List.mem_filterMap.mpr ⟨parent, hpar, huid ▸ hufu.id⟩

omit h in
/-- The scope of a frozen vertex is the one its origin names, and it is declared. -/
theorem Origin.named {ctx : CompileContext}
    (h : Origin workflow ctx vertex fv) {s : ScopeId} (hs : fv.scopeId = some s) :
    ∃ scope ∈ workflow.scopes, given vertex.scope = some scope.id ∧
      (scopeIds workflow ctx.newId).get? scope.id = some s := by
  rw [h.scope] at hs
  obtain ⟨_, hname, hid⟩ := Option.bind_eq_some_iff.mp hs
  obtain ⟨-, scope, hscope, rfl⟩ := scopeIds_new hid
  exact ⟨scope, hscope, hname, hid⟩

/-- **A frozen call is the one the rules have checked**: of the same contract, which its payload
states. -/
theorem Admission.called (horig : h.From vertex fv)
    {payload : ToolPayload} (hpay : fv.payload = .tool payload) (hnam : payload.tool ≠ "") :
    ∃ contract, (contractsById resolved.tools).get? payload.tool = some contract ∧
      payload.toolViewDigest = resolved.digest ∧
      context.tools.get? vertex.id = some contract.definition ∧
      (∃ input key confirmed, vertex.kind = .tool payload.tool input key confirmed) ∧
      ∃ key confirmInput cancelInput compensateInput,
        payload.txn = compileTxn contract key confirmInput cancelInput compensateInput := by
  obtain ⟨tool, input, key, confirmed, contract, hkind, hcon, htool, hdig, -, hspec⟩ :=
    compiled_tool (hpay ▸ horig.payload)
  have hcon : (contractsById resolved.tools).get? tool = some contract := hcon
  obtain rfl : payload.tool = tool := htool
  refine ⟨contract, hcon, hdig, ?_, ⟨input, key, confirmed, hkind⟩, hspec⟩
  have hver : context.vertices.get? vertex.id = some (lowerVertex vertex) := by
    rw [h.vertex, horig.known, Option.map_some]
  obtain ⟨_, hdef, hfound⟩ := (buildContext_ok h.built).tools vertex.id
    (lowerVertex vertex) payload.tool hver
    (by simp [lowerVertex, hkind, SubmittedKind.vertexKind])
    (by simp [lowerVertex, hkind, given, hnam])
  rw [loadToolRegistry_ok resolved.loaded, hcon, Option.map_some] at hdef
  rw [hfound, hdef]

/-- **The contract of a frozen call** is the one the rules have checked, and its payload states
it. -/
theorem Admission.contract {catalogue : Catalogue}
    (hpub : catalogue.view resolved.digest = some resolved)
    (horig : h.From vertex fv) {payload : ToolPayload} (hpay : fv.payload = .tool payload) :
    ∃ contract ∈ resolved.tools, catalogue.contract? fv.payload = some contract ∧
      context.tools.get? vertex.id = some contract.definition ∧
      ∃ key confirmInput cancelInput compensateInput,
        payload.txn = compileTxn contract key confirmInput cancelInput compensateInput := by
  have hnam : payload.tool ≠ "" := by
    obtain ⟨_, -, -, -, contract, -, hcon, htool, -⟩ :=
      compiled_tool (hpay ▸ horig.payload)
    obtain ⟨hmem, hid⟩ := mem_of_contractsById hcon
    obtain ⟨_, hadm⟩ := catalogue.admitted _ _ hpub contract hmem
    rw [htool, ← hid]
    exact admitted_named hadm
  obtain ⟨contract, hcon, hdig, hdef, -, hspec⟩ := h.called horig hpay hnam
  refine ⟨contract, (mem_of_contractsById hcon).1, ?_, hdef, hspec⟩
  simp [hpay, Catalogue.contract?, hdig, hpub, hcon]

end

end Admission

/-! ### Scopes and their submissions -/

/-- What a freeze is allowed to be: that of a submission of some kind. -/
def FreezesSubmitted (catalogue : Catalogue) (kind : WorkflowSubmission → ResolvedToolView → Bool)
    (world : World) : Action → Prop
  | .freeze runId vertices _ => ∃ workflow resolved newId,
      Submitted catalogue world.db runId vertices workflow resolved newId ∧
      kind workflow resolved = true
  | _ => True

/-- The submission the members of a scope come from. -/
structure ScopeOrigin (catalogue : Catalogue) (kind : WorkflowSubmission → ResolvedToolView → Bool)
    (created : List CreatedVertex) (s : ScopeId) (db₀ : Db) (runId : RunId)
    (vertices : List FrozenVertex) (workflow : WorkflowSubmission) (resolved : ResolvedToolView)
    (newId : ℕ → ℕ) : Prop where
  submitted : Submitted catalogue db₀ runId vertices workflow resolved newId
  accepted : kind workflow resolved = true
  frozen : ∀ fv ∈ vertices, fv.vertex runId ∈ created
  members : ∀ v ∈ created, v.scopeId = some s → ∃ fv ∈ vertices, v = fv.vertex runId

/-- Every scope comes from one submission. -/
def ScopesSubmitted (catalogue : Catalogue) (kind : WorkflowSubmission → ResolvedToolView → Bool)
    (db : Db) : Prop :=
  ∀ v ∈ db.vertices, ∀ s, v.scopeId = some s → ∃ db₀ runId vertices workflow resolved newId,
    ScopeOrigin catalogue kind db.vertices s db₀ runId vertices workflow resolved newId

/-- **The members of a scope come from one submission**, in every run that freezes submissions
only. -/
theorem scopesSubmitted_of_reachable {catalogue : Catalogue}
    {kind : WorkflowSubmission → ResolvedToolView → Bool} {cfg : Config} {world : World}
    (h : ReachableUnder cfg (FreezesSubmitted catalogue kind) world) :
    ScopesSubmitted catalogue kind world.db := by
  refine h.invariant (I := fun world => ScopesSubmitted catalogue kind world.db)
    nofun ?_
  intro mid mid' a hscop hall hstep v hv s hs
  rcases vertices_action hstep with hsame | ⟨runId, frozen, seq, rfl, hfreez, hnew⟩
  · rw [hsame] at hv
    obtain ⟨db₀, runId, vertices, workflow, resolved, newId, horig⟩ := hscop v hv s hs
    exact ⟨db₀, runId, vertices, workflow, resolved, newId, horig.submitted, horig.accepted,
      hsame ▸ horig.frozen, hsame ▸ horig.members⟩
  · -- a scope is either old, and gets no new member, or new, and has no old one
    have hfresh : ∀ u ∈ mid.db.vertices, ∀ fv ∈ frozen, u.scopeId = some s → fv.scopeId ≠ some s := by
      intro u hu fv hfv hus hfvs
      have hunk := (freezable_mem hfreez hfv).2 s hfvs
      rw [scopeKnown_of_mem hu hus] at hunk
      cases hunk
    rw [hnew] at hv ⊢
    rcases List.mem_append.mp hv with hv | hv
    · obtain ⟨db₀, runId', vertices, workflow, resolved, newId, horig⟩ := hscop v hv s hs
      refine ⟨db₀, runId', vertices, workflow, resolved, newId, horig.submitted, horig.accepted,
        fun fv hfv => List.mem_append_left _ (horig.frozen fv hfv), fun u hu hus => ?_⟩
      rcases List.mem_append.mp hu with hu | hu
      · exact horig.members u hu hus
      · obtain ⟨fv, hfv, rfl⟩ := List.mem_map.mp hu
        exact absurd hus (hfresh v hv fv hfv hs)
    · obtain ⟨fv, hfv, rfl⟩ := List.mem_map.mp hv
      obtain ⟨workflow, resolved, newId, hsub, hkind⟩ := hall
      refine ⟨mid.db, runId, frozen, workflow, resolved, newId, hsub, hkind,
        fun fu hfu => List.mem_append_right _ (List.mem_map_of_mem hfu), fun u hu hus => ?_⟩
      rcases List.mem_append.mp hu with hu | hu
      · exact absurd hs (hfresh u hu fv hfv hus)
      · obtain ⟨fu, hfu, rfl⟩ := List.mem_map.mp hu
        exact ⟨fu, hfu, rfl⟩

/-! ### Submissions over the shop's catalogue -/

/-- The catalogue that has published the view of the shop. -/
def shopCatalogue : Catalogue where
  view digest := if digest = "shop" then some shopView else none
  addressed := by
    intro digest resolved h
    split at h
    · rename_i heq
      cases h
      rw [heq]
      rfl
    · cases h
  schemaError _ _ := none
  admitted := by
    intro digest resolved h tool htool
    split at h
    · cases h
      exact ⟨shopTools, shopTools_admitted tool htool⟩
    · cases h

/-- A submission with its routers. -/
def shopWorkflow (submission : WorkflowSubmission) : WorkflowSubmission :=
  match normalizeWorkflow submission with
  | ok normal => normal.1
  | error _ => submission

/-- An admitted submission over the catalogue of the shop. -/
theorem shop_submitted {start : ℕ} (h : shopAdmits db runId submission start = true) :
    Submitted shopCatalogue db runId (shopFreeze db runId submission start)
      (shopWorkflow submission) shopView (start + ·) := by
  obtain ⟨events, hsub, hfroz⟩ := shopFreeze_of_admits h
  obtain ⟨_, interposed, _, hnor, -, -⟩ := submit_admitted hsub
  refine ⟨rfl, fun _ _ => Nat.add_left_cancel, submission, interposed, {}, 0, events, ?_, hsub,
    hfroz⟩
  rw [shopWorkflow, hnor]

/-- The world of one run into which a submission is frozen. -/
def submittedRun (submission : WorkflowSubmission) : World :=
  (World.after .standard [.createRun 1]).play .standard [.freeze 1 (shopFreeze oneRun 1 submission)]

/-- The freeze of a submission, in a run whose steps meet a condition. -/
theorem reachable_submittedRun {allowed : World → Action → Prop}
    (hcreat : allowed World.initial (.createRun 1))
    (hfreez : allowed (World.after {} [.createRun 1]) (.freeze 1 (shopFreeze oneRun 1 submission)))
    (hrun : (step {} (World.after {} [.createRun 1])
      (.freeze 1 (shopFreeze oneRun 1 submission))).isSome = true) :
    ReachableUnder {} allowed (submittedRun submission) := by
  obtain ⟨last, hlast⟩ := Option.isSome_iff_exists.mp hrun
  have hwor : submittedRun submission = last := by
    rw [submittedRun, World.play, Transition.run, hlast]
    rfl
  rw [hwor]
  exact (Transition.Reachable.refl.tail hcreat rfl).tail hfreez hlast

end Flory
