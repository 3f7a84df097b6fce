import Flory.Submission

/-!
# Normalized Workflows

What `normalizeWorkflow` makes of a submission, and that a workflow without a cycle can be
read: normalization puts a router in front of some planners and leaves every other vertex as
it was submitted, so that a rank that falls along the parents of the submission gives one of
the workflow; the context of its proposal then exists.

## Main results

* `normalized_of_normalizeWorkflow`: every vertex of a normalized workflow is a submitted one,
  an interposed router, or a planner behind one.
* `acyclic_of_normalizeWorkflow`: normalization adds no cycle.
* `buildContext_total`: a workflow without a cycle has a context.
* `buildContext_closure`: a proposal has a context exactly if it can be read, and the context is
  the transitive closure of its parents.
-/

namespace Flory

open Except (ok)
open Fallible (bind_eq_ok map_eq_ok)

variable {vertex : SubmittedVertex}

/-! ### Vertices -/

/-- The router `normalizeWorkflow` puts in front of a planner. -/
def interposedRouter (planner : SubmittedVertex) : SubmittedVertex where
  id := planner.id ++ interposedRouterSuffix
  parents := planner.parents
  kind := .router none

/-- **A vertex of a normalized workflow**: submitted as it is, an interposed router, or a
planner behind one. -/
inductive Normalized (submission : WorkflowSubmission) (vertex : SubmittedVertex) : Prop
  | kept (h : vertex ∈ submission.vertices)
  | router {planner : SubmittedVertex} (hplanner : planner ∈ submission.vertices)
      (hkind : planner.kind = .planner)
      (hnew : (verticesById submission.vertices).has (interposedRouter planner).id = false)
      (h : vertex = interposedRouter planner)
  | planner {planner : SubmittedVertex} (hplanner : planner ∈ submission.vertices)
      (hkind : planner.kind = .planner)
      (hnew : (verticesById submission.vertices).has (interposedRouter planner).id = false)
      (h : vertex = { planner with parents := [(interposedRouter planner).id] })

theorem kind_eq_planner {kind : SubmittedKind} (h : kind.vertexKind = .planner) :
    kind = .planner := by
  cases kind with
  | planner => rfl
  | _ => cases h

section Normalize

variable {submission workflow : WorkflowSubmission} {interposed : List String}
  {byId : OrderedMap String SubmittedVertex} {parent : String}

/-- Whether a vertex gets a router in front of it. -/
def interposes (byId : OrderedMap String SubmittedVertex) (vertex : SubmittedVertex) : Bool :=
  vertex.kind.vertexKind == .planner && needsInterposedRouter vertex.parents byId

/-- What becomes of one vertex: itself, or its router and the vertex behind it. -/
def normalizedVertices (byId : OrderedMap String SubmittedVertex) (vertex : SubmittedVertex) :
    List SubmittedVertex :=
  if interposes byId vertex then
    [interposedRouter vertex, { vertex with parents := [(interposedRouter vertex).id] }]
  else [vertex]

/-- **The normal form of a submission**: its vertices one by one, with the routers in front of the
planners that need them. -/
structure NormalForm (submission workflow : WorkflowSubmission) (interposed : List String) :
    Prop where
  known : ∀ vertex ∈ submission.vertices, ∀ parent ∈ vertex.parents,
    (verticesById submission.vertices).has parent = true
  fresh : ∀ vertex ∈ submission.vertices, interposes (verticesById submission.vertices) vertex = true →
    (verticesById submission.vertices).has (interposedRouter vertex).id = false
  form : workflow = { submission with
    vertices := submission.vertices.flatMap (normalizedVertices (verticesById submission.vertices)) }
  interposed : interposed = (submission.vertices.filter
    (interposes (verticesById submission.vertices))).map fun vertex => (interposedRouter vertex).id

/-- The turns of `normalizeWorkflow`. -/
theorem foldlM_normalizeVertex {vertices : List SubmittedVertex}
    {done done' : List SubmittedVertex × List String} :
    vertices.foldlM (normalizeVertex byId) done = ok done' ↔
      (∀ vertex ∈ vertices, interposes byId vertex = true →
        byId.has (interposedRouter vertex).id = false) ∧
      done' = (done.1 ++ vertices.flatMap (normalizedVertices byId),
        done.2 ++ (vertices.filter (interposes byId)).map fun vertex =>
          (interposedRouter vertex).id) := by
  induction vertices generalizing done with
  | nil =>
    simp only [List.foldlM_nil, List.flatMap_nil, List.filter_nil, List.map_nil, List.append_nil,
      List.not_mem_nil, false_implies, implies_true, true_and]
    exact ⟨fun h => (Except.ok.inj h).symm, fun h => congrArg ok h.symm⟩
  | cons vertex rest ih =>
    simp only [List.foldlM_cons, bind_eq_ok, ih, List.forall_mem_cons, List.flatMap_cons,
      List.filter_cons]
    cases hint : interposes byId vertex with
    | false =>
      have hturn : normalizeVertex byId done vertex = ok (done.1 ++ [vertex], done.2) := by
        rw [normalizeVertex, if_neg]
        simpa [interposes] using hint
      simp [hturn, normalizedVertices, hint]
    | true =>
      have hneed : vertex.kind.vertexKind = .planner ∧
          needsInterposedRouter vertex.parents byId = true := by
        simpa [interposes] using hint
      rw [normalizeVertex, if_pos hneed]
      cases hhas : byId.has (interposedRouter vertex).id with
      | true =>
        have hthr : byId.has (vertex.id ++ interposedRouterSuffix) = true := hhas
        simp [hthr]
      | false =>
        have hgoes : byId.has (vertex.id ++ interposedRouterSuffix) = false := hhas
        simp [hgoes, normalizedVertices, hint, interposedRouter]

/-- **`normalizeWorkflow` computes the normal form**, where it does not throw. -/
theorem normalizeWorkflow_iff :
    normalizeWorkflow submission = ok (workflow, interposed) ↔
      NormalForm submission workflow interposed := by
  have hknown : unknownParent (verticesById submission.vertices) submission.vertices = none ↔
      ∀ vertex ∈ submission.vertices, ∀ parent ∈ vertex.parents,
        (verticesById submission.vertices).has parent = true := by
    simp [unknownParent, List.findSome?_eq_none_iff]
  simp only [normalizeWorkflow]
  split
  · rename_i hunk
    refine ⟨fun h => (by cases h), fun h => ?_⟩
    rw [hknown.mpr h.known] at hunk
    cases hunk
  rename_i hnone
  rw [map_eq_ok]
  constructor
  · rintro ⟨_, hdone, heq⟩
    obtain ⟨hfresh, rfl⟩ := foldlM_normalizeVertex.mp hdone
    cases heq
    exact ⟨hknown.mp hnone, hfresh, rfl, rfl⟩
  · rintro ⟨-, hfresh, rfl, rfl⟩
    exact ⟨_, foldlM_normalizeVertex.mpr ⟨hfresh, rfl⟩, rfl⟩

section

variable (h : normalizeWorkflow submission = ok (workflow, interposed))

include h

theorem normalizeWorkflow_attachTo : workflow.attachTo = submission.attachTo := by
  rw [(normalizeWorkflow_iff.mp h).form]

theorem normalizeWorkflow_scopes : workflow.scopes = submission.scopes := by
  rw [(normalizeWorkflow_iff.mp h).form]

/-- Every parent of a submission that is normalized is one of its vertices. -/
theorem parent_known (hver : vertex ∈ submission.vertices) (hpar : parent ∈ vertex.parents) :
    (verticesById submission.vertices).has parent = true :=
  (normalizeWorkflow_iff.mp h).known vertex hver parent hpar

omit h in
/-- The vertices of a normal form. -/
theorem NormalForm.mem_vertices (h : NormalForm submission workflow interposed) :
    vertex ∈ workflow.vertices ↔ ∃ submitted ∈ submission.vertices,
      vertex ∈ normalizedVertices (verticesById submission.vertices) submitted := by
  rw [h.form, List.mem_flatMap]

/-- **Every vertex of a normalized workflow** is a submitted one, an interposed router, or a
planner behind one. -/
theorem normalized_of_normalizeWorkflow (hver : vertex ∈ workflow.vertices) :
    Normalized submission vertex := by
  have hform := normalizeWorkflow_iff.mp h
  obtain ⟨submitted, hsub, hmem⟩ := hform.mem_vertices.mp hver
  unfold normalizedVertices at hmem
  split at hmem
  · rename_i hint
    have hkind := kind_eq_planner (beq_iff_eq.mp (Bool.and_eq_true_iff.mp hint).1)
    have hnew := hform.fresh submitted hsub hint
    rcases List.mem_cons.mp hmem with heq | hmem
    · exact .router hsub hkind hnew heq
    · exact .planner hsub hkind hnew (List.mem_singleton.mp hmem)
  · obtain rfl := List.mem_singleton.mp hmem
    exact .kept hsub

/-- The vertices of a workflow that call a tool stand in its submission. -/
theorem normalizeWorkflow_tools (hver : vertex ∈ workflow.vertices) {tool : String}
    {input : Json} {key : Option String} {confirmed : Bool}
    (hkind : vertex.kind = .tool tool input key confirmed) : vertex ∈ submission.vertices := by
  cases normalized_of_normalizeWorkflow h hver with
  | kept h => exact h
  | router _ _ _ heq =>
    rw [heq] at hkind
    cases hkind
  | planner _ hplan _ heq =>
    rw [heq, hplan] at hkind
    cases hkind

/-- Every submitted vertex stands in the workflow, with its parents or behind its router. -/
theorem exists_normalized (hver : vertex ∈ submission.vertices) :
    ∃ u ∈ workflow.vertices, u.id = vertex.id := by
  have hform := normalizeWorkflow_iff.mp h
  simp only [hform.mem_vertices]
  cases hint : interposes (verticesById submission.vertices) vertex with
  | false => exact ⟨vertex, ⟨vertex, hver, by simp [normalizedVertices, hint]⟩, rfl⟩
  | true =>
    exact ⟨{ vertex with parents := [(interposedRouter vertex).id] },
      ⟨vertex, hver, by simp [normalizedVertices, hint]⟩, rfl⟩

/-- Every parent of a normalized workflow stands in it. -/
theorem exists_router (hver : vertex ∈ workflow.vertices) (hpar : parent ∈ vertex.parents) :
    ∃ u ∈ workflow.vertices, u.id = parent := by
  have hform := normalizeWorkflow_iff.mp h
  have hknown : ∀ submitted ∈ submission.vertices, parent ∈ submitted.parents →
      ∃ u ∈ workflow.vertices, u.id = parent := by
    intro submitted hsub hpar
    obtain ⟨_, hfound⟩ := Option.isSome_iff_exists.mp (parent_known h hsub hpar)
    obtain ⟨hmem, rfl⟩ := mem_of_verticesById hfound
    exact exists_normalized h hmem
  obtain ⟨submitted, hsub, hmem⟩ := hform.mem_vertices.mp hver
  unfold normalizedVertices at hmem
  split at hmem
  · rename_i hint
    rcases List.mem_cons.mp hmem with rfl | hmem
    · exact hknown submitted hsub hpar
    obtain rfl := List.mem_singleton.mp hmem
    refine ⟨interposedRouter submitted, hform.mem_vertices.mpr ⟨submitted, hsub, ?_⟩,
      (List.mem_singleton.mp hpar).symm⟩
    simp [normalizedVertices, hint]
  · obtain rfl := List.mem_singleton.mp hmem
    exact hknown vertex hsub hpar

end

end Normalize

/-! ### Workflows without a cycle -/

/-- Vertices without a cycle: some rank falls along their parents. -/
def Acyclic (vertices : List SubmittedVertex) : Prop :=
  ∃ rank : String → ℕ, ∀ vertex ∈ vertices, ∀ parent ∈ vertex.parents, rank parent < rank vertex.id

theorem strip_append (start rest : List Char) : strip start (start ++ rest) = some rest := by
  induction start with
  | nil => rfl
  | cons c start ih =>
    rw [List.cons_append, strip, if_pos rfl]
    exact ih

theorem interposedTarget_router (planner : SubmittedVertex) :
    interposedTarget (interposedRouter planner).id = some planner.id := by
  unfold interposedTarget interposedRouter
  rw [String.toList_append, List.reverse_append, strip_append]
  simp

section Acyclic

variable {submission workflow : WorkflowSubmission} {interposed : List String}

/-- A submitted id is a vertex. -/
theorem has_verticesById {vertices : List SubmittedVertex} (h : vertex ∈ vertices) :
    (verticesById vertices).has vertex.id = true := by
  rw [OrderedMap.has_iff, verticesById, OrderedMap.mem_keys_ofEntries, List.map_map]
  exact List.mem_map_of_mem h

/-- **Normalization adds no cycle**: a router ranks between its planner and the planner's
parents. -/
theorem acyclic_of_normalizeWorkflow (h : normalizeWorkflow submission = ok (workflow, interposed))
    (hacy : Acyclic submission.vertices) : Acyclic workflow.vertices := by
  obtain ⟨rank, hrank⟩ := hacy
  let byId := verticesById submission.vertices
  let rank' : String → ℕ := fun id =>
    if byId.has id then 2 * rank id + 1 else 2 * rank ((interposedTarget id).getD id)
  have hsub : ∀ vertex ∈ submission.vertices, rank' vertex.id = 2 * rank vertex.id + 1 :=
    fun vertex hver => if_pos (has_verticesById hver)
  have hparen : ∀ vertex ∈ submission.vertices, ∀ parent ∈ vertex.parents,
      rank' parent = 2 * rank parent + 1 :=
    fun vertex hver parent hpar => if_pos (parent_known h hver hpar)
  have hrout : ∀ planner : SubmittedVertex, byId.has (interposedRouter planner).id = false →
      rank' (interposedRouter planner).id = 2 * rank planner.id := by
    intro planner hnew
    have hnot : ¬ byId.has (interposedRouter planner).id = true := by simp [hnew]
    calc rank' (interposedRouter planner).id
        = 2 * rank ((interposedTarget (interposedRouter planner).id).getD _) := if_neg hnot
      _ = 2 * rank planner.id := by rw [interposedTarget_router, Option.getD_some]
  refine ⟨rank', fun vertex hver parent hpar => ?_⟩
  cases normalized_of_normalizeWorkflow h hver with
  | kept hmem =>
    have hfal := hrank vertex hmem parent hpar
    rw [hsub vertex hmem, hparen vertex hmem parent hpar]
    omega
  | @router planner hmem _ hnew heq =>
    rw [heq] at hpar ⊢
    have hfal := hrank planner hmem parent hpar
    rw [hrout planner hnew, hparen planner hmem parent hpar]
    omega
  | @planner planner hmem _ hnew heq =>
    rw [heq] at hpar ⊢
    obtain rfl := List.mem_singleton.mp hpar
    rw [hrout planner hnew, hsub planner hmem]
    omega

/-- Every parent of a normalized workflow is one of its vertices. -/
theorem parent_normalized (h : normalizeWorkflow submission = ok (workflow, interposed))
    (hver : vertex ∈ workflow.vertices) {parent : String} (hpar : parent ∈ vertex.parents) :
    (verticesById workflow.vertices).has parent = true := by
  obtain ⟨u, hu, rfl⟩ := exists_router h hver hpar
  exact has_verticesById hu

end Acyclic

/-! ### The context of a workflow -/

/-- A proposal that can be read: its parents are vertices of it, some rank falls along them,
and only tool vertices name a tool. -/
structure Readable (proposal : SubDagProposal) : Prop where
  acyclic : ∃ rank : String → ℕ, ∀ vertex ∈ proposal.vertices, ∀ parent ∈ vertex.parents,
    rank parent < rank vertex.id
  closed : ∀ vertex ∈ proposal.vertices, ∀ parent ∈ vertex.parents,
    ∃ u ∈ proposal.vertices, u.id = parent
  toolless : ∀ vertex ∈ proposal.vertices, vertex.kind ≠ .tool → given vertex.tool = none

/-- **A proposal that can be read has a context**, over a registry of the tools it names. -/
theorem buildContext_total {proposal : SubDagProposal} {registry : ToolRegistry}
    (h : Readable proposal) (hknown : ∀ vertex ∈ proposal.vertices, vertex.kind = .tool →
      ∀ tool, given vertex.tool = some tool → registry.definitions.has tool = true) :
    ∃ context, buildContext proposal registry = ok context := by
  obtain ⟨rank, hrank⟩ := h.acyclic
  have hadd : ∀ tools, ∀ vertex ∈ proposal.vertices, ∃ tools', addTool registry tools vertex =
      ok tools' := by
    intro tools vertex hver
    unfold addTool
    split
    · rename_i tool hkind htool
      obtain ⟨definition, hget⟩ := Option.isSome_iff_exists.mp (hknown vertex hver hkind tool htool)
      exact ⟨_, map_eq_ok.mpr ⟨definition, by simp [ToolRegistry.get, hget], rfl⟩⟩
    · exact ⟨_, rfl⟩
    · rename_i htool hnot
      rw [h.toolless vertex hver hnot] at htool
      cases htool
    · exact ⟨_, rfl⟩
  obtain ⟨tools, htools⟩ := Fallible.foldlM_total hadd OrderedMap.empty
  generalize hvert : OrderedMap.ofEntries
    (proposal.vertices.map fun vertex => (vertex.id, vertex)) = vertices
  have hran : Closure.Ranked vertices.has (parentsOf vertices) vertices.keys rank := by
    refine ⟨fun id hid => OrderedMap.has_iff.mpr hid, fun id _ parent hpar => ?_,
      fun id _ parent hpar => ?_⟩
    · obtain ⟨vertex, hver, -, hin⟩ := parent_of_mem_parentsOf hvert hpar
      obtain ⟨u, hu, rfl⟩ := h.closed vertex hver parent hin
      rw [← hvert, OrderedMap.mem_keys_ofEntries, List.map_map]
      exact List.mem_map_of_mem hu
    · obtain ⟨vertex, hver, rfl, hin⟩ := parent_of_mem_parentsOf hvert hpar
      exact hrank vertex hver parent hin
  obtain ⟨ancestors, hanc⟩ := Closure.closure_total hran (Nat.lt_succ_self _)
    (fun _ hx => hx) OrderedMap.empty
  subst hvert
  simp only [buildContext, bind_eq_ok, Fallible.mapError_eq_ok]
  exact ⟨_, tools, htools, ancestors, hanc, rfl⟩

/-! ### The context is the closure -/

/-- A non-empty path of parents leads from one id to another. -/
def SubDagProposal.Path (proposal : SubDagProposal) : String → String → Prop :=
  Relation.TransGen proposal.Parent

section Closed

variable {proposal : SubDagProposal} {registry : ToolRegistry} {context : GraphContext}

/-- Under distinct ids, the parents in a context are those the proposal lists. -/
theorem parentsOf_eq_parent (hids : (proposal.vertices.map ProposalVertex.id).Nodup)
    (h : ContextOf proposal registry context) :
    (fun parent child => parent ∈ parentsOf context.vertices child) = proposal.Parent := by
  funext parent child
  refine propext ⟨parent_of_mem_parentsOf h.vertices.symm, ?_⟩
  rintro ⟨vertex, hver, rfl, hpar⟩
  have hget : context.vertices.get? vertex.id = some vertex := by
    rw [h.vertices, OrderedMap.get?_eq_some_iff,
      OrderedMap.entries_ofEntries (by simpa [Function.comp_def] using hids)]
    exact List.mem_map_of_mem hver
  simpa [parentsOf, hget] using hpar

/-- The tools of a context are known, and only tool vertices name one. -/
theorem buildContext_tools (h : buildContext proposal registry = ok context) :
    ∀ vertex ∈ proposal.vertices,
      (vertex.kind = .tool → ∀ tool, given vertex.tool = some tool →
        registry.definitions.has tool = true) ∧
      (vertex.kind ≠ .tool → given vertex.tool = none) := by
  simp only [buildContext, bind_eq_ok] at h
  obtain ⟨_, htools, -⟩ := h
  refine Fallible.foldlM_forall (P := fun (vertex : ProposalVertex) _ => (vertex.kind = .tool → ∀ tool,
    given vertex.tool = some tool → registry.definitions.has tool = true) ∧
      (vertex.kind ≠ .tool → given vertex.tool = none))
    (fun before vertex after hadd => ⟨fun hkind tool htool => ?_, fun hkind => ?_⟩)
    (fun _ _ _ _ _ hnam => hnam) htools
  · rcases addTool_ok hadd with ⟨-, hnot⟩ | ⟨tool', definition, -, htool', hget, -⟩
    · exact absurd ⟨hkind, by simp [htool]⟩ hnot
    · obtain rfl := Option.mem_unique htool' htool
      simp [OrderedMap.has, hget]
  · unfold addTool at hadd
    grind

/-- **The context of a proposal is its transitive closure.** For distinct ids it is built
exactly if the parents form no cycle, every parent is a vertex, every tool is registered and
only tool vertices name one; it then holds, for every vertex, the vertices from which a
non-empty path of parents leads to it, and those to which one leads from it. -/
theorem buildContext_closure (hids : (proposal.vertices.map ProposalVertex.id).Nodup) :
    ((∃ context, buildContext proposal registry = ok context) ↔
      (∀ id, ¬ proposal.Path id id) ∧
      (∀ vertex ∈ proposal.vertices, ∀ parent ∈ vertex.parents,
        ∃ u ∈ proposal.vertices, u.id = parent) ∧
      (∀ vertex ∈ proposal.vertices, vertex.kind = .tool → ∀ tool,
        given vertex.tool = some tool → registry.definitions.has tool = true) ∧
      ∀ vertex ∈ proposal.vertices, vertex.kind ≠ .tool → given vertex.tool = none) ∧
    ∀ context, buildContext proposal registry = ok context → ∀ id z,
      (z ∈ context.ancestorsOf id ↔ proposal.Path z id) ∧
      (z ∈ context.descendantsOf id ↔ proposal.Path id z) := by
  refine ⟨⟨?_, ?_⟩, fun context hbuilt id z => ?_⟩
  · rintro ⟨context, hbuilt⟩
    have hcon := buildContext_ok hbuilt
    have hparen := parentsOf_eq_parent hids hcon
    have htools := buildContext_tools hbuilt
    refine ⟨fun id hcyc => ?_, fun vertex hver parent hpar => ?_,
      fun vertex hver => (htools vertex hver).1, fun vertex hver => (htools vertex hver).2⟩
    · have hacc := buildContext_grounded hbuilt id
      rw [hparen] at hacc
      exact hacc.transGen.rec (fun x _ ih hcyc => ih x hcyc hcyc) hcyc
    · have hlis : proposal.Parent parent vertex.id := ⟨vertex, hver, rfl, hpar⟩
      rw [← hparen] at hlis
      obtain ⟨found, hfound⟩ := hcon.searched _ (mem_keys_of_mem_parentsOf hlis)
      have hhas := (buildContext_finished hbuilt).informed _ found hfound parent hlis
      rw [hcon.vertices, OrderedMap.has_iff, OrderedMap.mem_keys_ofEntries, List.map_map] at hhas
      exact List.mem_map.mp hhas
  · rintro ⟨hacyc, hclos, hknown, htool⟩
    have hmem : ∀ parent child, proposal.Parent parent child →
        parent ∈ proposal.vertices.map ProposalVertex.id := by
      rintro parent _ ⟨vertex, hver, -, hpar⟩
      exact List.mem_map.mpr (hclos vertex hver parent hpar)
    obtain ⟨rank, hrank⟩ := Dag.exists_rank hmem hacyc
    exact buildContext_total ⟨⟨rank, fun vertex hver parent hpar =>
      hrank _ _ ⟨vertex, hver, rfl, hpar⟩⟩, hclos, htool⟩ hknown
  · rw [context_ancestors (buildContext_ok hbuilt), context_descendants (buildContext_ok hbuilt),
      SubDagProposal.Path, ← parentsOf_eq_parent hids (buildContext_ok hbuilt)]
    exact ⟨Iff.rfl, Iff.rfl⟩

/-- A planner behind a router. -/
def plannerBehindRouter : SubDagProposal where
  vertices := [⟨"b", ["a"], .planner, none, none, false⟩, ⟨"a", [], .router, none, none, false⟩]
  scopes := []

theorem buildContext_closure_planner : ∃ context,
    buildContext plannerBehindRouter .empty = ok context ∧ "b" ∈ context.descendantsOf "a" := by
  obtain ⟨context, hbuilt, -⟩ := Fallible.exists_ok_of_any
    (buildContext plannerBehindRouter .empty) (fun _ => true) (by decide +kernel)
  exact ⟨context, hbuilt, ((buildContext_closure (by decide)).2 context hbuilt "a" "b").2.mpr
    (.single ⟨_, List.mem_cons_self, rfl, List.mem_cons_self⟩)⟩

end Closed

end Flory
