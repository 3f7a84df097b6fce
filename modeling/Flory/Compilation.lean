import Flory.NormalForms
import Flory.Origins

/-!
# Compilation is Faithful

The drafts of an admitted submission are its normal form, vertex by vertex: each under an id of its
own, behind the drafts of its parents. The ids are kept in a map from the names the author chose, so
all of this rests on the names being distinct: of two vertices with one name the map keeps the
second, the first is never created, and `subgraph/frozen` records both under one id.

## Main results

* `draftOf_compiled`: the draft of a vertex states its kind, tool, input, parents and scope.
* `compilation_faithful`: one draft for each vertex, exactly if the names are distinct.
* `one_name_one_draft`: two calls of one name are admitted, and one is lost.
-/

namespace Flory

open Except (ok)
open Fallible (bind_eq_ok)

variable {workflow : WorkflowSubmission} {newId : ℕ → ℕ} {vertex : SubmittedVertex}
  {draft : EventDraft}

/-- The `vertices` of a `subgraph/frozen`: the names the author chose, with their ids. -/
def frozenMapping (workflow : WorkflowSubmission) (newId : ℕ → ℕ) :
    List (String × Option VertexId) :=
  workflow.vertices.map fun vertex => (vertex.id, (vertexIds workflow newId).get? vertex.id)

/-- Whether a payload is that of a vertex: of its kind, with its tool and its input. -/
def SubmittedKind.isCompiled : SubmittedKind → VertexPayload → Prop
  | .tool name input _ _, .tool payload => payload.tool = name ∧ payload.input = input
  | .planner, .planner => True
  | .router _, .router => True
  | .confirmationBarrier, .barrier => True
  | _, _ => False

/-- **The draft of a vertex**: under a fresh id, with the ids of its parents, or the attach point of
the workflow for a root, the id of its scope, and what the author wrote. -/
structure DraftOf (workflow : WorkflowSubmission) (newId : ℕ → ℕ) (vertex : SubmittedVertex)
    (draft : EventDraft) : Prop where
  created : ∃ payload, draft.body = .vertexCreated payload ∧ vertex.kind.isCompiled payload
  id : draft.vertexId = (vertexIds workflow newId).get? vertex.id
  fresh : ∃ i, draft.vertexId = some (newId i)
  parents : draft.parentRefs.map some = if vertex.parents = [] then workflow.attachTo.map some
    else vertex.parents.map (vertexIds workflow newId).get?
  scope : draft.scopeId.map some = (given vertex.scope).map (scopeIds workflow newId).get?

/-- A compiled payload is what the author wrote. -/
theorem isCompiled_of_vertexPayload {ctx : CompileContext} {payload : VertexPayload}
    (h : vertexPayload ctx vertex = ok payload) : vertex.kind.isCompiled payload := by
  unfold vertexPayload at h
  cases hkind : vertex.kind with
  | planner | router | confirmationBarrier =>
    simp only [hkind, Except.ok.injEq] at h
    subst h
    trivial
  | tool name input key confirmed =>
    simp only [hkind, compileTool] at h
    split at h
    · cases h
    rename_i contract hcon
    simp only [bind_eq_ok, Except.ok.injEq] at h
    obtain ⟨_, -, _, -, _, -, _, -, rfl⟩ := h
    exact ⟨(mem_of_contractsById hcon).2, rfl⟩

/-- **The draft of a vertex whose parents are vertices.** -/
theorem draftOf_compiled {ctx : CompileContext} (hver : vertex ∈ workflow.vertices)
    (hpar : ∀ parent ∈ vertex.parents, ∃ u ∈ workflow.vertices, u.id = parent)
    (h : compileVertex workflow ctx vertex = ok draft) : DraftOf workflow ctx.newId vertex draft := by
  -- a vertex that names a scope has its id: compilation refuses an undeclared one
  have hscope : ((given vertex.scope).bind (scopeIds workflow ctx.newId).get?).map some =
      (given vertex.scope).map (scopeIds workflow ctx.newId).get? := by
    cases hgiv : given vertex.scope with
    | none => rfl
    | some scope =>
      cases hid : (scopeIds workflow ctx.newId).get? scope with
      | none =>
        simp only [compileVertex, hgiv, hid, bind_eq_ok] at h
        obtain ⟨_, hnone, -⟩ := h
        cases hnone
      | some => simp [hid]
  obtain ⟨payload, hpay, rfl⟩ := compileVertex_ok h
  obtain ⟨id, hid⟩ := Option.isSome_iff_exists.mp (vertexIds_isSome hver ctx.newId)
  obtain ⟨i, rfl⟩ := vertexIds_new hid
  refine ⟨⟨payload, rfl, isCompiled_of_vertexPayload hpay⟩, rfl, ⟨i, hid⟩, ?_, hscope⟩
  by_cases hroot : vertex.parents = []
  · simp [hroot]
  simp only [hroot, if_false]
  -- every parent has an id, so none is dropped
  have hknown : ∀ parent ∈ vertex.parents, ((vertexIds workflow ctx.newId).get? parent).isSome := by
    intro parent hparen
    obtain ⟨u, hu, rfl⟩ := hpar parent hparen
    exact vertexIds_isSome hu ctx.newId
  clear hroot hpar h hpay
  generalize vertex.parents = parents at hknown
  induction parents with
  | nil => rfl
  | cons parent rest ih =>
    obtain ⟨n, hn⟩ := Option.isSome_iff_exists.mp (hknown parent List.mem_cons_self)
    rw [List.filterMap_cons_some hn, List.map_cons, List.map_cons, hn,
      ih fun p hp => hknown p (List.mem_cons_of_mem _ hp)]

/-- Distinct names have distinct ids. -/
theorem nodup_ids (hids : (workflow.vertices.map (·.id)).Nodup) (hfresh : Function.Injective newId) :
    (workflow.vertices.map fun vertex => (vertexIds workflow newId).get? vertex.id).Nodup := by
  refine List.Nodup.map_on (fun u hu v hv heq => ?_) hids.of_map
  obtain ⟨n, hn⟩ := Option.isSome_iff_exists.mp (vertexIds_isSome hu newId)
  exact List.inj_on_of_nodup_map hids hu hv (vertexIds_inj hfresh hn (heq ▸ hn))

/-- **The events of a freeze say what a workflow says**: one draft for each of its vertices, behind
the drafts of its parents; no two drafts share an id, and the freeze maps no two vertices to one. -/
def Faithful (workflow : WorkflowSubmission) (newId : ℕ → ℕ) (proposedSeq : ℕ)
    (events : List EventDraft) : Prop :=
  ∃ ordered drafts, events = { body := .subgraph (.frozen proposedSeq) } :: drafts ∧
    ordered.Perm workflow.vertices ∧ List.Forall₂ (DraftOf workflow newId) ordered drafts ∧
    ParentsFirst ordered ∧ (drafts.map EventDraft.vertexId).Nodup ∧
    ((frozenMapping workflow newId).map Prod.snd).Nodup

/-- Workflows of distinct names are compiled faithfully. -/
theorem faithful_of_nodup {ctx : CompileContext} {drafts : List EventDraft}
    (hnames : (workflow.vertices.map (·.id)).Nodup) (hfresh : Function.Injective ctx.newId)
    (h : compileVertexDrafts workflow ctx = ok drafts) (proposedSeq : ℕ) :
    Faithful workflow ctx.newId proposedSeq
      ({ body := .subgraph (.frozen proposedSeq) } :: drafts) := by
  simp only [compileVertexDrafts, bind_eq_ok] at h
  obtain ⟨ordered, hord, hdrafts⟩ := h
  obtain ⟨hfirst, hknown, hall⟩ := topologicalOrder_ok hord
  have hmem : ∀ vertex, vertex ∈ ordered ↔ vertex ∈ workflow.vertices := by
    refine fun vertex => ⟨fun hver => (mem_of_verticesById (hknown vertex hver)).1, ?_⟩
    intro hver
    obtain ⟨u, hu, hid⟩ := hall vertex hver
    have hsame := hknown u hu
    rw [hid, get?_verticesById hnames hver] at hsame
    exact Option.some.inj hsame ▸ hu
  have hperm : ordered.Perm workflow.vertices :=
    (List.perm_ext_iff_of_nodup (hfirst.distinct.imp fun hne heq => hne (congrArg _ heq))
      hnames.of_map).mpr hmem
  have hparen : ∀ vertex ∈ ordered, vertex ∈ workflow.vertices ∧
      ∀ parent ∈ vertex.parents, ∃ u ∈ workflow.vertices, u.id = parent := by
    intro vertex hver
    obtain ⟨before, after, hsplit⟩ := List.append_of_mem hver
    refine ⟨(hmem vertex).mp hver, fun parent hpar => ?_⟩
    obtain ⟨u, hu, huid⟩ := (hfirst before vertex after hsplit).1 parent hpar
    exact ⟨u, (hmem u).mp (hsplit ▸ List.mem_append_left _ hu), huid⟩
  have hdraf : List.Forall₂ (DraftOf workflow ctx.newId) ordered drafts :=
    ((List.forall₂_and_left _ _).mpr ⟨hparen, Fallible.mapM_eq_ok.mp hdrafts⟩).imp
      fun _ _ hturn => draftOf_compiled hturn.1.1 hturn.1.2 hturn.2
  have hmap : drafts.map EventDraft.vertexId =
      ordered.map fun vertex => (vertexIds workflow ctx.newId).get? vertex.id := by
    rw [← List.forall₂_eq_eq_eq, List.forall₂_map_left_iff, List.forall₂_map_right_iff]
    exact (hdraf.imp fun _ _ hdraft => hdraft.id).flip
  refine ⟨ordered, drafts, rfl, hperm, hdraf, hfirst, ?_, ?_⟩
  · rw [hmap, (hperm.map _).nodup_iff]
    exact nodup_ids hnames hfresh
  · rw [frozenMapping, List.map_map]
    exact nodup_ids hnames hfresh

/-- Normalization drops no name. -/
theorem NormalForm.ids_sublist {submission : WorkflowSubmission} {interposed : List String}
    (h : NormalForm submission workflow interposed) :
    (submission.vertices.map (·.id)).Sublist (workflow.vertices.map (·.id)) := by
  rw [h.form]
  dsimp only
  generalize verticesById submission.vertices = byId
  induction submission.vertices with
  | nil => exact .slnil
  | cons vertex rest ih =>
    rw [List.map_cons, List.flatMap_cons, List.map_append, ← List.singleton_append]
    refine List.Sublist.append (List.singleton_sublist.mpr ?_) ih
    unfold normalizedVertices
    split <;> simp

/-- **Compilation is faithful exactly if the names are distinct.** Of two vertices with one name the
freeze records both under one id. -/
theorem compilation_faithful {db : Db} {runId : RunId} {submission : WorkflowSubmission}
    {resolved : ResolvedToolView} {templates : TemplateResolver} {proposedSeq : ℕ}
    {events : List EventDraft} (hfresh : Function.Injective newId)
    (h : submit db runId submission resolved templates newId proposedSeq = ok (.admitted events)) :
    ∃ workflow interposed, normalizeWorkflow submission = ok (workflow, interposed) ∧
      (Faithful workflow newId proposedSeq events ↔ (submission.vertices.map (·.id)).Nodup) := by
  obtain ⟨workflow, interposed, drafts, hnor, rfl, hpas⟩ := submit_admitted h
  have hform := normalizeWorkflow_iff.mp hnor
  refine ⟨workflow, interposed, hnor, fun hfaith => ?_, fun hids => ?_⟩
  · obtain ⟨-, -, -, -, -, -, -, hmap⟩ := hfaith
    rw [frozenMapping, List.map_map] at hmap
    have hnames : (workflow.vertices.map (·.id)).Nodup :=
      List.Nodup.of_map (vertexIds workflow newId).get? (by rwa [List.map_map])
    exact hnames.sublist hform.ids_sublist
  · exact faithful_of_nodup (hform.nodup hids) hfresh hpas.compiled proposedSeq

/-- A reservation, and a payment that follows it. -/
def paidReservation : WorkflowSubmission where
  vertices := [shopCall "p" "pay" ["a"], shopCall "a" "reserve"]
  scopes := [⟨"S", ["a", "p"]⟩]

/-- Both are created, the reservation first. -/
theorem compilation_faithful_paidReservation :
    ∃ events, submit oneRun 1 paidReservation shopView {} (10 + ·) 0 = ok (.admitted events) ∧
      events.map EventDraft.vertexId = [none, some 11, some 10] ∧
      ∃ workflow interposed, normalizeWorkflow paidReservation = ok (workflow, interposed) ∧
        Faithful workflow (10 + ·) 0 events := by
  obtain ⟨events, hsub, htest⟩ := exists_of_admitsWith
    (submit oneRun 1 paidReservation shopView {} (10 + ·) 0)
    (P := fun events => events.map EventDraft.vertexId = [none, some 11, some 10]) (by decide +kernel)
  obtain ⟨workflow, interposed, hnor, hfaith⟩ :=
    compilation_faithful (fun _ _ => Nat.add_left_cancel) hsub
  exact ⟨events, hsub, htest, workflow, interposed, hnor, hfaith.mpr (by decide)⟩

/-- Two calls of different tools under one name. -/
def namesakes : WorkflowSubmission where
  vertices := [shopCall "a" "reserve", shopCall "a" "book"]
  scopes := [⟨"S", ["a"]⟩]

/-- **Of two calls with one name one is lost**: the two are admitted as they are, one vertex is
created, and the freeze maps both to its id. -/
theorem one_name_one_draft :
    normalizeWorkflow namesakes = ok (namesakes, []) ∧
    (frozenMapping namesakes (10 + ·)).map Prod.snd = [some 11, some 11] ∧
    ∃ events, submit oneRun 1 namesakes shopView {} (10 + ·) 0 = ok (.admitted events) ∧
      events.map EventDraft.vertexId = [none, some 11] := by
  exact ⟨rfl, by decide +kernel, exists_of_admitsWith _ (by decide +kernel)⟩

end Flory
