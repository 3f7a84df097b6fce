import Flory.Normalization

/-!
# The Normal Form is Canonical

`normalizeWorkflow` only adds junctions. A planner is reached through one router, whoever drew the
graph; who comes before whom, and whether there is a cycle, is left as it was submitted.

## Main results

* `NormalForm.nodup`: the normal form of distinct ids has distinct ids.
* `NormalForm.ancestor_iff`: the ancestors of a submitted vertex are those it was submitted with.
* `normalization_canonical`: everything a normal form keeps, and that it is its own.
-/

namespace Flory

open Except (ok)

/-- The edge from a parent to its child, by their ids. -/
def ParentOf (vertices : List SubmittedVertex) (parent child : String) : Prop :=
  ∃ vertex ∈ vertices, vertex.id = child ∧ parent ∈ vertex.parents

/-- Some path of edges. -/
def AncestorOf (vertices : List SubmittedVertex) : String → String → Prop :=
  Relation.TransGen (ParentOf vertices)

variable {submission workflow : WorkflowSubmission} {interposed : List String}
  {vertex : SubmittedVertex} {parent child : String}

/-- **What normalization keeps and brings about.** -/
structure CanonicalForm (submission workflow : WorkflowSubmission) (interposed : List String) :
    Prop where
  planner : ∀ vertex ∈ workflow.vertices, vertex.kind.vertexKind = .planner → vertex.parents ≠ [] →
    ∃ router ∈ workflow.vertices, vertex.parents = [router.id] ∧ router.kind.vertexKind = .router
  kept : ∀ vertex ∈ submission.vertices, ∃ vertex' ∈ workflow.vertices,
    vertex' = { vertex with parents := vertex'.parents } ∧
      (vertex.kind.vertexKind ≠ .planner → vertex' = vertex)
  added : ∀ vertex ∈ workflow.vertices, vertex.kind.vertexKind ≠ .router →
    ∃ submitted ∈ submission.vertices, vertex = { submitted with parents := vertex.parents }
  ancestors : ∀ u ∈ submission.vertices, ∀ v ∈ submission.vertices,
    AncestorOf submission.vertices u.id v.id ↔ AncestorOf workflow.vertices u.id v.id
  acyclic : Acyclic workflow.vertices ↔ Acyclic submission.vertices
  admitted : ∀ registry context, buildContext (lowerToProposal workflow) registry = ok context →
    ruleR14 context = []
  again : normalizeWorkflow workflow = ok (workflow, [])

/-- With distinct ids, every vertex is the one its id names. -/
theorem get?_verticesById {vertices : List SubmittedVertex} (hids : (vertices.map (·.id)).Nodup)
    (hver : vertex ∈ vertices) : (verticesById vertices).get? vertex.id = some vertex := by
  obtain ⟨_, hfound⟩ := Option.isSome_iff_exists.mp (has_verticesById hver)
  obtain ⟨hmem, hid⟩ := mem_of_verticesById hfound
  rw [hfound, List.inj_on_of_nodup_map hids hmem hver hid]

namespace NormalForm

section

variable (h : NormalForm submission workflow interposed)

include h

theorem mem_kept (hver : vertex ∈ submission.vertices)
    (hkept : interposes (verticesById submission.vertices) vertex = false) :
    vertex ∈ workflow.vertices :=
  h.mem_vertices.mpr ⟨vertex, hver, by simp [normalizedVertices, hkept]⟩

/-- A router, and the planner behind it. -/
theorem mem_interposed (hver : vertex ∈ submission.vertices)
    (hint : interposes (verticesById submission.vertices) vertex = true) :
    interposedRouter vertex ∈ workflow.vertices ∧
      { vertex with parents := [(interposedRouter vertex).id] } ∈ workflow.vertices :=
  ⟨h.mem_vertices.mpr ⟨vertex, hver, by simp [normalizedVertices, hint]⟩,
    h.mem_vertices.mpr ⟨vertex, hver, by simp [normalizedVertices, hint]⟩⟩

/-- **The ids of a normal form are distinct**, if those submitted are. -/
theorem nodup (hids : (submission.vertices.map (·.id)).Nodup) :
    (workflow.vertices.map (·.id)).Nodup := by
  have hnew : ∀ {u v : SubmittedVertex}, u ∈ submission.vertices → v ∈ submission.vertices →
      interposes (verticesById submission.vertices) v = true → u.id ≠ (interposedRouter v).id := by
    intro u v hu hv hint heq
    have hfresh := h.fresh v hv hint
    rw [← heq, has_verticesById hu] at hfresh
    cases hfresh
  rw [h.form, List.map_flatMap, List.nodup_flatMap]
  constructor
  · intro v hv
    unfold normalizedVertices
    split
    · rename_i hint
      simpa using (hnew hv hv hint).symm
    · exact List.nodup_singleton _
  · have hmem : ∀ {v : SubmittedVertex} {id : String},
        id ∈ (normalizedVertices (verticesById submission.vertices) v).map (·.id) → id = v.id ∨
          (interposes (verticesById submission.vertices) v = true ∧ id = (interposedRouter v).id) := by
      intro v id hid
      unfold normalizedVertices at hid
      split at hid <;> simp_all [or_comm]
    rw [List.Nodup, List.pairwise_map] at hids
    refine List.Pairwise.imp_of_mem (fun {u v} hu hv hne id hidu hidv => ?_) hids
    rcases hmem hidu with rfl | ⟨hu', rfl⟩
    · rcases hmem hidv with heq | ⟨hv', heq⟩
      · exact hne heq
      · exact hnew hu hv hv' heq
    · rcases hmem hidv with heq | ⟨-, heq⟩
      · exact hnew hv hu hu' heq.symm
      · have htar := congrArg interposedTarget heq
        rw [interposedTarget_router, interposedTarget_router] at htar
        exact hne (Option.some.inj htar)

/-- A planner with parents is behind one router. -/
theorem planner (hver : vertex ∈ workflow.vertices) (hkind : vertex.kind.vertexKind = .planner)
    (hpar : vertex.parents ≠ []) :
    ∃ router ∈ workflow.vertices, vertex.parents = [router.id] ∧
      router.kind.vertexKind = .router := by
  obtain ⟨_, hsub, hmem⟩ := h.mem_vertices.mp hver
  unfold normalizedVertices at hmem
  split at hmem
  · rename_i hint
    rcases List.mem_cons.mp hmem with rfl | hmem
    · cases hkind
    obtain rfl := List.mem_singleton.mp hmem
    exact ⟨_, (h.mem_interposed hsub hint).1, rfl, rfl⟩
  · rename_i hkept
    obtain rfl := List.mem_singleton.mp hmem
    rw [interposes, hkind, beq_self_eq_true, Bool.true_and] at hkept
    unfold needsInterposedRouter at hkept
    split at hkept
    · exact absurd ‹_› hpar
    · rename_i parent heq
      rw [Bool.not_eq_true, Option.all_eq_false] at hkept
      obtain ⟨router, hrouter, hnot⟩ := hkept
      obtain ⟨hmem, rfl⟩ := mem_of_verticesById hrouter
      have hrout : router.kind.vertexKind = .router := by simpa using hnot
      exact ⟨router, h.mem_kept hmem (by rw [interposes, hrout]; rfl), heq, hrout⟩
    · exact absurd rfl hkept

/-- An edge of the submission is an edge of the workflow, or goes through a router. -/
theorem ancestor_of_parent (hedge : ParentOf submission.vertices parent child) :
    AncestorOf workflow.vertices parent child := by
  obtain ⟨vertex, hver, rfl, hpar⟩ := hedge
  cases hint : interposes (verticesById submission.vertices) vertex with
  | false => exact .single ⟨vertex, h.mem_kept hver hint, rfl, hpar⟩
  | true =>
    obtain ⟨hrout, hplan⟩ := h.mem_interposed hver hint
    exact .tail (.single ⟨_, hrout, rfl, hpar⟩) ⟨_, hplan, rfl, List.mem_singleton_self _⟩

/-- The submitted vertex an id of the workflow stands for: a router stands for its planner. -/
def standsFor (submission : WorkflowSubmission) (id : String) : String :=
  if (verticesById submission.vertices).has id then id else (interposedTarget id).getD id

omit h in
theorem standsFor_submitted (hid : (verticesById submission.vertices).has parent = true) :
    standsFor submission parent = parent :=
  if_pos hid

/-- An edge of the workflow is one of the submission, between the vertices its ends stand for, or
leads from a router to its planner. -/
theorem parent_of_parent (hedge : ParentOf workflow.vertices parent child) :
    ParentOf submission.vertices parent (standsFor submission child) ∧
        (verticesById submission.vertices).has parent = true ∨
      standsFor submission parent = standsFor submission child ∧
        (verticesById submission.vertices).has parent = false := by
  obtain ⟨vertex, hver, rfl, hpar⟩ := hedge
  obtain ⟨submitted, hsub, hmem⟩ := h.mem_vertices.mp hver
  have hstan := standsFor_submitted (has_verticesById hsub)
  unfold normalizedVertices at hmem
  split at hmem
  · rename_i hint
    have hrout : standsFor submission (interposedRouter submitted).id = submitted.id := by
      rw [standsFor, h.fresh submitted hsub hint, interposedTarget_router]
      rfl
    rcases List.mem_cons.mp hmem with rfl | hmem
    · rw [hrout]
      exact .inl ⟨⟨submitted, hsub, rfl, hpar⟩, h.known submitted hsub parent hpar⟩
    · obtain rfl := List.mem_singleton.mp hmem
      obtain rfl := List.mem_singleton.mp hpar
      exact .inr ⟨hrout.trans hstan.symm, h.fresh submitted hsub hint⟩
  · obtain rfl := List.mem_singleton.mp hmem
    rw [hstan]
    exact .inl ⟨⟨vertex, hsub, rfl, hpar⟩, h.known vertex hsub parent hpar⟩

/-- A path of the workflow, between the vertices its ends stand for. -/
theorem standsFor_path (hpath : Relation.ReflTransGen (ParentOf workflow.vertices) parent child) :
    Relation.ReflTransGen (ParentOf submission.vertices) (standsFor submission parent)
      (standsFor submission child) := by
  induction hpath with
  | refl => exact .refl
  | tail _ hedge ih =>
    rcases h.parent_of_parent hedge with ⟨hedge, hhas⟩ | ⟨heq, -⟩
    · rw [standsFor_submitted hhas] at ih
      exact ih.tail hedge
    · exact heq ▸ ih

/-- **Ancestors are kept**, between submitted vertices. -/
theorem ancestor_iff (hpar : (verticesById submission.vertices).has parent = true)
    (hchild : (verticesById submission.vertices).has child = true) :
    AncestorOf submission.vertices parent child ↔ AncestorOf workflow.vertices parent child := by
  constructor
  · intro hpath
    induction hpath with
    | single hedge => exact h.ancestor_of_parent hedge
    | tail _ hedge ih =>
      obtain ⟨vertex, hver, rfl, hmem⟩ := hedge
      exact .trans (ih (h.known vertex hver _ hmem))
        (h.ancestor_of_parent ⟨vertex, hver, rfl, hmem⟩)
  · intro hpath
    -- the first edge leaves a submitted vertex, and no later one undoes it
    obtain ⟨_, hfir, hrest⟩ := Relation.TransGen.head'_iff.mp hpath
    have hlif := h.standsFor_path hrest
    rw [standsFor_submitted hchild] at hlif
    rcases h.parent_of_parent hfir with ⟨hedge, -⟩ | ⟨-, hnot⟩
    · exact .head' hedge hlif
    · rw [hpar] at hnot
      cases hnot

/-- A rank of the normal form is one of the submission. -/
theorem acyclic (hacy : Acyclic workflow.vertices) : Acyclic submission.vertices := by
  obtain ⟨rank, hrank⟩ := hacy
  refine ⟨rank, fun vertex hver parent hpar => ?_⟩
  cases hint : interposes (verticesById submission.vertices) vertex with
  | false => exact hrank vertex (h.mem_kept hver hint) parent hpar
  | true =>
    obtain ⟨hrout, hplan⟩ := h.mem_interposed hver hint
    calc rank parent < rank (interposedRouter vertex).id := hrank _ hrout parent hpar
      _ < rank vertex.id := hrank _ hplan _ (List.mem_singleton_self _)

variable (hids : (submission.vertices.map (·.id)).Nodup)

include hids

/-- Nothing is interposed in a normal form. -/
theorem not_interposes (hver : vertex ∈ workflow.vertices) :
    interposes (verticesById workflow.vertices) vertex = false := by
  rw [interposes, Bool.and_eq_false_iff]
  by_cases hkind : vertex.kind.vertexKind = .planner
  · right
    cases hpar : vertex.parents with
    | nil => rfl
    | cons =>
      obtain ⟨_, hrouter, heq, hrout⟩ := h.planner hver hkind (by simp [hpar])
      rw [← hpar, heq]
      simp [needsInterposedRouter, get?_verticesById (h.nodup hids) hrouter, hrout]
  · exact .inl (beq_eq_false_iff_ne.mpr hkind)

/-- A normal form is its own. -/
theorem again : NormalForm workflow workflow [] := by
  have hkept : ∀ vertex ∈ workflow.vertices,
      normalizedVertices (verticesById workflow.vertices) vertex = [vertex] := by
    intro vertex hver
    rw [normalizedVertices, h.not_interposes hids hver]
    rfl
  refine ⟨fun vertex hver parent hpar =>
    parent_normalized (normalizeWorkflow_iff.mpr h) hver hpar,
    fun vertex hver hint => ?_, ?_, ?_⟩
  · rw [h.not_interposes hids hver] at hint
    cases hint
  · rw [List.flatMap_congr hkept, List.flatMap_singleton']
  · rw [List.filter_eq_nil_iff.mpr fun vertex hver => by simp [h.not_interposes hids hver]]
    rfl

/-- R14 has nothing to report on a normal form. -/
theorem ruleR14_eq_nil {registry : ToolRegistry} {context : GraphContext}
    (hbuilt : buildContext (lowerToProposal workflow) registry = ok context) :
    ruleR14 context = [] := by
  have hver := proposal_vertices (buildContext_ok hbuilt).vertices
  rw [ruleR14, List.flatMap_eq_nil_iff]
  rintro ⟨_, _⟩ hent
  dsimp only
  split
  · rename_i hkind
    have hget := OrderedMap.get?_eq_some_iff.mpr hent
    rw [hver, Option.map_eq_some_iff] at hget
    obtain ⟨vertex, hvert, rfl⟩ := hget
    rw [List.flatMap_eq_nil_iff]
    intro parentId hparen
    have hmem := (mem_of_verticesById hvert).1
    obtain ⟨_, hrouter, heq, hrout⟩ := h.planner hmem hkind (List.ne_nil_of_mem hparen)
    have hpar : parentId ∈ vertex.parents := hparen
    rw [heq] at hpar
    obtain rfl := List.mem_singleton.mp hpar
    simp [hver, get?_verticesById (h.nodup hids) hrouter, lowerVertex, hrout, violationIf]
  · rfl

end

end NormalForm

/-- **Normalization is a canonical form.** -/
theorem normalization_canonical (hids : (submission.vertices.map (·.id)).Nodup)
    (hnormal : normalizeWorkflow submission = ok (workflow, interposed)) :
    CanonicalForm submission workflow interposed := by
  have h := normalizeWorkflow_iff.mp hnormal
  refine
    { planner := fun vertex => h.planner
      kept := fun vertex hver => ?_
      added := fun vertex hver hkind => ?_
      ancestors := fun u hu v hv => h.ancestor_iff (has_verticesById hu) (has_verticesById hv)
      acyclic := ⟨h.acyclic, acyclic_of_normalizeWorkflow hnormal⟩
      admitted := fun _ _ => h.ruleR14_eq_nil hids
      again := normalizeWorkflow_iff.mpr (h.again hids) }
  · cases hint : interposes (verticesById submission.vertices) vertex with
    | false => exact ⟨vertex, h.mem_kept hver hint, rfl, fun _ => rfl⟩
    | true =>
      refine ⟨_, (h.mem_interposed hver hint).2, rfl, fun hkind => absurd ?_ hkind⟩
      exact beq_iff_eq.mp (Bool.and_eq_true_iff.mp hint).1
  · cases normalized_of_normalizeWorkflow hnormal hver with
    | kept hmem => exact ⟨vertex, hmem, rfl⟩
    | router _ _ _ heq =>
      rw [heq] at hkind
      exact absurd rfl hkind
    | planner hmem _ _ heq => exact ⟨_, hmem, by rw [heq]⟩

/-- A call whose outcome a planner continues from. -/
def continuedCall : WorkflowSubmission where
  vertices :=
    [{ id := "call", kind := .tool "ledger.read" (.obj []) none false },
     { id := "next", parents := ["call"], kind := .planner }]

/-- The planner is put behind a router. -/
theorem normalization_canonical_continuedCall :
    ∃ workflow, normalizeWorkflow continuedCall = ok (workflow, ["next#router"]) ∧
      CanonicalForm continuedCall workflow ["next#router"] := by
  have hnor : normalizeWorkflow continuedCall = ok ({ continuedCall with
      vertices := continuedCall.vertices.flatMap
        (normalizedVertices (verticesById continuedCall.vertices)) }, ["next#router"]) := by
    rfl
  exact ⟨_, hnor, normalization_canonical (by decide) hnor⟩

end Flory
