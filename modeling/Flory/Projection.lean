import Flory.Discards
import Flory.Fallible
import Mathlib.Data.Finset.Sort

/-!
# The Context of a Planner

`surface` folds the events of a run into its active vertices, `slice` takes a planner with its
active ancestors from them, and `linearize` makes the items of the planner's prompt of the slice.
A row of the surface is made by the events of its own vertex alone, a discard is a set, and the
items are sorted. A prompt therefore depends on the events of each vertex in their order, and not
on how the events of different vertices interleave.

## Main results

* `Surface.mem_ancestors`: a slice is of the planner and its active ancestors.
* `lookup_foldl`: a row of the surface, from the events of its vertex.
* `context_of_reordering`: a prompt does not depend on scheduling.
-/

namespace Flory

open Except (error ok)

/-- A stored event with the payload fields that only the projection reads: the condition a router
matched, `some none` when it fell through, and the creations that a discard names by number. -/
structure ProjectedEvent extends Event where
  matchedCondition : Option (Option String) := none
  vertexSeqs : List ℕ := []

/-- The `role` of a vertex. -/
inductive VertexRole
  | planner
  | router
  | barrier
  | tool
  deriving DecidableEq, Repr

/-- The role and the tool that a `vertex/created` states. -/
def VertexPayload.roleAndTool : VertexPayload → VertexRole × Option String
  | .planner => (.planner, none)
  | .router => (.router, none)
  | .barrier => (.barrier, none)
  | .tool payload => (.tool, some payload.tool)

/-- The `status` of a vertex: its last lifecycle event. -/
inductive VertexStatus
  | started
  | succeeded
  | failed
  | retried
  deriving DecidableEq, Repr

/-- A vertex represented in a run's active surface. -/
structure SurfaceVertex where
  vertexId : VertexId
  parentRefs : List VertexId
  role : VertexRole
  tool : Option String
  result : Option Json := none
  status : Option VertexStatus := none
  matchedCondition : Option (Option String) := none

/-- The active vertex view for one run at a stream-sequence boundary. The `created_seq` of a
vertex, which only discards by number read, stands beside its row. -/
structure Surface where
  vertices : Table VertexId SurfaceVertex := ∅
  createdSeq : Table VertexId ℕ := ∅
  shadowed : List VertexId := []

/-- The vertex that a `vertex/created` creates. -/
def SurfaceVertex.create (e : Event) (v : VertexId) (payload : VertexPayload) : SurfaceVertex where
  vertexId := v
  parentRefs := e.parentRefs
  role := payload.roleAndTool.1
  tool := payload.roleAndTool.2

/-- A vertex after an event of its own. -/
def SurfaceVertex.note (vertex : SurfaceVertex) (e : ProjectedEvent) : SurfaceVertex :=
  match e.body with
  | .vertexStarted _ => { vertex with status := some .started }
  | .vertexRetried _ _ => { vertex with status := some .retried }
  | .vertexFailed _ => { vertex with status := some .failed }
  | .vertexSucceeded payload =>
    { vertex with
      status := some .succeeded
      result := some payload.result
      matchedCondition := e.matchedCondition.or vertex.matchedCondition }
  | _ => vertex

/-- The body of the loop of `surface`. -/
def Surface.apply (view : Surface) (e : ProjectedEvent) : Surface :=
  match e.body, e.vertexId with
  | .vertexCreated payload, some v =>
    { view with
      vertices := AList.insert v (.create e.toEvent v payload) view.vertices
      createdSeq := AList.insert v e.runSeq view.createdSeq }
  | .subgraphShadowed vertexIds, _ =>
    { view with
      shadowed := view.shadowed ++ vertexIds ++ e.vertexSeqs.flatMap fun seq =>
        (view.createdSeq.rowsWhere fun _ created => created == seq).map Prod.fst }
  | _, some v =>
    { view with
      vertices := view.vertices.mapRows fun u vertex => if u = v then vertex.note e else vertex }
  | _, none => view

/-- `surface`: a run's active vertices. Without a boundary, every event is included. -/
def surface (events : List ProjectedEvent) (atRunSeq : Option ℕ := none) :
    Except String Surface := do
  assertReadable (events.map (·.toEvent))
  let included := events.filter fun e => atRunSeq.all (e.runSeq ≤ ·)
  let view := included.foldl Surface.apply {}
  ok { view with vertices := view.vertices.filterRows fun v _ => decide (v ∉ view.shadowed) }

/-- The parents of an active vertex. -/
def Surface.parents (view : Surface) (id : VertexId) : Option (List VertexId) :=
  (view.vertices.lookup id).map SurfaceVertex.parentRefs

/-- The vertices that `slice` includes. -/
def Surface.ancestors (view : Surface) (plannerVertexId : VertexId) : Finset VertexId :=
  Worklist.visit view.parents (view.vertices.keys.toFinset.card + 1) ∅ plannerVertexId

/-- `slice`: the active planner vertex and all of its active ancestors, by identifier. -/
def slice (view : Surface) (plannerVertexId : VertexId) : Except String (List SurfaceVertex) :=
  if (view.vertices.lookup plannerVertexId).isSome then
    ok (((view.ancestors plannerVertexId).sort (· ≤ ·)).filterMap fun id => view.vertices.lookup id)
  else error s!"planner {plannerVertexId} is not active"

/-- Whether `linearize` renders a vertex into a downstream planner's prompt. -/
def rendersInPlannerPrompt (vertex : SurfaceVertex) : Bool :=
  vertex.role != .router || vertex.matchedCondition.join.isSome

/-- A planner-context item derived from an active surface vertex. -/
structure ContextItem where
  vertexId : VertexId
  role : VertexRole
  tool : Option String
  result : Option Json
  status : Option VertexStatus
  condition : Option String

/-- `linearize`: the items of the vertices that a prompt renders, by identifier. -/
def linearize (vertices : List SurfaceVertex) : List ContextItem :=
  ((vertices.filter rendersInPlannerPrompt).insertionSort fun a b => a.vertexId ≤ b.vertexId).map
    fun v => ⟨v.vertexId, v.role, v.tool, v.result, v.status, v.matchedCondition.join⟩

/-! ### The rows of a surface -/

section Rows

variable {events log log' : List ProjectedEvent} {view view' : Surface} {v planner : VertexId}

/-- **A slice is of the planner and its active ancestors.** -/
theorem Surface.mem_ancestors : v ∈ view.ancestors planner ↔
    (view.parents v).isSome ∧ Worklist.Behind view.parents planner v := by
  refine Worklist.mem_visit (fun x hx => ?_) (Nat.lt_succ_self _)
  rw [List.mem_toFinset, ← AList.mem_keys, ← AList.lookup_isSome]
  simpa [parents] using hx

/-- A row after an event of its vertex. -/
def rowAfter (v : VertexId) (row : Option SurfaceVertex) (e : ProjectedEvent) :
    Option SurfaceVertex :=
  match e.body with
  | .vertexCreated payload => some (.create e.toEvent v payload)
  | _ => row.map (·.note e)

theorem lookup_apply (e : ProjectedEvent) :
    (view.apply e).vertices.lookup v = if e.vertexId = some v then
      rowAfter v (view.vertices.lookup v) e else view.vertices.lookup v := by
  obtain ⟨⟨⟨body, vertexId, _⟩, _⟩, _⟩ := e
  cases vertexId with
  | none => cases body <;> rfl
  | some u =>
    by_cases heq : u = v
    · subst heq
      cases body <;> simp [Surface.apply, rowAfter, SurfaceVertex.note]
    · have hne : v ≠ u := Ne.symm heq
      cases body <;> simp [Surface.apply, heq, hne]

/-- **A row of the surface, from the events of its vertex.** -/
theorem lookup_foldl : (events.foldl Surface.apply view).vertices.lookup v =
    (events.filter fun e => e.vertexId = some v).foldl (rowAfter v) (view.vertices.lookup v) := by
  induction events generalizing view with
  | nil => rfl
  | cons e rest ih =>
    rw [List.foldl_cons, ih, lookup_apply, List.filter_cons]
    split <;> simp_all

/-- What a fold shadows, when no discard names creations by number. -/
theorem mem_shadowed_foldl (hseqs : ∀ e ∈ events, e.vertexSeqs = []) :
    v ∈ (events.foldl Surface.apply view).shadowed ↔
      v ∈ view.shadowed ∨ ∃ e ∈ events, v ∈ e.body.discards := by
  induction events generalizing view with
  | nil => simp
  | cons e rest ih =>
    obtain ⟨_, hseqs⟩ := List.forall_mem_cons.mp hseqs
    have happ : (view.apply e).shadowed = view.shadowed ++ e.body.discards := by
      unfold Surface.apply
      split <;> simp_all [EventBody.discards]
    rw [List.foldl_cons, ih hseqs, happ]
    simp [or_assoc]

/-! ### Reorderings -/

/-- An event without its place in the log. -/
def ProjectedEvent.unnumbered (e : ProjectedEvent) : ProjectedEvent :=
  { e with runSeq := 0 }

/-- **A log in another order**, renumbered, in which the events of each vertex keep theirs. That
a creation stays before its children's and before its discard is not asked for. -/
structure Reordering (log log' : List ProjectedEvent) : Prop where
  perm : (log.map (·.unnumbered)).Perm (log'.map (·.unnumbered))
  order : ∀ v, (log.filter fun e => e.vertexId = some v).map (·.unnumbered) =
    (log'.filter fun e => e.vertexId = some v).map (·.unnumbered)

theorem Reordering.symm (h : Reordering log log') : Reordering log' log :=
  ⟨h.perm.symm, fun v => (h.order v).symm⟩

theorem Reordering.exists_mem (h : Reordering log log') {e : ProjectedEvent} (he : e ∈ log) :
    ∃ e' ∈ log', e'.unnumbered = e.unnumbered :=
  List.mem_map.mp (h.perm.mem_iff.mp (List.mem_map_of_mem he))

/-- A reordering of a readable log is readable. -/
theorem Reordering.readable (h : Reordering log log')
    (hread : assertReadable (log.map (·.toEvent)) = ok ()) :
    assertReadable (log'.map (·.toEvent)) = ok () := by
  unfold assertReadable at hread ⊢
  split at hread
  · cases hread
  rename_i hnone
  rw [List.find?_eq_none.mpr]
  intro e' he'
  obtain ⟨e', hmem, rfl⟩ := List.mem_map.mp he'
  obtain ⟨e, he, heq⟩ := h.symm.exists_mem hmem
  have hdraft : e.toEventDraft = e'.toEventDraft :=
    (congrArg (fun e : ProjectedEvent => e.toEventDraft) heq :)
  have hknown := List.find?_eq_none.mp hnone _ (List.mem_map_of_mem he)
  simp only [hdraft] at hknown
  exact hknown

/-- The surfaces of a log and of its reordering have the same rows. -/
theorem Reordering.surface (h : Reordering log log') (hseqs : ∀ e ∈ log, e.vertexSeqs = [])
    (hview : surface log = ok view) :
    ∃ view', Flory.surface log' = ok view' ∧
      ∀ v, view.vertices.lookup v = view'.vertices.lookup v := by
  have hseqs' : ∀ e ∈ log', e.vertexSeqs = [] := by
    intro e' he'
    obtain ⟨e, he, heq⟩ := h.symm.exists_mem he'
    exact (congrArg ProjectedEvent.vertexSeqs heq).symm.trans (hseqs e he)
  obtain ⟨⟨⟩, hread, hfold⟩ := Fallible.bind_eq_ok.mp hview
  obtain rfl := Except.ok.inj hfold
  refine ⟨_, by rw [Flory.surface, h.readable hread]; rfl, fun v => ?_⟩
  have hshad : v ∈ (log.foldl Surface.apply {}).shadowed ↔
      v ∈ (log'.foldl Surface.apply {}).shadowed := by
    rw [mem_shadowed_foldl hseqs, mem_shadowed_foldl hseqs']
    have hperm := (h.perm.flatMap_right fun e => e.body.discards).mem_iff (a := v)
    simpa [ProjectedEvent.unnumbered] using hperm
  have hrow : (log.foldl Surface.apply {}).vertices.lookup v =
      (log'.foldl Surface.apply {}).vertices.lookup v := by
    have hord := congrArg (List.foldl (rowAfter v) none) (h.order v)
    rw [List.foldl_map, List.foldl_map] at hord
    rw [lookup_foldl, lookup_foldl]
    exact hord
  simp [hrow, hshad]

/-- Surfaces with the same rows have the same slices. -/
theorem slice_congr (hrows : ∀ v, view.vertices.lookup v = view'.vertices.lookup v)
    (planner : VertexId) : slice view planner = slice view' planner := by
  have hpar : view.parents = view'.parents := by
    funext v
    simp only [Surface.parents, hrows]
  have hkeys : view.vertices.keys.toFinset = view'.vertices.keys.toFinset := by
    ext v
    rw [List.mem_toFinset, List.mem_toFinset, ← AList.mem_keys, ← AList.mem_keys,
      ← AList.lookup_isSome, ← AList.lookup_isSome, hrows]
  simp only [slice, Surface.ancestors, hrows, hpar, hkeys]

/-- **A prompt does not depend on scheduling**: for an active planner, a log and its reorderings
give the same items. Discards by number are left out. -/
theorem context_of_reordering (h : Reordering log log') (hseqs : ∀ e ∈ log, e.vertexSeqs = [])
    (hview : surface log = ok view) (hactive : (view.vertices.lookup planner).isSome) :
    ∃ view' vertices, surface log' = ok view' ∧ slice view planner = ok vertices ∧
      linearize <$> slice view' planner = ok (linearize vertices) := by
  obtain ⟨view', hview', hrows⟩ := h.surface hseqs hview
  have hslice := slice_congr hrows planner
  refine ⟨view', _, hview', if_pos hactive, ?_⟩
  rw [← hslice, slice, if_pos hactive]
  rfl

/-- The creation of a planner. -/
def plannerCreation (v : VertexId) (parentRefs : List VertexId) (runSeq : ℕ) : ProjectedEvent where
  body := .vertexCreated .planner
  vertexId := some v
  parentRefs := parentRefs
  runId := 1
  runSeq := runSeq

theorem context_of_swapped_parents :
    ∃ view view' vertices,
      surface [plannerCreation 1 [] 1, plannerCreation 2 [] 2, plannerCreation 3 [1, 2] 3] = ok view ∧
      surface [plannerCreation 2 [] 1, plannerCreation 1 [] 2, plannerCreation 3 [1, 2] 3] = ok view' ∧
      slice view 3 = ok vertices ∧ linearize <$> slice view' 3 = ok (linearize vertices) := by
  have hreor : Reordering
      [plannerCreation 1 [] 1, plannerCreation 2 [] 2, plannerCreation 3 [1, 2] 3]
      [plannerCreation 2 [] 1, plannerCreation 1 [] 2, plannerCreation 3 [1, 2] 3] := by
    refine ⟨.swap _ _ _, fun v => ?_⟩
    by_cases hv : v = 1
    · subst hv
      rfl
    · simp [plannerCreation, List.filter_cons, Ne.symm hv, ProjectedEvent.unnumbered]
      split <;> rfl
  have hact : ∃ view, surface
      [plannerCreation 1 [] 1, plannerCreation 2 [] 2, plannerCreation 3 [1, 2] 3] = ok view ∧
      (view.vertices.lookup 3).isSome := ⟨_, rfl, rfl⟩
  obtain ⟨view, hview, hact⟩ := hact
  obtain ⟨view', vertices, h⟩ := context_of_reordering hreor (by simp [plannerCreation]) hview hact
  exact ⟨view, view', vertices, hview, h⟩

end Rows

end Flory
