import Flory.Frozen

/-!
# The Causal Order

The parents of a vertex are created before it, in the same run, and never change. So the
causal order of a run, which its `vertex/created` events give, has no cycle, and what was
before a vertex when it was created is all that will ever be before it.

## Main results

* `causal_of_reachable`: parents come first, in every reachable world.
* `before_step`: a step does not change what is before a created vertex.
* `rank_lt_of_edge`: the position in the log is a rank of the causal order.
-/

namespace Flory

variable {runId : RunId} {u p : VertexId} {cfg : Config} {world : World}

/-! ### Parents -/

/-- The causal order of a run: a path of parent edges leads from one vertex to the other. -/
def Db.Before (db : Db) (runId : RunId) : VertexId → VertexId → Prop :=
  Dag.Below (parentEdge db runId)

variable {db : Db}

/-- The events that create a vertex of a run. -/
theorem mem_createdOf {e : Event} :
    e ∈ db.createdOf runId u ↔ e ∈ db.log ∧ ∃ v, e.created? = some v ∧ v.vertexId = u ∧
      v.runId = runId := by
  simp only [Db.createdOf, List.mem_filter, Bool.and_eq_true, beq_iff_eq]
  constructor
  · rintro ⟨he, ⟨hbody, hrun⟩, hu⟩
    refine ⟨he, ?_⟩
    cases hb : e.body with
    | vertexCreated payload =>
      exact ⟨⟨u, e.runId, e.scopeId, e.parentRefs, payload⟩,
        created?_eq_some_iff.mpr ⟨hb, hu, rfl, rfl, rfl⟩, rfl, hrun⟩
    | _ =>
      rw [hb] at hbody
      cases hbody
  · rintro ⟨he, v, hv, rfl, rfl⟩
    obtain ⟨hbody, hu, hrun, -, -⟩ := created?_eq_some_iff.mp hv
    exact ⟨he, ⟨by rw [hbody]; rfl, hrun⟩, hu⟩

/-- A parent edge is one of a created vertex. -/
theorem parentEdge_iff {c : VertexId} :
    parentEdge db runId p c = true ↔
      ∃ v ∈ db.vertices, v.vertexId = c ∧ v.runId = runId ∧ p ∈ v.parentRefs := by
  simp only [parentEdge, List.any_eq_true, List.contains_iff_mem, mem_createdOf]
  constructor
  · rintro ⟨e, ⟨he, v, hv, hid, hrun⟩, hp⟩
    rw [(created?_eq_some_iff.mp hv).2.2.2.2] at hp
    exact ⟨v, mem_vertices.mpr ⟨e, he, hv⟩, hid, hrun, hp⟩
  rintro ⟨v, hmem, hid, hrun, hp⟩
  obtain ⟨e, he, hv⟩ := mem_vertices.mp hmem
  rw [← (created?_eq_some_iff.mp hv).2.2.2.2] at hp
  exact ⟨e, ⟨he, v, hv, hid, hrun⟩, hp⟩

/-- **The parents of created vertices**: created in the same run, and earlier. -/
structure Causal (world : World) : Prop where
  parents : ∀ v ∈ world.db.vertices, ∀ p ∈ v.parentRefs,
    ∃ u ∈ world.db.vertices, u.vertexId = p ∧ u.runId = v.runId
  order : world.db.vertices.Pairwise fun u v => v.vertexId ∉ u.parentRefs
  irrefl : ∀ v ∈ world.db.vertices, v.vertexId ∉ v.parentRefs

/-! ### A freeze keeps parents first -/

/-- A parent the database knows is a created vertex. -/
theorem created_of_nonempty (h : (db.createdOf runId p).isEmpty = false) :
    ∃ u ∈ db.vertices, u.vertexId = p ∧ u.runId = runId := by
  obtain ⟨e, he⟩ := List.exists_mem_of_ne_nil _ (by simpa using h)
  obtain ⟨hlog, u, hu, hid, hrun⟩ := mem_createdOf.mp he
  exact ⟨u, mem_vertices.mpr ⟨e, hlog, hu⟩, hid, hrun⟩

/-- The parents of a freeze: listed before, frozen with it, or created. -/
theorem parents_of_parentsKnown {earlier : List VertexId} {frozen : List FrozenVertex}
    (h : parentsKnown db runId earlier frozen = true) {fv : FrozenVertex} (hfv : fv ∈ frozen)
    (hp : p ∈ fv.parentRefs) :
    p ∈ earlier ∨ (∃ fu ∈ frozen, fu.vertexId = p) ∨
      ∃ u ∈ db.vertices, u.vertexId = p ∧ u.runId = runId := by
  induction frozen generalizing earlier with
  | nil => cases hfv
  | cons v rest ih =>
    simp only [parentsKnown, Bool.and_eq_true, List.all_eq_true, Bool.or_eq_true,
      List.contains_iff_mem, Bool.not_eq_true'] at h
    rcases List.mem_cons.mp hfv with rfl | hrest
    · exact (h.1 p hp).imp_right fun hcreat => .inr (created_of_nonempty hcreat)
    rcases ih h.2 hrest with hear | ⟨fu, hfu, hid⟩ | hcreat
    · rcases List.mem_cons.mp hear with rfl | hear
      · exact .inr (.inl ⟨v, List.mem_cons_self, rfl⟩)
      · exact .inl hear
    · exact .inr (.inl ⟨fu, List.mem_cons_of_mem _ hfu, hid⟩)
    · exact .inr (.inr hcreat)

/-- In a freeze no vertex is a parent of itself or of one frozen before it. -/
theorem order_of_parentsKnown {earlier : List VertexId} {frozen : List FrozenVertex}
    (h : parentsKnown db runId earlier frozen = true)
    (hnod : (frozen.map FrozenVertex.vertexId).Nodup)
    (hear : ∀ fv ∈ frozen, fv.vertexId ∉ earlier)
    (hfresh : ∀ fv ∈ frozen, vertexKnown db fv.vertexId = false) :
    (frozen.Pairwise fun u v => v.vertexId ∉ u.parentRefs) ∧
      ∀ v ∈ frozen, v.vertexId ∉ v.parentRefs := by
  induction frozen generalizing earlier with
  | nil => exact ⟨.nil, by simp⟩
  | cons v rest ih =>
    simp only [parentsKnown, Bool.and_eq_true, List.all_eq_true, Bool.or_eq_true,
      List.contains_iff_mem, Bool.not_eq_true'] at h
    obtain ⟨hnot, hnod⟩ := List.nodup_cons.mp hnod
    -- a vertex of this freeze is neither listed before nor created
    have hnew : ∀ x ∈ v :: rest, x.vertexId ∉ v.parentRefs := by
      intro x hx hp
      rcases h.1 _ hp with hmem | hcreat
      · exact hear x hx hmem
      obtain ⟨u, hu, hid, -⟩ := created_of_nonempty hcreat
      have hknown := vertexKnown_of_mem hu
      rw [hid, hfresh x hx] at hknown
      cases hknown
    obtain ⟨hord, hirr⟩ := ih h.2 hnod (fun fv hfv hmem => by
        rcases List.mem_cons.mp hmem with hid | hmem
        · exact hnot (List.mem_map.mpr ⟨fv, hfv, hid⟩)
        · exact hear fv (List.mem_cons_of_mem _ hfv) hmem)
      fun fv hfv => hfresh fv (List.mem_cons_of_mem _ hfv)
    exact ⟨List.pairwise_cons.mpr ⟨fun x hx => hnew x (List.mem_cons_of_mem _ hx), hord⟩,
      List.forall_mem_cons.mpr ⟨hnew v List.mem_cons_self, hirr⟩⟩

/-- **Parents first** is kept by every step. -/
theorem Causal.step {world' : World} {a : Action} (hcaus : Causal world)
    (hstep : step cfg world a = some world') : Causal world' := by
  rcases vertices_step hstep with hsame | ⟨runId, frozen, hfreez, hnew⟩
  · exact ⟨by rw [hsame]; exact hcaus.parents, by rw [hsame]; exact hcaus.order,
      by rw [hsame]; exact hcaus.irrefl⟩
  have hknown : parentsKnown world.db runId [] frozen = true := by
    simp only [freezable, Bool.and_eq_true] at hfreez
    exact hfreez.2
  obtain ⟨hord, hirr⟩ := order_of_parentsKnown hknown (freezable_nodup hfreez) (by simp)
    fun fv hfv => (freezable_mem hfreez hfv).1
  refine ⟨fun v hv p hp => ?_, ?_, fun v hv => ?_⟩
  · rw [hnew] at hv ⊢
    rcases List.mem_append.mp hv with hv | hv
    · obtain ⟨u, hu, hid⟩ := hcaus.parents v hv p hp
      exact ⟨u, List.mem_append_left _ hu, hid⟩
    obtain ⟨fv, hfv, rfl⟩ := List.mem_map.mp hv
    rcases parents_of_parentsKnown hknown hfv hp with hnil | ⟨fu, hfu, hid⟩ | ⟨u, hu, hid⟩
    · cases hnil
    · exact ⟨_, List.mem_append_right _ (List.mem_map_of_mem hfu), hid, rfl⟩
    · exact ⟨u, List.mem_append_left _ hu, hid⟩
  · rw [hnew, List.pairwise_append]
    refine ⟨hcaus.order, List.pairwise_map.mpr hord, fun u hu v hv hp => ?_⟩
    obtain ⟨fv, hfv, rfl⟩ := List.mem_map.mp hv
    obtain ⟨u', hu', hid, -⟩ := hcaus.parents u hu _ hp
    have hunk := (freezable_mem hfreez hfv).1
    change u'.vertexId = fv.vertexId at hid
    rw [← hid, vertexKnown_of_mem hu'] at hunk
    cases hunk
  · rw [hnew] at hv
    rcases List.mem_append.mp hv with hv | hv
    · exact hcaus.irrefl v hv
    · obtain ⟨fv, hfv, rfl⟩ := List.mem_map.mp hv
      exact hirr fv hfv

/-- **Parents come first, in every reachable world.** -/
theorem causal_of_reachable (h : Reachable cfg world) : Causal world :=
  h.invariant ⟨by simp [World.initial, Db.vertices], by simp [World.initial, Db.vertices],
    by simp [World.initial, Db.vertices]⟩ fun _ _ _ hcaus _ hstep => hcaus.step hstep

/-! ### The order and its rank -/

/-- The position in the log is a rank of the causal order. -/
theorem rank_lt_of_edge (hcaus : Causal world) (hfroz : Frozen world) {v : VertexId}
    (hedge : parentEdge world.db runId u v = true) :
    (world.db.vertices.map CreatedVertex.vertexId).idxOf u <
      (world.db.vertices.map CreatedVertex.vertexId).idxOf v := by
  obtain ⟨c, hc, rfl, _, hp⟩ := parentEdge_iff.mp hedge
  obtain ⟨p, hpmem, rfl, -⟩ := hcaus.parents c hc u hp
  have hfor : (world.db.vertices.map CreatedVertex.vertexId).Pairwise
      fun x y => parentEdge world.db runId y x = false := by
    refine List.pairwise_map.mpr (hcaus.order.imp_of_mem fun {x y} hx hy hnot => ?_)
    by_contra hback
    obtain ⟨x', hx', hid, -, hp'⟩ := parentEdge_iff.mp (by simpa using hback)
    obtain rfl := hfroz.eq_of_vertexId hx' hx hid
    exact hnot hp'
  exact Dag.idxOf_lt_of_edge hfor (List.mem_map_of_mem hpmem) (List.mem_map_of_mem hc)
    (fun heq => hcaus.irrefl c hc (heq ▸ hp)) hedge

/-- **A step does not change what is before a created vertex.** -/
theorem before_step {world' : World} {a : Action} (h : Reachable cfg world)
    (hstep : step cfg world a = some world') {v : CreatedVertex} (hv : v ∈ world.db.vertices)
    (hbef : world'.db.Before v.runId u v.vertexId) : world.db.Before v.runId u v.vertexId := by
  have hfroz' := frozen_of_reachable (h.tail trivial hstep : Reachable cfg world')
  -- an edge to a created vertex was there before the step
  have hedge : ∀ {c : CreatedVertex} {p : VertexId}, c ∈ world.db.vertices →
      parentEdge world'.db c.runId p c.vertexId = true → p ∈ c.parentRefs := by
    intro c p hc hedge
    obtain ⟨c', hc', hid, -, hp⟩ := parentEdge_iff.mp hedge
    obtain rfl := hfroz'.eq_of_vertexId hc' (vertices_mono hstep hc) hid
    exact hp
  generalize hrun : v.runId = runId at hbef ⊢
  generalize hid : v.vertexId = target at hbef ⊢
  induction hbef generalizing v with
  | single hlast =>
    subst hrun hid
    exact .single (parentEdge_iff.mpr ⟨v, hv, rfl, rfl, hedge hv hlast⟩)
  | tail _ hlast ih =>
    subst hrun hid
    have hp := hedge hv hlast
    obtain ⟨p, hpmem, hpid, hprun⟩ := (causal_of_reachable h).parents v hv _ hp
    exact .tail (ih hpmem hprun hpid) (parentEdge_iff.mpr ⟨v, hv, rfl, rfl, hp⟩)

end Flory
