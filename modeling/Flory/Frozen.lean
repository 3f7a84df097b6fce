import Flory.Points

/-!
# Frozen Vertices

A vertex is created once, by the freeze that writes its `vertex/created`, and nothing
about it changes afterwards: its run, scope, parents and payload are those of that event,
in the work queue and in the hands of every worker.

## Main results

* `frozen_of_reachable`: in every reachable world the created vertices are distinct, carry
  their companions, and a scope belongs to one run; every queue row and every item a worker
  holds is a created vertex.
* `vertices_step`: one step creates no vertex, except a freeze, whose vertices and scopes
  are new.
-/

namespace Flory

variable {cfg : Config} {runId : RunId} {world world' : World} {a : Action}

/-! ### Created vertices -/

/-- A vertex as its `vertex/created` records it. -/
structure CreatedVertex where
  vertexId : VertexId
  runId : RunId
  scopeId : Option ScopeId
  parentRefs : List VertexId
  payload : VertexPayload

/-- The vertex an event creates. -/
def Event.created? (e : Event) : Option CreatedVertex :=
  match e.body, e.vertexId with
  | .vertexCreated payload, some v => some ⟨v, e.runId, e.scopeId, e.parentRefs, payload⟩
  | _, _ => none

/-- The created vertices, in the order of the log. -/
def Db.vertices (db : Db) : List CreatedVertex :=
  db.log.filterMap Event.created?

/-- The vertex of a queue row. -/
def QueueRow.vertex (row : QueueRow) (v : VertexId) : CreatedVertex :=
  ⟨v, row.runId, row.scopeId, row.parentRefs, row.payload⟩

/-- The vertex of a work item. -/
def WorkItem.vertex (item : WorkItem) : CreatedVertex :=
  ⟨item.vertexId, item.runId, item.scopeId, item.parentRefs, item.payload⟩

/-- The vertex a freeze creates. -/
def FrozenVertex.vertex (v : FrozenVertex) (runId : RunId) : CreatedVertex :=
  ⟨v.vertexId, runId, v.scopeId, v.parentRefs, v.payload⟩

theorem created?_eq_none {e : Event} (h : e.body.isCreated = false) : e.created? = none := by
  unfold Event.created?
  cases hbody : e.body <;> simp_all [EventBody.isCreated]

variable {db db' : Db}

/-- Events that create nothing leave the vertices alone. -/
theorem vertices_append {new : List Event} (hlog : db'.log = db.log ++ new)
    (hnew : ∀ e ∈ new, e.body.isCreated = false) : db'.vertices = db.vertices := by
  have hnil : new.filterMap Event.created? = [] :=
    List.filterMap_eq_nil_iff.mpr fun e he => created?_eq_none (hnew e he)
  simp [Db.vertices, hlog, hnil]

variable {me : WorkerId}

theorem WorkerStep.vertices {pc pc' : Pc} (h : WorkerStep cfg me db pc db' pc') :
    db'.vertices = db.vertices := by
  obtain ⟨_, hlog, hnew⟩ := h.log
  exact vertices_append hlog fun e he => (hnew.origin e he).not_created

variable {frozen : List FrozenVertex}

/-- The events of frozen vertices create exactly them. -/
theorem filterMap_created {new : List Event}
    (hmap : new.map Event.toEventDraft = frozen.map FrozenVertex.draft)
    (hrun : ∀ e ∈ new, e.runId = runId) :
    new.filterMap Event.created? = frozen.map (FrozenVertex.vertex · runId) := by
  induction frozen generalizing new with
  | nil =>
    rw [List.map_nil, List.map_eq_nil_iff] at hmap
    rw [hmap]
    rfl
  | cons fv rest ih =>
    obtain ⟨e, new, rfl, hdraft, hmap⟩ := List.map_eq_cons_iff.mp hmap
    have hhead : e.created? = some (fv.vertex runId) := by
      have hrun := hrun e (by simp)
      obtain ⟨⟨_, v, _, _, _⟩, _, _, _⟩ := e
      simp only [FrozenVertex.draft, EventDraft.mk.injEq] at hdraft
      obtain ⟨rfl, rfl, rfl, rfl, rfl⟩ := hdraft
      subst hrun
      rfl
    rw [List.filterMap_cons, hhead, List.map_cons]
    exact congrArg _ (ih hmap fun e he => hrun e (by simp [he]))

/-- The vertices of a freeze. -/
theorem FreezeChange.vertices {proposedSeq : ℕ}
    (h : FreezeChange runId frozen (freezeDrafts frozen proposedSeq) db db') :
    db'.vertices = db.vertices ++ frozen.map (FrozenVertex.vertex · runId) := by
  obtain ⟨_, hlog, hmap, hnew⟩ := h.log
  obtain ⟨e, created, rfl, hdraft, hcreat⟩ := List.map_eq_cons_iff.mp hmap
  have hfir : e.created? = none := by
    have hbody : e.body = .subgraph (.frozen proposedSeq) := congrArg EventDraft.body hdraft
    exact created?_eq_none (by rw [hbody]; rfl)
  have hrest := filterMap_created hcreat fun e he => (hnew e (by simp [he])).1
  simp [Db.vertices, hlog, hfir, hrest]

variable {v : CreatedVertex}

/-- The event that creates a vertex. -/
theorem created?_eq_some_iff {e : Event} :
    e.created? = some v ↔ e.body = .vertexCreated v.payload ∧ e.vertexId = some v.vertexId ∧
      e.runId = v.runId ∧ e.scopeId = v.scopeId ∧ e.parentRefs = v.parentRefs := by
  obtain ⟨⟨body, vertexId, _, _, _⟩, _, _, _⟩ := e
  obtain ⟨v, _, _, _, _⟩ := v
  cases body <;> cases vertexId <;> simp [Event.created?]
  tauto

theorem mem_vertices : v ∈ db.vertices ↔ ∃ e ∈ db.log, e.created? = some v :=
  List.mem_filterMap

/-- A created vertex is known. -/
theorem vertexKnown_of_mem (h : v ∈ db.vertices) : vertexKnown db v.vertexId = true := by
  obtain ⟨e, he, hcreat⟩ := mem_vertices.mp h
  obtain ⟨hbody, hv, -⟩ := created?_eq_some_iff.mp hcreat
  exact List.any_eq_true.mpr ⟨e, he, by simp [hbody, hv, EventBody.isCreated]⟩

/-- The scope of a created vertex is known. -/
theorem scopeKnown_of_mem {s : ScopeId} (h : v ∈ db.vertices) (hs : v.scopeId = some s) :
    scopeKnown db s = true := by
  obtain ⟨e, he, hcreat⟩ := mem_vertices.mp h
  obtain ⟨-, -, -, hscope, -⟩ := created?_eq_some_iff.mp hcreat
  exact Bool.or_eq_true_iff.mpr (.inr (List.any_eq_true.mpr ⟨e, he, by simp [hscope, hs]⟩))

/-- What a freeze guarantees of each of its vertices. -/
theorem freezable_mem (h : freezable db runId frozen = true) {fv : FrozenVertex}
    (hmem : fv ∈ frozen) :
    vertexKnown db fv.vertexId = false ∧ ∀ s, fv.scopeId = some s → scopeKnown db s = false := by
  simp only [freezable, Bool.and_eq_true, List.all_eq_true, Bool.not_eq_true'] at h
  obtain ⟨hv, hs⟩ := h.1.2 fv hmem
  refine ⟨hv, fun s hscope => ?_⟩
  simpa [hscope] using hs

theorem freezable_nodup (h : freezable db runId frozen = true) :
    (frozen.map FrozenVertex.vertexId).Nodup := by
  simp only [freezable, Bool.and_eq_true, decide_eq_true_eq] at h
  exact h.1.1

/-- **The vertices, step by step**: only a freeze creates any. -/
theorem EnvironmentStep.vertices (h : EnvironmentStep db db') :
    db'.vertices = db.vertices ∨ ∃ runId frozen, freezable db runId frozen = true ∧
      db'.vertices = db.vertices ++ frozen.map (FrozenVertex.vertex · runId) := by
  cases h with
  | freeze hfreez hchan => exact .inr ⟨_, _, hfreez, hchan.vertices⟩
  | engineAppend _ _ hchan =>
    obtain ⟨_, hlog, hnew⟩ := hchan.log
    exact .inl (vertices_append hlog fun e he => (hnew e he).not_created)
  | _ => exact .inl rfl

/-- **The vertices of a step of the system**: only a freeze creates vertices. -/
theorem vertices_action (h : step cfg world a = some world') :
    world'.db.vertices = world.db.vertices ∨ ∃ runId frozen proposedSeq,
      a = .freeze runId frozen proposedSeq ∧ freezable world.db runId frozen = true ∧
      world'.db.vertices = world.db.vertices ++ frozen.map (FrozenVertex.vertex · runId) := by
  rcases step_actions h with ⟨w, hmove⟩ | ⟨-, -, hact, -⟩
  · exact .inl hmove.step.vertices
  generalize world'.db = db' at hact
  cases hact with
  | freeze hfreez happ =>
    exact .inr ⟨_, _, _, rfl, hfreez, (freeze_change happ).vertices⟩
  | batch hdraf happ =>
    obtain ⟨_, hlog, hnew⟩ := (engineAppend_change hdraf happ).log
    exact .inl (vertices_append hlog fun e he => (hnew e he).not_created)
  | silent hlog => exact .inl (congrArg (List.filterMap Event.created?) hlog)

/-- The vertices of a step, whatever its action. -/
theorem vertices_step (h : step cfg world a = some world') :
    world'.db.vertices = world.db.vertices ∨ ∃ runId frozen,
      freezable world.db runId frozen = true ∧
      world'.db.vertices = world.db.vertices ++ frozen.map (FrozenVertex.vertex · runId) :=
  (vertices_action h).imp_right fun ⟨runId, frozen, _, _, hfreez, hnew⟩ =>
    ⟨runId, frozen, hfreez, hnew⟩

/-- A vertex once created stays. -/
theorem vertices_mono (h : step cfg world a = some world') (hv : v ∈ world.db.vertices) :
    v ∈ world'.db.vertices := by
  rcases vertices_step h with hsame | ⟨runId, frozen, -, hnew⟩
  · rw [hsame]
    exact hv
  · rw [hnew]
    exact List.mem_append_left _ hv

/-- What every frozen vertex has, every created one has. -/
theorem created_forall {allowed : World → Action → Prop} {P : CreatedVertex → Prop}
    (hfroz : ∀ mid runId frozen seq, allowed mid (.freeze runId frozen seq) →
      ∀ fv ∈ frozen, P (fv.vertex runId))
    (h : ReachableUnder cfg allowed world) : ∀ v ∈ world.db.vertices, P v := by
  refine h.invariant (I := fun world => ∀ v ∈ world.db.vertices, P v) nofun ?_
  intro mid mid' a hmid hall hstep
  rcases vertices_action hstep with hsame | ⟨runId, frozen, seq, rfl, -, hnew⟩
  · rwa [hsame]
  · rw [hnew]
    exact List.forall_mem_append.mpr
      ⟨hmid, List.forall_mem_map.mpr (hfroz mid runId frozen seq hall)⟩

/-! ### The frozen vertices as an invariant -/

/-- **Frozen vertices.** They are distinct and carry their companions, a scope belongs to
one run, and every queue row and every item in a worker's hands is one of them. -/
structure Frozen (world : World) : Prop where
  distinct : (world.db.vertices.map CreatedVertex.vertexId).Nodup
  companions : ∀ v ∈ world.db.vertices, v.payload.declaresCompanions = true
  scopes : ∀ v ∈ world.db.vertices, ∀ v' ∈ world.db.vertices, ∀ s, v.scopeId = some s →
    v'.scopeId = some s → v.runId = v'.runId
  queued : ∀ v row, world.db.queue.lookup v = some row → row.vertex v ∈ world.db.vertices
  held : ∀ w item, (world.workers w).stage.item? = some item → item.vertex ∈ world.db.vertices

theorem Frozen.eq_of_vertexId (h : Frozen world) {v' : CreatedVertex} (hv : v ∈ world.db.vertices)
    (hv' : v' ∈ world.db.vertices) (hid : v.vertexId = v'.vertexId) : v = v' :=
  List.inj_on_of_nodup_map h.distinct hv hv' hid

/-- **A worker holds what it claimed**: a move drops its item, keeps it, or takes it from
the queue. -/
theorem StageStep.item {stage stage' : Stage} (h : StageStep cfg me db db' stage stage')
    {item : WorkItem} (hitem : stage'.item? = some item) :
    stage.item? = some item ∨ ∃ row, db.queue.lookup item.vertexId = some row ∧
      item.vertex = row.vertex item.vertexId := by
  cases h with
  | freed | decided | resumed => cases hitem
  | working | kept | admitted | passed => exact .inl hitem
  | claimed hrow =>
    cases hitem
    exact .inr ⟨_, hrow, rfl⟩
  | left hstage => rcases hstage with rfl | rfl <;> exact .inl hitem

variable {row' : QueueRow} {v : VertexId}

/-- A worker's move keeps the vertex of every queue row it leaves. -/
theorem WorkerStep.queue_vertex {pc pc' : Pc} (h : WorkerStep cfg me db pc db' pc')
    (hrow' : db'.queue.lookup v = some row') :
    ∃ row, db.queue.lookup v = some row ∧ row'.vertex v = row.vertex v := by
  have hstep := h.queue v
  rw [hrow'] at hstep
  generalize hold : db.queue.lookup v = old at hstep
  cases hstep with
  | kept => exact ⟨row', rfl, rfl⟩
  | claimed | released => exact ⟨_, rfl, rfl⟩

/-- The environment keeps the vertex of every queue row it leaves, and adds only rows of
vertices it freezes. -/
theorem EnvironmentStep.queue_frozen (h : EnvironmentStep db db')
    (hrow' : db'.queue.lookup v = some row') :
    (∃ row, db.queue.lookup v = some row ∧ row'.vertex v = row.vertex v) ∨
      ∃ (runId : RunId) (frozen : List FrozenVertex), ∃ fv ∈ frozen,
        row'.vertex v = fv.vertex runId ∧ db'.vertices = db.vertices ++
          frozen.map (FrozenVertex.vertex · runId) := by
  cases h with
  | freeze hfreez hchan =>
    rcases hchan.queue v with hsame | ⟨-, fv, hfv, rfl, -, hnew⟩
    · exact .inl ⟨row', hsame ▸ hrow', rfl⟩
    · obtain rfl := Option.mem_unique hnew hrow'
      exact .inr ⟨_, _, fv, hfv, rfl, hchan.vertices⟩
  | engineAppend _ _ hchan =>
    rcases hchan.queue v with hsame | ⟨hnone, -⟩
    · exact .inl ⟨row', hsame ▸ hrow', rfl⟩
    · rw [hnone] at hrow'
      cases hrow'
  | claimRead reader leaseMs hrow hclass | releaseRead readyAt hrow hclass =>
    rename_i v' row
    change AList.lookup v (AList.insert _ _ db.queue) = some row' at hrow'
    rw [Table.lookup_insert_eq] at hrow'
    split at hrow'
    · rename_i heq
      obtain rfl := Option.some.inj hrow'
      exact .inl ⟨row, heq ▸ hrow, rfl⟩
    · exact .inl ⟨row', hrow', rfl⟩
  | completeRead hrow hclass =>
    rename_i v' row
    change AList.lookup v (AList.erase _ db.queue) = some row' at hrow'
    by_cases hv : v = v'
    · rw [hv, AList.lookup_erase] at hrow'
      cases hrow'
    · rw [AList.lookup_erase_ne hv] at hrow'
      exact .inl ⟨row', hrow', rfl⟩
  | _ => exact .inl ⟨row', hrow', rfl⟩

/-- The queue holds vertices of the log. -/
theorem EnvironmentStep.queue_vertex (h : EnvironmentStep db db')
    (hrow' : db'.queue.lookup v = some row') :
    (∃ row, db.queue.lookup v = some row ∧ row'.vertex v = row.vertex v) ∨
      row'.vertex v ∈ db'.vertices := by
  refine (h.queue_frozen hrow').imp_right fun ⟨runId, frozen, fv, hfv, hver, hnew⟩ => ?_
  rw [hver, hnew]
  exact List.mem_append_right _ (List.mem_map_of_mem hfv)

/-- **What an action queues**: only a freeze adds a row, that of one of its vertices. -/
theorem queue_action (h : step cfg world a = some world')
    (hrow' : world'.db.queue.lookup v = some row') :
    (∃ row, world.db.queue.lookup v = some row ∧ row'.vertex v = row.vertex v) ∨
      ∃ runId frozen proposedSeq, a = .freeze runId frozen proposedSeq ∧
        ∃ fv ∈ frozen, row'.vertex v = fv.vertex runId := by
  rcases step_cases h with ⟨w, hmove⟩ | ⟨henv, -⟩
  · exact .inl (hmove.step.queue_vertex hrow')
  refine (henv.queue_frozen hrow').imp_right fun ⟨runId, frozen, fv, hfv, hver, hnew⟩ => ?_
  have hmem : fv.vertex runId ∈ frozen.map (FrozenVertex.vertex · runId) :=
    List.mem_map_of_mem hfv
  -- what was frozen is what the action says
  rcases vertices_action h with hsame | ⟨runId', frozen', proposedSeq, rfl, -, hnew'⟩
  · rw [hsame, List.self_eq_append_right] at hnew
    rw [hnew] at hmem
    cases hmem
  rw [hnew', List.append_cancel_left_eq] at hnew
  rw [← hnew] at hmem
  obtain ⟨fv', hfv', heq⟩ := List.mem_map.mp hmem
  exact ⟨runId', frozen', proposedSeq, rfl, fv', hfv', hver.trans heq.symm⟩

/-- A freeze keeps the vertices distinct. -/
theorem distinct_freeze (hfreez : freezable db runId frozen = true)
    (hdis : (db.vertices.map CreatedVertex.vertexId).Nodup) :
    ((db.vertices ++ frozen.map (FrozenVertex.vertex · runId)).map
      CreatedVertex.vertexId).Nodup := by
  have hnew : (frozen.map (FrozenVertex.vertex · runId)).map CreatedVertex.vertexId =
      frozen.map FrozenVertex.vertexId := by
    rw [List.map_map]
    rfl
  rw [List.map_append, hnew]
  refine List.Nodup.append hdis (freezable_nodup hfreez) ?_
  rintro id hold hfresh
  obtain ⟨v, hv, rfl⟩ := List.mem_map.mp hold
  obtain ⟨fv, hfv, hid⟩ := List.mem_map.mp hfresh
  have hunk := (freezable_mem hfreez hfv).1
  rw [hid, vertexKnown_of_mem hv] at hunk
  cases hunk

/-- A freeze opens scopes of its own run only. -/
theorem scopes_freeze (hfreez : freezable db runId frozen = true)
    (hscop : ∀ v ∈ db.vertices, ∀ v' ∈ db.vertices, ∀ s, v.scopeId = some s → v'.scopeId = some s →
      v.runId = v'.runId) :
    ∀ v ∈ db.vertices ++ frozen.map (FrozenVertex.vertex · runId),
    ∀ v' ∈ db.vertices ++ frozen.map (FrozenVertex.vertex · runId), ∀ s, v.scopeId = some s →
      v'.scopeId = some s → v.runId = v'.runId := by
  have hfresh : ∀ v ∈ db.vertices, ∀ fv ∈ frozen, ∀ s, v.scopeId = some s →
      fv.scopeId = some s → False := by
    intro v hv fv hfv s hs hs'
    have hunk := (freezable_mem hfreez hfv).2 s hs'
    rw [scopeKnown_of_mem hv hs] at hunk
    cases hunk
  intro v hv v' hv' s hs hs'
  rcases List.mem_append.mp hv with hv | hv <;> rcases List.mem_append.mp hv' with hv' | hv'
  · exact hscop v hv v' hv' s hs hs'
  · obtain ⟨fv, hfv, rfl⟩ := List.mem_map.mp hv'
    exact (hfresh v hv fv hfv s hs hs').elim
  · obtain ⟨fv, hfv, rfl⟩ := List.mem_map.mp hv
    exact (hfresh v' hv' fv hfv s hs' hs).elim
  obtain ⟨fv, -, rfl⟩ := List.mem_map.mp hv
  obtain ⟨_, -, rfl⟩ := List.mem_map.mp hv'
  rfl

/-- Frozen vertices are kept by a worker's move. -/
theorem Frozen.move {w : WorkerId} (h : Frozen world) (hmove : WorkerMove cfg world a world' w) :
    Frozen world' := by
  have hver := hmove.step.vertices
  refine ⟨by rw [hver]; exact h.distinct, by rw [hver]; exact h.companions,
    by rw [hver]; exact h.scopes, fun v row' hrow' => ?_, fun w' item hitem => ?_⟩
  · obtain ⟨row, hrow, heq⟩ := hmove.step.queue_vertex hrow'
    rw [hver, heq]
    exact h.queued v row hrow
  rw [hver]
  by_cases hw : w' = w
  · subst hw
    rcases hmove.step.stage.item hitem with hold | ⟨row, hrow, heq⟩
    · exact h.held w' item hold
    · rw [heq]
      exact h.queued _ row hrow
  · rw [hmove.others w' hw] at hitem
    exact h.held w' item hitem

/-- Frozen vertices are kept by the environment. -/
theorem Frozen.environment (h : Frozen world) (henv : EnvironmentStep world.db world'.db)
    (hwor : world'.workers = world.workers) : Frozen world' := by
  have hmono : world.db.vertices ⊆ world'.db.vertices := by
    intro v hv
    rcases henv.vertices with hsame | ⟨runId, frozen, -, hnew⟩
    · exact hsame ▸ hv
    · exact hnew ▸ List.mem_append_left _ hv
  have hqueued : ∀ v row, world'.db.queue.lookup v = some row → row.vertex v ∈ world'.db.vertices := by
    intro v row' hrow'
    rcases henv.queue_vertex hrow' with ⟨row, hrow, heq⟩ | hnew
    · exact hmono (heq ▸ h.queued v row hrow)
    · exact hnew
  have hheld : ∀ w item, (world'.workers w).stage.item? = some item →
      item.vertex ∈ world'.db.vertices := fun w item hitem =>
    hmono (h.held w item (hwor ▸ hitem))
  rcases henv.vertices with hsame | ⟨runId, frozen, hfreez, hnew⟩
  · exact ⟨by rw [hsame]; exact h.distinct, by rw [hsame]; exact h.companions,
      by rw [hsame]; exact h.scopes, hqueued, hheld⟩
  refine ⟨by rw [hnew]; exact distinct_freeze hfreez h.distinct, fun v hv => ?_,
    by rw [hnew]; exact scopes_freeze hfreez h.scopes, hqueued, hheld⟩
  rw [hnew] at hv
  rcases List.mem_append.mp hv with hold | hfroz
  · exact h.companions v hold
  · obtain ⟨fv, -, rfl⟩ := List.mem_map.mp hfroz
    exact fv.companions

/-- **Frozen vertices** are kept by every step. -/
theorem Frozen.step (h : Frozen world) (hstep : step cfg world a = some world') :
    Frozen world' := by
  rcases step_cases hstep with ⟨w, hmove⟩ | ⟨henv, hwor⟩
  · exact h.move hmove
  · exact h.environment henv hwor

theorem frozen_initial : Frozen World.initial :=
  ⟨List.nodup_nil, by simp [Db.vertices, World.initial], by simp [Db.vertices, World.initial],
    by simp [World.initial], by simp [World.initial, Pc.stage, Stage.item?]⟩

/-- **Frozen vertices, in every reachable world.** -/
theorem frozen_of_reachable (h : Reachable cfg world) : Frozen world :=
  h.invariant frozen_initial fun _ _ _ hfroz _ hstep => hfroz.step hstep

end Flory
