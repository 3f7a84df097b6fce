import Flory.Dispatch

/-!
# Tries Succeed Once

A try succeeds once, however often it is called, because its success is sealed under the key of
its vertex.

## Main results

* `succeededOnce_of_reachable`: at most one success is recorded of a vertex that seals a
  bracket.
-/

namespace Flory

variable {world : World} {w : WorkerId} {cfg : Config}

/-! ### Vertices that seal a bracket -/

/-- Whether the success of a vertex seals a bracket: a try of a scope that `processRegular`
calls. -/
def CreatedVertex.brackets (v : CreatedVertex) : Bool :=
  v.scopeId.isSome && v.payload.mode.isTry && v.payload.txn.effectClass != .irreversible

/-- The event records the success of a vertex. -/
structure Event.Succeeds (e : Event) (v : CreatedVertex) : Prop where
  body : e.body.isSucceeded = true
  vertex : e.vertexId = some v.vertexId

/-- The executor class of a vertex is that of its creation. -/
theorem floryVertexExecutorClass_eq_some {db : Db} {runId : RunId} {vertexId : Option VertexId}
    {cls : ExecutorClass} (h : floryVertexExecutorClass db runId vertexId = some cls) :
    ∃ v ∈ db.vertices, vertexId = some v.vertexId ∧ cls = floryExecutorClass v.payload v.scopeId := by
  cases vertexId with
  | none => cases h
  | some u =>
    obtain ⟨e, hhead, h⟩ := Option.bind_eq_some_iff.mp h
    have hmem := List.mem_filter.mp (List.mem_of_head? hhead)
    simp only [Bool.and_eq_true, beq_iff_eq] at hmem
    cases hbody : e.body with
    | vertexCreated payload =>
      rw [hbody] at h
      exact ⟨⟨u, e.runId, e.scopeId, e.parentRefs, payload⟩, mem_vertices.mpr ⟨e, hmem.1,
        created?_eq_some_iff.mpr ⟨hbody, hmem.2.2, rfl, rfl, rfl⟩⟩, rfl, (Option.some.inj h).symm⟩
    | _ =>
      rw [hbody] at h
      cases h

/-- The Engine records the success of a vertex it executes. -/
theorem EngineEvent.succeeds_class {db : Db} {e : Event} (h : EngineEvent db e)
    (hbody : e.body.isSucceeded = true) :
    ∃ v ∈ db.vertices, e.vertexId = some v.vertexId ∧
      SessionUser.engineRole.owns (floryExecutorClass v.payload v.scopeId) = true := by
  have hown : floryEventOwner e.body = some .executor := by
    cases hb : e.body <;> simp_all [EventBody.isSucceeded, floryEventOwner]
  obtain ⟨_, hcls, howns⟩ := h.executes hown
  obtain ⟨v, hv, hver, rfl⟩ := floryVertexExecutorClass_eq_some hcls
  exact ⟨v, hv, hver, howns⟩

/-- The Engine records no success of a vertex that seals a bracket. -/
theorem EngineEvent.succeeds {db : Db} {e : Event} (h : EngineEvent db e)
    (hbody : e.body.isSucceeded = true) :
    ∃ v ∈ db.vertices, e.vertexId = some v.vertexId ∧ v.brackets = false := by
  obtain ⟨v, hv, hver, howns⟩ := h.succeeds_class hbody
  refine ⟨v, hv, hver, ?_⟩
  obtain ⟨v, _, scopeId, _, payload⟩ := v
  cases scopeId with
  | none => rfl
  | some =>
    cases payload with
    | tool => cases howns
    | _ => rfl

/-! ### Tries that succeeded -/

/-- A call of a vertex in a scope was resolved as succeeded. -/
def Db.Tried (db : Db) (s : ScopeId) (v : VertexId) : Prop :=
  ∃ id row, db.attempts.lookup id = some row ∧ row.operation = .call ∧ row.scopeId = some s ∧
    row.vertexId = v ∧ row.outcome = some .succeeded

/-- What a worker is about to seal was tried. -/
theorem Dispatched.tried (hdis : Dispatched world) {item : WorkItem} {result : Execution}
    {deadline : Time} (hpc : world.workers w = .succeed item result deadline) {s : ScopeId}
    (hs : item.scopeId = some s) : world.db.Tried s item.vertexId := by
  have hbac := hdis.backed w
  rw [hpc] at hbac
  obtain ⟨id, hrow⟩ := hbac
  exact ⟨id, _, hrow, rfl, hs, rfl, rfl⟩

section Step

variable {world' : World} {a : Action}

/-- What was tried stays tried. -/
theorem Db.Tried.step {s : ScopeId} {v : VertexId} (h : world.db.Tried s v)
    (hdis : Dispatched world) (hchan : Changes cfg world a world' w) :
    world'.db.Tried s v := by
  obtain ⟨id, row, hrow, hcall, hs, hv, hout⟩ := h
  refine ⟨id, row, ?_, hcall, hs, hv, hout⟩
  refine (hdis.attempt_step (hchan.attempt id) hrow).resolve_right fun hres => ?_
  simp [hres.2.1] at hout

end Step

/-! ### At most one success -/

/-- **Successes and brackets.** A recorded success is that of a created vertex; when the
vertex seals a bracket its call succeeded, the bracket is there, and the success is the only
one. -/
structure SucceededOnce (world : World) : Prop where
  sealed : ∀ e ∈ world.db.log, e.body.isSucceeded = true → ∃ v ∈ world.db.vertices,
    e.vertexId = some v.vertexId ∧ (v.brackets = true →
      (∃ row, world.db.brackets.lookup v.payload.txn.idempotencyKey = some row) ∧
      ∀ s, v.scopeId = some s → world.db.Tried s v.vertexId)
  once : world.db.log.Pairwise fun e e' => ∀ v ∈ world.db.vertices, v.brackets = true →
    e.Succeeds v → ¬ e'.Succeeds v

/-- A worker's success: of a vertex that seals no bracket, or of one whose call succeeded and
whose key was free. -/
theorem WorkerEvent.succeeds {db' : Db} {e : Event} (hfroz : Frozen world)
    (hrout : (world.workers w).Routed) (hdis : Dispatched world)
    (h : WorkerEvent world.db db' (world.workers w) e) (hbody : e.body.isSucceeded = true) :
    ∃ v ∈ world.db.vertices, e.vertexId = some v.vertexId ∧
      (v.brackets = true → world.db.brackets.lookup v.payload.txn.idempotencyKey = none ∧
        (db'.brackets.lookup v.payload.txn.idempotencyKey).isSome ∧
        ∀ s, v.scopeId = some s → world.db.Tried s v.vertexId) := by
  cases h with
  | plain => cases hb : e.body <;> simp_all [EventBody.isPlain, EventBody.isSucceeded]
  | barrier hpc hsuc hv =>
    rename_i item
    rw [hpc] at hrout
    refine ⟨_, hfroz.held w item (by rw [hpc]; rfl), hv, fun hbrac => ?_⟩
    change item.payload = .barrier at hrout
    simp [CreatedVertex.brackets, WorkItem.vertex, hrout, VertexPayload.mode, Mode.isTry] at hbrac
  | sealed hpc hsuc hv hscope htry hkey hkey' =>
    rename_i item result deadline s
    rw [tool_txn] at hkey hkey'
    exact ⟨_, hfroz.held w item (by rw [hpc]; rfl), hv, fun _ =>
      ⟨hkey, hkey', fun s hs => hdis.tried hpc hs⟩⟩
  | succeeded hpc hsuc hv hplain =>
    rename_i item result deadline
    refine ⟨_, hfroz.held w item (by rw [hpc]; rfl), hv, fun hbrac => ?_⟩
    simp only [CreatedVertex.brackets, WorkItem.vertex, Bool.and_eq_true] at hbrac
    rcases hplain with hnone | hnot
    · simp [hnone] at hbrac
    · simp_all
  | pivotSucceeded hpc hsuc hv hrow' hstate' =>
    rename_i item result row'
    rw [hpc] at hrout
    refine ⟨_, hfroz.held w item.item (by rw [hpc]; rfl), hv, fun hbrac => ?_⟩
    change item.item.tool.txn.effectClass = .irreversible at hrout
    simp only [CreatedVertex.brackets, WorkItem.vertex, Bool.and_eq_true] at hbrac
    simp_all
  | tried _ hb | admitted _ hb | passed _ hb | confirmed _ hb | requested _ hb | completed _ hb =>
    rw [hb] at hbody
    cases hbody

section Step

variable {world' : World} {a : Action} {new : List Event}

/-- The environment records no success of a vertex that seals a bracket. -/
theorem environment_succeeds {db : Db} {e : Event} (h : EngineEvent db e ∨
    (∃ seq, e.body = .subgraph (.frozen seq)) ∨ ∃ fv : FrozenVertex, e.toEventDraft = fv.draft)
    (hbody : e.body.isSucceeded = true) :
    ∃ v ∈ db.vertices, e.vertexId = some v.vertexId ∧ v.brackets = false := by
  rcases h with heng | ⟨seq, hfroz⟩ | ⟨fv, hfv⟩
  · exact heng.succeeds hbody
  · rw [hfroz] at hbody
    cases hbody
  · rw [hfv] at hbody
    cases hbody

/-- A new success is that of a vertex whose bracket is new, if the vertex seals one. -/
theorem LogChange.succeeds {e : Event} (hlog : LogChange world world' w new)
    (h : Reachable cfg world) (he : e ∈ new) (hbody : e.body.isSucceeded = true) :
    ∃ v ∈ world.db.vertices, e.vertexId = some v.vertexId ∧
      (v.brackets = true → world.db.brackets.lookup v.payload.txn.idempotencyKey = none ∧
        (world'.db.brackets.lookup v.payload.txn.idempotencyKey).isSome ∧
        ∀ s, v.scopeId = some s → world.db.Tried s v.vertexId) := by
  cases hlog with
  | worker hstep =>
    exact (hstep.origin e he).succeeds (frozen_of_reachable h) (routed_of_reachable h w)
      (dispatched_of_reachable h) hbody
  | environment henv =>
    obtain ⟨v, hv, hver, hnot⟩ := environment_succeeds (henv e he).2 hbody
    exact ⟨v, hv, hver, by simp [hnot]⟩

/-- A success recorded of a vertex known before the step is the success of that vertex. -/
theorem Frozen.eq_of_succeeds {v v' : CreatedVertex} {e : Event} (hfroz' : Frozen world')
    (hmono : world.db.vertices ⊆ world'.db.vertices) (hv : v ∈ world.db.vertices)
    (he : e.vertexId = some v.vertexId) (hv' : v' ∈ world'.db.vertices) (hsuc : e.Succeeds v') :
    v' = v :=
  hfroz'.eq_of_vertexId hv' (hmono hv) (Option.mem_unique hsuc.vertex he)

/-- One step records at most one success of a vertex that seals a bracket. -/
theorem LogChange.succeeds_once (hlog : LogChange world world' w new) (hfroz' : Frozen world')
    (hmono : world.db.vertices ⊆ world'.db.vertices) :
    new.Pairwise fun e e' => ∀ v ∈ world'.db.vertices, v.brackets = true → e.Succeeds v →
      ¬ e'.Succeeds v := by
  cases hlog with
  | worker hstep =>
    refine hstep.once.imp fun {e e'} hboth v _ _ hsuc hsuc' => ?_
    simp [hsuc.body, hsuc'.body] at hboth
  | environment henv =>
    refine List.pairwise_of_forall_mem_list fun e he e' _ v hv hbrac hsuc => ?_
    obtain ⟨v₀, hv₀, hv₀', hnot⟩ := environment_succeeds (henv e he).2 hsuc.body
    obtain rfl := hfroz'.eq_of_succeeds hmono hv₀ hv₀' hv hsuc
    rw [hnot] at hbrac
    cases hbrac

/-- **Successes and brackets** are kept by every step. -/
theorem SucceededOnce.step (honce : SucceededOnce world) (h : Reachable cfg world)
    (hfroz' : Frozen world') (hmono : world.db.vertices ⊆ world'.db.vertices)
    (hchan : Changes cfg world a world' w) : SucceededOnce world' := by
  have hdis := dispatched_of_reachable h
  obtain ⟨new, hlog, hnew⟩ := hchan.log
  constructor
  case sealed =>
    intro e he hbody
    rw [hlog] at he
    rcases List.mem_append.mp he with hold | hadd
    · obtain ⟨v, hv, hv', hseal⟩ := honce.sealed e hold hbody
      refine ⟨v, hmono hv, hv', fun hbrac => ?_⟩
      obtain ⟨⟨row, hrow⟩, htried⟩ := hseal hbrac
      obtain ⟨_, hrow', -⟩ := hchan.bracket_some (scoped_of_reachable h) hrow
      exact ⟨⟨_, hrow'⟩, fun s hs => (htried s hs).step hdis hchan⟩
    · obtain ⟨v, hv, hv', hseal⟩ := hnew.succeeds h hadd hbody
      refine ⟨v, hmono hv, hv', fun hbrac => ?_⟩
      obtain ⟨-, hrow', htried⟩ := hseal hbrac
      exact ⟨Option.isSome_iff_exists.mp hrow', fun s hs => (htried s hs).step hdis hchan⟩
  case once =>
    rw [hlog, List.pairwise_append]
    refine ⟨honce.once.imp_of_mem fun {e e'} he _ honly v hv hbrac hsuc => ?_,
      hnew.succeeds_once hfroz' hmono, fun e he e' he' v hv hbrac hsuc hsuc' => ?_⟩
    · obtain ⟨v₀, hv₀, hv₀', -⟩ := honce.sealed e he hsuc.body
      obtain rfl := hfroz'.eq_of_succeeds hmono hv₀ hv₀' hv hsuc
      exact honly v hv₀ hbrac hsuc
    · -- the old success has the bracket that the new one finds free
      obtain ⟨v₀, hv₀, hv₀', hseal⟩ := honce.sealed e he hsuc.body
      obtain rfl := hfroz'.eq_of_succeeds hmono hv₀ hv₀' hv hsuc
      obtain ⟨v₁, hv₁, hv₁', hfree⟩ := hnew.succeeds h he' hsuc'.body
      obtain rfl := hfroz'.eq_of_succeeds hmono hv₁ hv₁' hv hsuc'
      obtain ⟨⟨row, hrow⟩, -⟩ := hseal hbrac
      rw [(hfree hbrac).1] at hrow
      cases hrow

end Step

/-- **A vertex that seals a bracket succeeds at most once**, in every reachable world. -/
theorem succeededOnce_of_reachable (h : Reachable cfg world) : SucceededOnce world := by
  refine invariant_of_changes h (by constructor <;> simp [World.initial]) ?_
  intro mid mid' a w hmid hmid' _ hstep hchan honce
  exact honce.step hmid (frozen_of_reachable hmid') (fun v hv => vertices_mono hstep hv) hchan

/-- A vertex of a scope that calls a tool without an effect. -/
def plainVertex (v : VertexId) (parents : List VertexId) (s : ScopeId) : FrozenVertex where
  vertexId := v
  parentRefs := parents
  scopeId := some s
  payload := .tool { tool := "read", txn := { effectClass := .none, mode := .plain } }
  companions := rfl

end Flory
