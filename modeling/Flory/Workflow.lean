import Flory.CheckRules
import Flory.Contracts
import Flory.System

/-!
# Workflows

From a submitted workflow to the `vertex/created` drafts that freeze it: normalization
(`normalizeWorkflow`), the proposal the checker admits (`lowerToProposal`), the registry it
is judged against (`loadToolRegistry`) and the compilation (`compileVertexDrafts`), with the
derivation of idempotency keys.

A freshly allocated id is the next value of a supply, so that compilation is a function of
its arguments, as it is of the injected `newId`.

## Main results

* `compiled_origin`: every compiled draft is the draft of one vertex of the workflow.
* `compiled_tool`: the payload of a compiled tool vertex states the contract of its tool.
* `compiled_companions`: under a registry without defects, every compiled vertex declares
  the companions its mode needs, so that it can be frozen.
-/

namespace Flory

open Except (error ok)
open Fallible (bind_eq_ok map_eq_ok)

variable {registry : ToolRegistry}

/-! ### Submissions -/

/-- What a submitted vertex is. -/
inductive SubmittedKind
  | tool (tool : String) (input : Json) (idempotencyKey : Option String) (confirmedOutput : Bool)
  | planner
  | router (templateRef : Option String)
  | confirmationBarrier

/-- `SubmittedVertex`. -/
structure SubmittedVertex where
  id : String
  parents : List String := []
  scope : Option String := none
  kind : SubmittedKind

/-- `WorkflowSubmission`, with the fields some function reads. -/
structure WorkflowSubmission where
  vertices : List SubmittedVertex
  scopes : List ProposalScope := []
  workflowType : String := "default"
  attachTo : List VertexId := []

/-- The kind of a submitted vertex, as the checker knows it. -/
def SubmittedKind.vertexKind : SubmittedKind → VertexKind
  | .tool .. => .tool
  | .planner => .planner
  | .router _ => .router
  | .confirmationBarrier => .confirmationBarrier

/-! ### Normalization -/

/-- `INTERPOSED_ROUTER_SUFFIX`. -/
def interposedRouterSuffix : String :=
  "#router"

/-- The vertices of a workflow by their ids. -/
def verticesById (vertices : List SubmittedVertex) : OrderedMap String SubmittedVertex :=
  OrderedMap.ofEntries (vertices.map fun vertex => (vertex.id, vertex))

/-- `needsInterposedRouter`: whether a planner reaches its parents other than through exactly
one router. -/
def needsInterposedRouter (parents : List String) (byId : OrderedMap String SubmittedVertex) :
    Bool :=
  match parents with
  | [] => false
  | [parent] => (byId.get? parent).all fun vertex => vertex.kind.vertexKind != .router
  | _ => true

/-- One vertex of the normalized workflow: a planner that needs one gets its router. -/
def normalizeVertex (byId : OrderedMap String SubmittedVertex)
    (done : List SubmittedVertex × List String) (vertex : SubmittedVertex) :
    Except String (List SubmittedVertex × List String) :=
  if vertex.kind.vertexKind = .planner ∧ needsInterposedRouter vertex.parents byId then
    let routerId := vertex.id ++ interposedRouterSuffix
    if byId.has routerId then
      error ("cannot interpose a router for " ++ vertex.id ++ ": " ++ routerId ++ " already exists")
    else ok (done.1 ++ [{ id := routerId, parents := vertex.parents, kind := .router none },
      { vertex with parents := [routerId] }], done.2 ++ [routerId])
  else ok (done.1 ++ [vertex], done.2)

/-- The first parent that is no vertex of the workflow, with its child. -/
def unknownParent (byId : OrderedMap String SubmittedVertex) (vertices : List SubmittedVertex) :
    Option (String × String) :=
  vertices.findSome? fun vertex =>
    (vertex.parents.find? fun parent => !byId.has parent).map fun parent => (parent, vertex.id)

/-- `normalizeWorkflow`: a router in front of every planner that has parents. -/
def normalizeWorkflow (submission : WorkflowSubmission) :
    Except String (WorkflowSubmission × List String) :=
  let byId := verticesById submission.vertices
  match unknownParent byId submission.vertices with
  | some (parent, child) =>
    error ("workflow names unknown parent " ++ parent ++ " for " ++ child)
  | none =>
    (submission.vertices.foldlM (normalizeVertex byId) ([], [])).map fun done =>
      ({ submission with vertices := done.1 }, done.2)

/-! ### The proposal of a workflow -/

/-- One vertex of the proposal. -/
def lowerVertex (vertex : SubmittedVertex) : ProposalVertex where
  id := vertex.id
  parents := vertex.parents
  kind := vertex.kind.vertexKind
  tool := match vertex.kind with
    | .tool tool _ _ _ => some tool
    | _ => none
  scopeId := given vertex.scope
  confirmedOutput := match vertex.kind with
    | .tool _ _ _ confirmedOutput => confirmedOutput
    | _ => false

/-- `lowerToProposal`. -/
def lowerToProposal (workflow : WorkflowSubmission) : SubDagProposal where
  vertices := workflow.vertices.map lowerVertex
  scopes := workflow.scopes

/-- An absent companion is the empty string in a contract. -/
def optionalName (name : String) : Option String :=
  if name = "" then none else some name

/-- The definition the checker has of a published tool. -/
def ToolContract.definition (tool : ToolContract) : ToolDefinition where
  name := tool.toolId
  effectClass := tool.txn.effectClass
  mode := tool.txn.mode
  idempotentRetryable := tool.txn.idempotentRetryable
  footprint := tool.footprint
  writes := tool.writes
  compensateTool := optionalName tool.txn.compensateTool
  confirmTool := optionalName tool.txn.confirmTool
  cancelTool := optionalName tool.txn.cancelTool
  tryTimeoutS := if tool.txn.tryTimeoutS = 0 then none else some tool.txn.tryTimeoutS

/-- The versions at which a view publishes a tool. -/
def publishedVersions (view : List ToolContract) (toolId : String) : List String :=
  (view.filter fun tool => tool.toolId == toolId).map ToolContract.toolVersion

/-- `loadToolRegistry`: the checker's registry of a view, which may hold one version of each
tool. -/
def loadToolRegistry (view : List ToolContract) : Except String ToolRegistry :=
  match view.find? fun tool => decide (1 < (publishedVersions view tool.toolId).length) with
  | some tool => error ("loadToolRegistry: " ++ tool.toolId ++ " is published at " ++
      ", ".intercalate ((publishedVersions view tool.toolId).insertionSort fun a b => a ≤ b) ++
      "; the checker's registry cannot represent more than one version of a tool")
  | none => (view.map ToolContract.definition).foldlM ToolRegistry.register ToolRegistry.empty

/-! ### Idempotency keys -/

/-- The segments of a path into a tool's arguments: `$`, then names between dots. -/
def pathSegments (path : String) : List String :=
  let chars := match path.toList with
    | '$' :: '.' :: rest => rest
    | '$' :: rest => rest
    | rest => rest
  ((chars.splitOn '.').filter fun segment => !segment.isEmpty).map String.ofList

/-- The value at a path: nothing below anything but an object. -/
def Json.at? : Json → List String → Option Json
  | value, [] => some value
  | value, segment :: rest => (value.field? segment).bind fun field => field.at? rest

/-- `valueAtArgumentPath`. -/
def valueAtArgumentPath (input : Json) (path : String) : Option Json :=
  input.at? (pathSegments path)

/-- `derivedIdempotencyKey`: the key a contract's declared path names. -/
def derivedIdempotencyKey (vertexId : String) (input : Json) (contract : ToolContract) :
    Except String (Option String) :=
  if contract.txn.idempotencyKeyPath = "" then ok none
  else
    match valueAtArgumentPath input contract.txn.idempotencyKeyPath with
    | some (.str value) => ok (some (contract.toolId ++ ":" ++ value))
    | some (.num value) => ok (some (contract.toolId ++ ":" ++ toString value))
    | _ => error (vertexId ++ " calls " ++ contract.toolId ++ ", whose idempotency key path " ++
        contract.txn.idempotencyKeyPath ++ " resolves to nothing in its input")

/-- `baseIdempotencyKey`: a submitted key, or the one its contract derives from the input. -/
def baseIdempotencyKey (vertexId : String) (input : Json) (idempotencyKey : Option String)
    (contract : ToolContract) : Except String (Option String) :=
  match idempotencyKey with
  | some key => ok (some key)
  | none => derivedIdempotencyKey vertexId input contract

/-- `BracketRecord`: a bracket recorded under a business key or one of its generations. -/
structure BracketRecord where
  idempotencyKey : String
  state : BracketState

/-- What follows a beginning in a list of characters, if it begins so. -/
def strip : List Char → List Char → Option (List Char)
  | [], rest => some rest
  | c :: start, d :: rest => if c = d then strip start rest else none
  | _ :: _, [] => none

/-- The number a positive decimal without leading zeros denotes. -/
def positiveDecimal : List Char → Option ℕ
  | [] => none
  | c :: rest =>
    if '1' ≤ c ∧ c ≤ '9' ∧ rest.all (fun d => '0' ≤ d && d ≤ '9') then
      some ((c :: rest).foldl (fun n d => 10 * n + (d.toNat - '0'.toNat)) 0)
    else none

/-- `generationOf`: 1 for the base key itself, `n` for `base#n`. -/
def generationOf (base key : String) : Option ℕ :=
  if key = base then some 1
  else (strip (base.toList ++ ['#']) key.toList).bind positiveDecimal

/-- `nextIdempotencyKey`: a live generation keeps its key; behind cancelled ones the next
generation begins. -/
def nextIdempotencyKey (base : String) (existing : List BracketRecord) : String :=
  let generations := existing.filterMap fun record =>
    (generationOf base record.idempotencyKey).map fun generation => (record, generation)
  match generations with
  | [] => base
  | _ =>
    match generations.find? fun entry => entry.1.state != .cancelled with
    | some live => live.1.idempotencyKey
    | none => base ++ "#" ++ toString ((generations.map Prod.snd).foldl max 0 + 1)

/-! ### Compilation -/

/-- One step of the topological order: the vertices placed so far, with a vertex after all of
its parents. -/
def placeVertex (byId : OrderedMap String SubmittedVertex) :
    ℕ → List String → List SubmittedVertex → String → Except String (List SubmittedVertex)
  | 0, _, _, id => error ("workflow contains a cycle at " ++ id)
  | fuel + 1, visiting, placed, id =>
    if placed.any fun vertex => vertex.id == id then ok placed
    else if visiting.contains id then error ("workflow contains a cycle at " ++ id)
    else
      match byId.get? id with
      | none => error ("workflow names unknown vertex " ++ id)
      | some vertex =>
        (vertex.parents.foldlM (placeVertex byId fuel (id :: visiting)) placed).map
          fun placed => placed ++ [vertex]

/-- `topologicalOrder`: every parent before its children. -/
def topologicalOrder (vertices : List SubmittedVertex) : Except String (List SubmittedVertex) :=
  (vertices.map SubmittedVertex.id).foldlM
    (placeVertex (verticesById vertices) (vertices.length + 1) []) []

/-- The arguments of one companion, resolved from the frozen input of its tool. -/
def companionInput (vertexId toolId field : String) (input : Json)
    (mapping : List (String × String)) : Except String (Option Json) :=
  if mapping = [] then ok none
  else
    (mapping.mapM fun (argument : String × String) =>
      match valueAtArgumentPath input argument.2 with
      | some value => ok (argument.1, value)
      | none => error (vertexId ++ " calls " ++ toolId ++ ", whose " ++ field ++ " reads " ++
          argument.2 ++ ", absent from its frozen arguments")).map fun fields =>
        some (.obj fields)

/-- What compilation reads beside the workflow: the view with its digest, the supply of ids
and the brackets recorded under each business key. -/
structure CompileContext where
  view : List ToolContract
  digest : String := ""
  newId : ℕ → ℕ
  brackets : OrderedMap String (List BracketRecord) := OrderedMap.empty

/-- The contracts of a view by their names. -/
def contractsById (view : List ToolContract) : OrderedMap String ToolContract :=
  OrderedMap.ofEntries (view.map fun tool => (tool.toolId, tool))

/-- The transaction half of a compiled tool vertex. -/
def compileTxn (contract : ToolContract) (key : Option String)
    (confirmInput cancelInput compensateInput : Option Json) : TransactionSpec where
  effectClass := contract.txn.effectClass
  mode := contract.txn.mode
  idempotencyKey := key.getD ""
  tryTimeoutS := contract.txn.tryTimeoutS
  confirmTool := contract.txn.confirmTool
  cancelTool := contract.txn.cancelTool
  compensateTool := contract.txn.compensateTool
  statusTool := contract.txn.statusTool
  confirmInput := confirmInput
  cancelInput := cancelInput
  compensateInput := compensateInput

/-- The payload of a compiled tool vertex. -/
def compileTool (ctx : CompileContext) (vertexId tool : String) (input : Json)
    (idempotencyKey : Option String) : Except String VertexPayload :=
  match (contractsById ctx.view).get? tool with
  | none => error (vertexId ++ " names " ++ tool ++ ", absent from the resolved tool view")
  | some contract => do
      let base ← baseIdempotencyKey vertexId input idempotencyKey contract
      let key := base.map fun base => nextIdempotencyKey base ((ctx.brackets.get? base).getD [])
      let confirmInput ← companionInput vertexId contract.toolId "confirm_input" input
        contract.txn.confirmArguments
      let cancelInput ← companionInput vertexId contract.toolId "cancel_input" input
        contract.txn.cancelArguments
      let compensateInput ← companionInput vertexId contract.toolId "compensate_input" input
        contract.txn.compensateArguments
      ok (.tool
        { tool := contract.toolId
          toolVersion := contract.toolVersion
          toolViewDigest := ctx.digest
          input := input
          retryPolicy := ⟨contract.retry.maxAttempts⟩
          txn := compileTxn contract key confirmInput cancelInput compensateInput })

/-- `vertexPayload`. -/
def vertexPayload (ctx : CompileContext) (vertex : SubmittedVertex) : Except String VertexPayload :=
  match vertex.kind with
  | .planner => ok .planner
  | .confirmationBarrier => ok .barrier
  | .router _ => ok .router
  | .tool tool input idempotencyKey _ => compileTool ctx vertex.id tool input idempotencyKey

/-- The ids allocated for the vertices of a workflow. -/
def vertexIds (workflow : WorkflowSubmission) (newId : ℕ → ℕ) : OrderedMap String VertexId :=
  OrderedMap.ofEntries (workflow.vertices.mapIdx fun i vertex => (vertex.id, newId i))

/-- The ids allocated for its scopes, after those of the vertices. -/
def scopeIds (workflow : WorkflowSubmission) (newId : ℕ → ℕ) : OrderedMap String ScopeId :=
  OrderedMap.ofEntries (workflow.scopes.mapIdx fun i scope =>
    (scope.id, newId (workflow.vertices.length + i)))

/-- The draft of one vertex. -/
def compileVertex (workflow : WorkflowSubmission) (ctx : CompileContext)
    (vertex : SubmittedVertex) : Except String EventDraft := do
  let ids := vertexIds workflow ctx.newId
  let parentRefs := if vertex.parents = [] then workflow.attachTo
    else vertex.parents.filterMap ids.get?
  let scopeId ← match given vertex.scope with
    | none => ok none
    | some scope =>
      match (scopeIds workflow ctx.newId).get? scope with
      | some id => ok (some id)
      | none => error (vertex.id ++ " names undeclared scope " ++ scope)
  let payload ← vertexPayload ctx vertex
  ok { body := .vertexCreated payload, vertexId := ids.get? vertex.id, parentRefs := parentRefs
       scopeId := scopeId }

/-- `compileVertexDrafts`: the `vertex/created` drafts of a workflow, parents first. -/
def compileVertexDrafts (workflow : WorkflowSubmission) (ctx : CompileContext) :
    Except String (List EventDraft) := do
  let ordered ← topologicalOrder workflow.vertices
  ordered.mapM (compileVertex workflow ctx)

/-! ### What compilation gives -/

section Views

variable {view : List ToolContract}

/-- A registered definition is set under its name. -/
theorem register_ok {definition : ToolDefinition} {registry' : ToolRegistry}
    (h : registry.register definition = ok registry') :
    registry'.definitions = registry.definitions.set definition.name definition := by
  unfold ToolRegistry.register at h
  split at h
  · cases h
  · rw [← Except.ok.inj h]

/-- The definitions of a registry that several tools were registered in. -/
theorem foldlM_register_ok {definitions : List ToolDefinition} {registry' : ToolRegistry}
    (h : definitions.foldlM ToolRegistry.register registry = ok registry') :
    registry'.definitions =
      definitions.foldl (fun m definition => m.set definition.name definition)
        registry.definitions := by
  induction definitions generalizing registry with
  | nil => rw [← Except.ok.inj h]; rfl
  | cons definition rest ih =>
    simp only [List.foldlM_cons, bind_eq_ok] at h
    obtain ⟨_, hmid, hrest⟩ := h
    rw [ih hrest, register_ok hmid, List.foldl_cons]

/-- **The registry of a view** holds the definitions of its contracts. -/
theorem loadToolRegistry_ok (h : loadToolRegistry view = ok registry) (tool : String) :
    registry.definitions.get? tool =
      ((contractsById view).get? tool).map ToolContract.definition := by
  unfold loadToolRegistry at h
  split at h
  · cases h
  have hdef : registry.definitions = OrderedMap.ofEntries
      (view.map fun contract => (contract.toolId, contract.definition)) := by
    rw [foldlM_register_ok h, List.foldl_map, OrderedMap.ofEntries, List.foldl_map]
    rfl
  rw [hdef, contractsById]
  exact OrderedMap.get?_ofEntries_map

theorem mem_of_contractsById {tool : String} {contract : ToolContract}
    (h : (contractsById view).get? tool = some contract) :
    contract ∈ view ∧ contract.toolId = tool :=
  OrderedMap.mem_of_get?_index h

end Views

variable {vertex : SubmittedVertex}

section Compiled

variable {workflow : WorkflowSubmission} {ctx : CompileContext}
  {id : String} {visiting : List String}

theorem mem_of_verticesById {vertices : List SubmittedVertex}
    (h : (verticesById vertices).get? id = some vertex) : vertex ∈ vertices ∧ vertex.id = id :=
  OrderedMap.mem_of_get?_index h

/-- The vertices of the proposal, under their ids. -/
theorem proposal_vertices {proposed : OrderedMap String ProposalVertex}
    (h : proposed = OrderedMap.ofEntries
      ((lowerToProposal workflow).vertices.map fun vertex => (vertex.id, vertex))) (id : String) :
    proposed.get? id = ((verticesById workflow.vertices).get? id).map lowerVertex := by
  rw [h, lowerToProposal, List.map_map, verticesById]
  exact OrderedMap.get?_ofEntries_map

variable {placed placed' : List SubmittedVertex}

/-- What is placed are vertices of the workflow, each the one its id names. -/
def KnownAs (byId : OrderedMap String SubmittedVertex) (placed : List SubmittedVertex) : Prop :=
  ∀ vertex ∈ placed, byId.get? vertex.id = some vertex

/-- A list of vertices in which every vertex comes once, behind its parents. -/
def ParentsFirst (placed : List SubmittedVertex) : Prop :=
  ∀ before vertex after, placed = before ++ vertex :: after →
    (∀ parent ∈ vertex.parents, ∃ u ∈ before, u.id = parent) ∧ ∀ u ∈ before, u.id ≠ vertex.id

/-- A new vertex can be placed behind its parents. -/
theorem ParentsFirst.append (h : ParentsFirst placed)
    (hpar : ∀ parent ∈ vertex.parents, ∃ u ∈ placed, u.id = parent)
    (hnew : ∀ u ∈ placed, u.id ≠ vertex.id) : ParentsFirst (placed ++ [vertex]) := by
  intro before v after heq
  rcases List.eq_nil_or_concat after with rfl | ⟨after, last, rfl⟩
  · obtain ⟨rfl, hv⟩ := List.append_inj' heq rfl
    obtain rfl := List.singleton_inj.mp hv
    exact ⟨hpar, hnew⟩
  · rw [List.concat_eq_append, ← List.cons_append, ← List.append_assoc] at heq
    exact h before v after (List.append_inj' heq rfl).1

/-- What placing vertices does to the list of those placed so far, while others are being
visited. -/
structure Placing (visiting : List String) (placed placed' : List SubmittedVertex) : Prop where
  kept : placed <+: placed'
  ordered : ParentsFirst placed → ParentsFirst placed'
  visited : ∀ x ∈ visiting, (∀ u ∈ placed, u.id ≠ x) → ∀ u ∈ placed', u.id ≠ x

theorem Placing.refl (visiting : List String) (placed : List SubmittedVertex) :
    Placing visiting placed placed :=
  ⟨List.prefix_rfl, id, fun _ _ h => h⟩

/-- Placing goes on. -/
theorem Placing.trans {a b c : List SubmittedVertex} (hab : Placing visiting a b)
    (hbc : Placing visiting b c) : Placing visiting a c where
  kept := hab.kept.trans hbc.kept
  ordered h := hbc.ordered (hab.ordered h)
  visited x hx h := hbc.visited x hx (hab.visited x hx h)

theorem Placing.mem (h : Placing visiting placed placed') (hid : ∃ u ∈ placed, u.id = id) :
    ∃ u ∈ placed', u.id = id := by
  obtain ⟨u, hu, huid⟩ := hid
  exact ⟨u, h.kept.subset hu, huid⟩

/-- **A visit places its vertex, and its parents before it.** -/
theorem placeVertex_places {byId : OrderedMap String SubmittedVertex}
    (hids : ∀ id vertex, byId.get? id = some vertex → vertex.id = id) {fuel : ℕ}
    (h : placeVertex byId fuel visiting placed id = ok placed') :
    Placing visiting placed placed' ∧ (∃ u ∈ placed', u.id = id) ∧
      (KnownAs byId placed → KnownAs byId placed') := by
  induction fuel generalizing visiting placed placed' id with
  | zero => cases h
  | succ fuel ih =>
    unfold placeVertex at h
    split at h
    · rename_i hplaced
      cases h
      obtain ⟨u, hu, huid⟩ := List.any_eq_true.mp hplaced
      exact ⟨.refl _ _, ⟨u, hu, beq_iff_eq.mp huid⟩, fun h => h⟩
    · rename_i hunp
      split at h
      · cases h
      rename_i hunv
      split at h
      · cases h
      rename_i vertex hver
      obtain ⟨mid, hmid, rfl⟩ := map_eq_ok.mp h
      have hplac : Placing (id :: visiting) placed mid :=
        Fallible.foldlM_ok (r := Placing (id :: visiting)) (.refl _) (fun _ _ _ => .trans)
          (fun _ _ _ _ hturn => (ih hturn).1) hmid
      have hpar : ∀ parent ∈ vertex.parents, ∃ u ∈ mid, u.id = parent :=
        Fallible.foldlM_forall (P := fun parent placed => ∃ u ∈ placed, u.id = parent)
          (fun _ _ _ hturn => (ih hturn).2.1) (fun _ _ _ _ hturn => (ih hturn).1.mem) hmid
      have hid := hids id vertex hver
      have hnew : ∀ u ∈ mid, u.id ≠ vertex.id := by
        rw [hid]
        refine hplac.visited id List.mem_cons_self fun u hu huid => hunp ?_
        exact List.any_eq_true.mpr ⟨u, hu, beq_iff_eq.mpr huid⟩
      refine ⟨⟨hplac.kept.trans (List.prefix_append _ _),
        fun h => (hplac.ordered h).append hpar hnew, fun x hx hfree u hu => ?_⟩,
        ⟨vertex, by simp, hid⟩, fun hknown => ?_⟩
      · rcases List.mem_append.mp hu with hu | hu
        · exact hplac.visited x (List.mem_cons_of_mem _ hx) hfree u hu
        obtain rfl := List.mem_singleton.mp hu
        rintro rfl
        exact hunv (List.contains_iff_mem.mpr (hid ▸ hx))
      · refine List.forall_mem_append.mpr ⟨?_, List.forall_mem_singleton.mpr (by rwa [hid])⟩
        exact Fallible.foldlM_invariant (fun _ _ _ _ hI hturn => (ih hturn).2.2 hI) hknown hmid

/-- **The order of a workflow** lists every vertex once, behind its parents. -/
theorem topologicalOrder_ok {vertices ordered : List SubmittedVertex}
    (h : topologicalOrder vertices = ok ordered) :
    ParentsFirst ordered ∧ (∀ vertex ∈ ordered, (verticesById vertices).get? vertex.id = some vertex) ∧
      ∀ vertex ∈ vertices, ∃ u ∈ ordered, u.id = vertex.id := by
  have hids : ∀ id vertex, (verticesById vertices).get? id = some vertex → vertex.id = id :=
    fun _ _ hget => (mem_of_verticesById hget).2
  have hplac : Placing [] [] ordered :=
    Fallible.foldlM_ok (r := Placing []) (.refl _) (fun _ _ _ => .trans)
      (fun _ _ _ _ h => (placeVertex_places hids h).1) h
  have hcov := Fallible.foldlM_forall (P := fun id placed => ∃ u ∈ placed, u.id = id)
    (fun _ _ _ h => (placeVertex_places hids h).2.1)
    (fun _ _ _ _ h => (placeVertex_places hids h).1.mem) h
  refine ⟨hplac.ordered (fun before vertex after heq => by simp at heq), ?_,
    fun vertex hver => hcov _ (List.mem_map_of_mem hver)⟩
  exact Fallible.foldlM_invariant (I := KnownAs (verticesById vertices))
    (fun _ _ _ _ hI h => (placeVertex_places hids h).2.2 hI) (fun _ hmem => by cases hmem) h

/-- **Every compiled draft is the draft of one vertex of the workflow.** -/
theorem compiled_origin {drafts : List EventDraft} (h : compileVertexDrafts workflow ctx = ok drafts)
    {draft : EventDraft} (hdraft : draft ∈ drafts) :
    ∃ vertex, (verticesById workflow.vertices).get? vertex.id = some vertex ∧
      compileVertex workflow ctx vertex = ok draft := by
  simp only [compileVertexDrafts, bind_eq_ok] at h
  obtain ⟨_, hord, hdraf⟩ := h
  obtain ⟨vertex, hver, hcom⟩ := Fallible.exists_of_mem_mapM hdraf hdraft
  exact ⟨vertex, (topologicalOrder_ok hord).2.1 vertex hver, hcom⟩

/-- Every vertex the workflow has under its own id is compiled. -/
theorem compiled_draft {drafts : List EventDraft} (h : compileVertexDrafts workflow ctx = ok drafts)
    {vertex : SubmittedVertex} (hver : (verticesById workflow.vertices).get? vertex.id = some vertex) :
    ∃ draft ∈ drafts, compileVertex workflow ctx vertex = ok draft := by
  simp only [compileVertexDrafts, bind_eq_ok] at h
  obtain ⟨_, hord, hdraf⟩ := h
  obtain ⟨-, hknown, hcov⟩ := topologicalOrder_ok hord
  obtain ⟨u, hu, hid⟩ := hcov vertex (mem_of_verticesById hver).1
  obtain rfl : u = vertex := Option.some.inj ((hknown u hu).symm.trans (hid ▸ hver))
  exact Fallible.exists_right_of_mem (Fallible.mapM_eq_ok.mp hdraf) hu

/-- **The payload of a compiled tool vertex** states the contract of its tool. -/
theorem compiled_tool {payload : ToolPayload} (h : vertexPayload ctx vertex = ok (.tool payload)) :
    ∃ tool input key confirmed contract, vertex.kind = .tool tool input key confirmed ∧
      (contractsById ctx.view).get? tool = some contract ∧
      payload.tool = tool ∧ payload.toolViewDigest = ctx.digest ∧
      payload.retryPolicy.maxAttempts = contract.retry.maxAttempts ∧
      ∃ key confirmInput cancelInput compensateInput,
        payload.txn = compileTxn contract key confirmInput cancelInput compensateInput := by
  unfold vertexPayload at h
  split at h
  · cases h
  · cases h
  · cases h
  rename_i tool input key confirmed hkind
  unfold compileTool at h
  split at h
  · cases h
  rename_i contract hcon
  simp only [bind_eq_ok, Except.ok.injEq, VertexPayload.tool.injEq] at h
  obtain ⟨_, -, confirmInput, -, cancelInput, -, compensateInput, -, rfl⟩ := h
  exact ⟨tool, input, key, confirmed, contract, hkind, hcon,
    (mem_of_contractsById hcon).2, rfl, rfl, _, _, _, _, rfl⟩

end Compiled

/-! ### Companions -/

theorem ne_empty_of_given {name : String} (h : (given (optionalName name)).isSome = true) :
    name ≠ "" := by
  rintro rfl
  simp [optionalName, given] at h

/-- A retry-safe companion of a contract is named. -/
theorem ne_empty_of_retrySafe {name : String} (h : registry.retrySafe (optionalName name) = true) :
    name ≠ "" := by
  refine ne_empty_of_given ?_
  unfold ToolRegistry.retrySafe at h
  cases hgiv : given (optionalName name) with
  | none => simp [hgiv] at h
  | some => rfl

/-- A contract without registry defects declares the companions its mode needs. -/
theorem declaresCompanions_of_validate {contract : ToolContract}
    (h : registry.validateDefinition contract.definition = []) (key : Option String)
    (confirmInput cancelInput compensateInput : Option Json) :
    (compileTxn contract key confirmInput cancelInput compensateInput).declaresCompanions = true := by
  have hdef : contract.definition.mode = contract.txn.mode := rfl
  have hcom : (compileTxn contract key confirmInput cancelInput compensateInput).mode =
      contract.txn.mode := rfl
  unfold ToolRegistry.validateDefinition at h
  unfold TransactionSpec.declaresCompanions
  cases hmode : contract.txn.mode with
  | plain => simp only [hcom, hmode]
  | saga =>
    simp only [hdef, hmode] at h
    simp only [hcom, hmode]
    split at h
    · rename_i hsafe
      simpa [compileTxn] using ne_empty_of_retrySafe hsafe
    · cases h
  | tcc =>
    simp only [hdef, hmode] at h
    simp only [hcom, hmode]
    split at h
    · rename_i hsafe
      simp only [Bool.and_eq_true] at hsafe
      obtain ⟨⟨hcon, hcan⟩, htim⟩ := hsafe
      have htim : 0 < contract.txn.tryTimeoutS := by
        by_contra hzero
        have hzero : contract.txn.tryTimeoutS = 0 := by omega
        simp [ToolContract.definition, hzero] at htim
      simp [compileTxn, ne_empty_of_retrySafe hcon, ne_empty_of_retrySafe hcan, htim]
    · cases h

/-- **Every compiled vertex declares the companions its mode needs**, under a registry without
defects. -/
theorem compiled_companions {ctx : CompileContext} (hload : loadToolRegistry ctx.view = ok registry)
    (hval : registry.validate = []) {payload : VertexPayload}
    (h : vertexPayload ctx vertex = ok payload) : payload.declaresCompanions = true := by
  cases payload with
  | tool payload =>
    obtain ⟨tool, -, -, -, contract, -, hcon, -, -, -, key, confirm, cancel, compensate,
      htxn⟩ := compiled_tool h
    have hdef : registry.definitions.get? tool = some contract.definition := by
      rw [loadToolRegistry_ok hload, hcon]
      rfl
    simp only [ToolRegistry.validate, List.flatMap_eq_nil_iff] at hval
    have hnone := hval contract.definition
      (List.mem_map_of_mem (OrderedMap.get?_eq_some_iff.mp hdef))
    change payload.txn.declaresCompanions = true
    rw [htxn]
    exact declaresCompanions_of_validate hnone key confirm cancel compensate
  | _ => rfl

end Flory
