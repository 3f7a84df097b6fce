import Flory.Workflow

/-!
# Submitting a Workflow

`WorkflowSubmitter.submit` up to its decision: a submission is normalized, resolved against
the run's tool view, checked against the scopes of the run as they stand under their lock,
together with every branch a bound router may later emit, and compiled. An admitted
submission is the batch of events that freezes it.

The slot an interposed router resolves its template by is a content address; it is
represented by what it addresses.

## Main results

* `submit_admitted`: what an admitted submission has passed.
* `exists_frozen`: a created draft that declares its companions is that of a frozen vertex.
-/

namespace Flory

open Except (error ok)
open Fallible (bind_eq_ok)

/-! ### What a freeze sees of its run -/

/-- `snapshotState`: the four states admission distinguishes. -/
def snapshotState (stored : ScopeState) (hasSealedTry : Bool) : SnapshotState :=
  match stored with
  | .committed => .committed
  | .cancelled => .cancelled
  | _ => if hasSealedTry then .halfOpen else .opened

/-- `admissionBlock`: why a scope refuses new work, when it does. -/
def admissionBlock (stored : ScopeState) (hasExpiredSealedTry fenced : Bool) :
    Option ScopeAdmissionBlock :=
  match stored with
  | .cancelling => some .cancelling
  | .suspended => some .suspended
  | .pivotInflight => some .pivotInflight
  | .pivotPassed => some .pivotPassed
  | _ =>
    if fenced ∧ stored = .opened then some .fenced
    else if hasExpiredSealedTry then some .expiredTry
    else none

/-- `rowToScopeSnapshot`. -/
def rowToScopeSnapshot (row : LockedScope) : ScopeSnapshot where
  scopeId := toString row.scopeId
  state := snapshotState row.state row.hasSealedTry
  pivotCount := row.pivotCount
  admissionBlock := admissionBlock row.state row.hasExpiredTry row.fenced

/-- `RunAdmissionContext`: what freeze admission knows of the run. -/
structure RunAdmissionContext where
  scopes : List ScopeSnapshot := []
  isCounterfactual : Bool := false
  brackets : OrderedMap String (List BracketRecord) := OrderedMap.empty

/-- `readBracketsWith`: every bracket under a business key or one of its generations. -/
def readBrackets (db : Db) (idempotencyKeys : List String) : OrderedMap String (List BracketRecord) :=
  OrderedMap.ofEntries <| idempotencyKeys.filterMap fun base =>
    match db.brackets.rowsWhere fun key _ =>
        key == base || (strip (base.toList ++ ['#']) key.toList).isSome with
    | [] => none
    | found => some (base, found.map fun entry => ⟨entry.1, entry.2.state⟩)

/-- `readAdmissionContextWith`. -/
def readAdmissionContext (db : Db) (runId : RunId) (idempotencyKeys : List String) :
    RunAdmissionContext where
  scopes := (lockRunScopes db runId).map rowToScopeSnapshot
  isCounterfactual := (db.runs.lookup runId).any fun run => run.seedFloor.isSome
  brackets := readBrackets db idempotencyKeys

/-! ### Admission beyond the structural rules -/

/-- `blockReason`. -/
def blockReason : ScopeAdmissionBlock → String
  | .expiredTry => "it holds a sealed try past its deadline"
  | .fenced =>
    "a member failed or a cancellation was requested, and it is fenced until that is decided"
  | .pivotInflight => "its pivot is inflight and its outcome is unresolved"
  | .pivotPassed => "its pivot has passed, so it runs only work admitted before it"
  | .cancelling => "it is cancelling"
  | .suspended => "it is suspended"

/-- `checkScopeAdmission`: the scopes of the run that admit no new work. -/
def checkScopeAdmission (existingScopes : List ScopeSnapshot) : List CheckViolation :=
  existingScopes.flatMap fun scope =>
    match scope.admissionBlock with
    | none => []
    | some block => [⟨.r12, "scope " ++ scope.scopeId ++ " admits no new work: " ++
      blockReason block, []⟩]

/-- `RouterPlacement`. -/
inductive RouterPlacement
  | atSavepoint
  | insideScope
  deriving DecidableEq, Repr

/-- Whether an ancestor scope is unclosed: neither an open nor a half-open scope is a
savepoint. -/
def ScopeSnapshot.unclosed (scope : ScopeSnapshot) : Bool :=
  scope.state == .opened || scope.state == .halfOpen

/-- `derivePlacement`. -/
def derivePlacement (existingScopes : List ScopeSnapshot) : RouterPlacement :=
  if existingScopes.any ScopeSnapshot.unclosed then .insideScope else .atSavepoint

/-- `AdmissibleBranch`: one branch of a pinned template. -/
structure AdmissibleBranch where
  condition : String := ""
  subDag : SubDagProposal
  opensScope : Bool
  hasPivot : Bool
  maxEffect : EffectClass

/-- `SlotPlacementContext`. -/
structure SlotPlacementContext where
  placement : RouterPlacement
  isReadOnlyContext : Bool
  roleToolView : ToolRegistry

/-- The placement half of the rules for one branch. -/
def placementViolations (slot : SlotPlacementContext) (existingScopes : List ScopeSnapshot)
    (index : ℕ) (branch : AdmissibleBranch) : List CheckViolation :=
  let name := "branch " ++ toString index
  match slot.placement with
  | .insideScope =>
    violationIf branch.opensScope .r12
      (name ++ " cannot open a fresh scope inside an active one") [] ++
    match existingScopes.find? fun scope => scope.state == .halfOpen with
    | some active =>
      violationIf (branch.hasPivot && decide (0 < active.pivotCount)) .r3
        (name ++ " introduces a second pivot into scope " ++ active.scopeId) []
    | none => []
  | .atSavepoint =>
    violationIf (branch.maxEffect != .none && !branch.opensScope) .r10
      (name ++ " has a side effect but declares no scope") []

/-- The tools of a branch that the run's view does not know. -/
def missingTools (slot : SlotPlacementContext) (index : ℕ) (branch : AdmissibleBranch) :
    List CheckViolation :=
  branch.subDag.vertices.flatMap fun vertex =>
    match given vertex.tool with
    | some tool =>
      violationIf (vertex.kind == .tool && !slot.roleToolView.definitions.has tool) .r13
        ("branch " ++ toString index ++ " references " ++ tool ++
          ", absent from this run's role-scoped tool view") [vertex.id]
    | none => []

/-- The judgement of one branch. -/
def branchViolations (slot : SlotPlacementContext) (existingScopes : List ScopeSnapshot)
    (index : ℕ) (branch : AdmissibleBranch) : Except String (List CheckViolation) :=
  if slot.isReadOnlyContext ∧ branch.maxEffect ≠ .none then
    ok [⟨.r10, "branch " ++ toString index ++ " emits a side effect in a read-only slot", []⟩]
  else
    match missingTools slot index branch with
    | [] =>
      (checkSubDag branch.subDag slot.roleToolView existingScopes).map fun found =>
        placementViolations slot existingScopes index branch ++
          found.map fun violation =>
            { violation with message := "branch " ++ toString index ++ ": " ++ violation.message }
    | missing => ok missing

/-- `checkFreezeAdmission`: every branch of a template is judged where it will land. -/
def checkFreezeAdmission (branches : List AdmissibleBranch) (slot : SlotPlacementContext)
    (existingScopes : List ScopeSnapshot) : Except String (List CheckViolation) := do
  let unclosed := match existingScopes.find? ScopeSnapshot.unclosed with
    | some scope => violationIf (slot.placement == .atSavepoint) .r13
        ("router slot declares at_savepoint while ancestor scope " ++ scope.scopeId ++
          " is unclosed") []
    | none => []
  let found ← (branches.mapIdx fun i branch => (i, branch)).mapM fun entry =>
    branchViolations slot existingScopes entry.1 entry.2
  ok (unclosed ++ found.flatten)

/-! ### Bound routers -/

/-- `PublishedRuleTemplate`, with the fields a freeze reads. -/
structure PublishedRuleTemplate where
  templateRef : String
  branches : List AdmissibleBranch

/-- What the coordinate of an interposed router is the address of. -/
structure Slot where
  workflowType : String
  upstream : List String
  target : String

/-- `TemplateResolver`; without templates every router is unbound. -/
structure TemplateResolver where
  resolve : String → Option PublishedRuleTemplate := fun _ => none
  resolveSlot : Slot → Option PublishedRuleTemplate := fun _ => none

/-- The planner an interposed router stands before, read off its id. -/
def interposedTarget (id : String) : Option String :=
  (strip interposedRouterSuffix.toList.reverse id.toList.reverse).map fun rest =>
    String.ofList rest.reverse

/-- `routerSlotIds`, for one router: only an interposed one has a slot. -/
def routerSlot (workflow : WorkflowSubmission) (vertex : SubmittedVertex) : Option Slot :=
  match vertex.kind with
  | .router templateRef =>
    if (given templateRef).isSome then none
    else (interposedTarget vertex.id).map fun target =>
      { workflowType := workflow.workflowType
        upstream := (vertex.parents.filterMap fun parent =>
          match (verticesById workflow.vertices).get? parent with
          | some ⟨_, _, _, .tool tool _ _ _⟩ => some tool
          | _ => none).insertionSort fun a b => a ≤ b
        target := target }
  | _ => none

/-- The template a router resolves: by its pinned reference first, then by its slot. -/
def boundTemplate (templates : TemplateResolver) (workflow : WorkflowSubmission)
    (vertex : SubmittedVertex) : Option PublishedRuleTemplate :=
  match vertex.kind with
  | .router templateRef =>
    match given templateRef with
    | some reference => templates.resolve reference
    | none => (routerSlot workflow vertex).bind templates.resolveSlot
  | _ => none

/-- `bindRouters`: the routers of a workflow, with the template each one resolves. -/
def bindRouters (templates : TemplateResolver) (workflow : WorkflowSubmission) :
    OrderedMap String (Option PublishedRuleTemplate) :=
  OrderedMap.ofEntries <|
    (workflow.vertices.filter fun vertex => vertex.kind.vertexKind == .router).map fun vertex =>
      (vertex.id, boundTemplate templates workflow vertex)

/-- The judgement of one router: an unbound one has no branch to judge. -/
def routerViolations (slot : SlotPlacementContext) (scopes : List ScopeSnapshot)
    (entry : String × Option PublishedRuleTemplate) : Except String (List CheckViolation) :=
  match entry.2 with
  | none => ok []
  | some template => do
      let found ← checkFreezeAdmission template.branches slot scopes
      ok (found.map fun violation => { violation with
        message := entry.1 ++ " pins " ++ template.templateRef ++ ": " ++ violation.message })

/-- `admissionViolations`: the branches of every bound router, judged at its placement. -/
def admissionViolations (bound : OrderedMap String (Option PublishedRuleTemplate))
    (slot : SlotPlacementContext) (scopes : List ScopeSnapshot) :
    Except String (List CheckViolation) :=
  (bound.entries.mapM (routerViolations slot scopes)).map List.flatten

/-! ### The decision -/

/-- `ResolvedToolView`: a published view with the registry loaded from it. -/
structure ResolvedToolView where
  digest : String
  tools : List ToolContract
  registry : ToolRegistry
  loaded : loadToolRegistry tools = ok registry

/-- `resolutionViolations`: the tools the view does not know. -/
def resolutionViolations (workflow : WorkflowSubmission) (resolved : ResolvedToolView) :
    List CheckViolation :=
  workflow.vertices.flatMap fun vertex =>
    match vertex.kind with
    | .tool tool _ _ _ => violationIf (!resolved.registry.definitions.has tool) .r13
        (vertex.id ++ " names " ++ tool ++ ", absent from this run's role-scoped tool view")
        [vertex.id]
    | _ => []

/-- `businessKeys`: the keys a submission's calls are frozen under, before generations. -/
def businessKeys (workflow : WorkflowSubmission) (resolved : ResolvedToolView) : List String :=
  workflow.vertices.filterMap fun vertex =>
    match vertex.kind with
    | .tool tool input idempotencyKey _ =>
      ((contractsById resolved.tools).get? tool).bind fun contract =>
        match baseIdempotencyKey vertex.id input idempotencyKey contract with
        | ok key => key
        | error _ => none
    | _ => none

/-- `RejectionStage`: which gate refused a submission. -/
inductive RejectionStage
  | resolution
  | registry
  | admission
  deriving DecidableEq, Repr

/-- `FreezeDecision`: the events to append, or the refusal with its reasons. -/
inductive FreezeDecision
  | admitted (events : List EventDraft)
  | refused (stage : RejectionStage) (violations : List CheckViolation)

/-- Whether a violation is one of the published catalogue. -/
def CheckViolation.isRegistry (violation : CheckViolation) : Bool :=
  violation.rule == .r4 || violation.rule == .r6

/-- The decision a freeze takes under the scope lock. -/
def decideFreeze (context : RunAdmissionContext) (workflow : WorkflowSubmission)
    (resolved : ResolvedToolView) (templates : TemplateResolver) (newId : ℕ → ℕ)
    (proposedSeq : ℕ) : Except String FreezeDecision :=
  match checkScopeAdmission context.scopes with
  | [] => do
      match ← checkSubDag (lowerToProposal workflow) resolved.registry context.scopes with
      | [] =>
        let slot := ⟨derivePlacement context.scopes, context.isCounterfactual, resolved.registry⟩
        match ← admissionViolations (bindRouters templates workflow) slot context.scopes with
        | [] =>
          let drafts ← compileVertexDrafts workflow
            ⟨resolved.tools, resolved.digest, newId, context.brackets⟩
          ok (.admitted ({ body := .subgraph (.frozen proposedSeq) } :: drafts))
        | found => ok (.refused .admission found)
      | found => ok (.refused
          (if found.all CheckViolation.isRegistry then .registry else .admission) found)
  | blocked => ok (.refused .admission blocked)

/-- `submit`: the decision on a submission into a run, over the database its freeze sees. The
proposal and a rejection are appended around it. -/
def submit (db : Db) (runId : RunId) (submission : WorkflowSubmission)
    (resolved : ResolvedToolView) (templates : TemplateResolver) (newId : ℕ → ℕ)
    (proposedSeq : ℕ) : Except String FreezeDecision := do
  let (workflow, _) ← normalizeWorkflow submission
  match resolutionViolations workflow resolved with
  | [] =>
    decideFreeze (readAdmissionContext db runId (businessKeys workflow resolved)) workflow
      resolved templates newId proposedSeq
  | unresolvable => ok (.refused .resolution unresolvable)

/-! ### What an admitted submission has passed -/

section Admitted

variable {context : RunAdmissionContext} {workflow : WorkflowSubmission}
  {resolved : ResolvedToolView} {templates : TemplateResolver} {newId : ℕ → ℕ} {proposedSeq : ℕ}
  {events : List EventDraft}

/-- **An admitted freeze** found every scope admitting, its proposal accepted and every branch
of its routers admissible, and is the compiled workflow. -/
structure FreezePassed (context : RunAdmissionContext) (workflow : WorkflowSubmission)
    (resolved : ResolvedToolView) (templates : TemplateResolver) (newId : ℕ → ℕ)
    (drafts : List EventDraft) : Prop where
  scopes : checkScopeAdmission context.scopes = []
  accepted : checkSubDag (lowerToProposal workflow) resolved.registry context.scopes = ok []
  branches : admissionViolations (bindRouters templates workflow)
    ⟨derivePlacement context.scopes, context.isCounterfactual, resolved.registry⟩ context.scopes = ok []
  compiled : compileVertexDrafts workflow
    ⟨resolved.tools, resolved.digest, newId, context.brackets⟩ = ok drafts

/-- Every gate of an admitted freeze. -/
theorem decideFreeze_admitted
    (h : decideFreeze context workflow resolved templates newId proposedSeq = ok (.admitted events)) :
    ∃ drafts, events = { body := .subgraph (.frozen proposedSeq) } :: drafts ∧
      FreezePassed context workflow resolved templates newId drafts := by
  unfold decideFreeze at h
  split at h
  · rename_i hscop
    obtain ⟨_, hfound, h⟩ := bind_eq_ok.mp h
    split at h
    · obtain ⟨_, hbran, h⟩ := bind_eq_ok.mp h
      split at h
      · obtain ⟨drafts, hdraf, h⟩ := bind_eq_ok.mp h
        obtain rfl := FreezeDecision.admitted.inj (Except.ok.inj h)
        exact ⟨drafts, rfl, hscop, hfound, hbran, hdraf⟩
      · cases h
    · cases h
  · cases h

/-- The decision behind an admitted submission. -/
theorem submit_admitted {db : Db} {runId : RunId} {submission : WorkflowSubmission}
    (h : submit db runId submission resolved templates newId proposedSeq = ok (.admitted events)) :
    ∃ workflow interposed drafts, normalizeWorkflow submission = ok (workflow, interposed) ∧
      events = { body := .subgraph (.frozen proposedSeq) } :: drafts ∧
      FreezePassed (readAdmissionContext db runId (businessKeys workflow resolved)) workflow resolved
        templates newId drafts := by
  obtain ⟨⟨workflow, interposed⟩, hwor, h⟩ := bind_eq_ok.mp h
  dsimp only at h
  split at h
  · obtain ⟨drafts, heven, hpas⟩ := decideFreeze_admitted h
    exact ⟨workflow, interposed, drafts, hwor, heven, hpas⟩
  · cases h

/-- A `vertex/created` draft as a vertex to freeze, when it declares its companions. -/
def FrozenVertex.ofDraft? (draft : EventDraft) : Option FrozenVertex :=
  match draft.body, draft.vertexId with
  | .vertexCreated payload, some v =>
    if h : payload.declaresCompanions = true then
      some ⟨v, draft.parentRefs, draft.scopeId, payload, h⟩
    else none
  | _, _ => none

/-- The vertices an admitted batch freezes. -/
def frozenVertices (events : List EventDraft) : List FrozenVertex :=
  events.filterMap FrozenVertex.ofDraft?

/-- The draft of a compiled vertex. -/
theorem compileVertex_ok {ctx : CompileContext} {vertex : SubmittedVertex} {draft : EventDraft}
    (h : compileVertex workflow ctx vertex = ok draft) :
    ∃ payload, vertexPayload ctx vertex = ok payload ∧
      draft = { body := .vertexCreated payload
                vertexId := (vertexIds workflow ctx.newId).get? vertex.id
                parentRefs := if vertex.parents = [] then workflow.attachTo
                  else vertex.parents.filterMap (vertexIds workflow ctx.newId).get?
                scopeId := (given vertex.scope).bind (scopeIds workflow ctx.newId).get? } := by
  unfold compileVertex at h
  cases hgiv : given vertex.scope with
  | none =>
    simp only [hgiv, bind_eq_ok, Except.ok.injEq] at h
    obtain ⟨scopeId, rfl, payload, hpay, rfl⟩ := h
    exact ⟨payload, hpay, rfl⟩
  | some scope =>
    cases hid : (scopeIds workflow ctx.newId).get? scope with
    | none =>
      simp only [hgiv, hid, bind_eq_ok] at h
      obtain ⟨scopeId, hscope, -⟩ := h
      cases hscope
    | some =>
      simp only [hgiv, hid, bind_eq_ok, Except.ok.injEq] at h
      obtain ⟨scopeId, rfl, payload, hpay, rfl⟩ := h
      exact ⟨payload, hpay, by rw [Option.bind_some, hid]⟩

/-- A vertex of a workflow has an id. -/
theorem vertexIds_isSome {vertex : SubmittedVertex} (h : vertex ∈ workflow.vertices)
    (newId : ℕ → ℕ) : ((vertexIds workflow newId).get? vertex.id).isSome :=
  OrderedMap.isSome_get?_mapIdx h

theorem scopeIds_isSome {scope : ProposalScope} (h : scope ∈ workflow.scopes) (newId : ℕ → ℕ) :
    ((scopeIds workflow newId).get? scope.id).isSome :=
  OrderedMap.isSome_get?_mapIdx h

/-- A created draft that declares its companions is the draft of a frozen vertex. -/
theorem exists_frozen {draft : EventDraft} {payload : VertexPayload} {v : VertexId}
    (hbody : draft.body = .vertexCreated payload) (hv : draft.vertexId = some v)
    (hplain : draft.ignorable = false) (h : payload.declaresCompanions = true) :
    FrozenVertex.ofDraft? draft = some ⟨v, draft.parentRefs, draft.scopeId, payload, h⟩ ∧
      FrozenVertex.draft ⟨v, draft.parentRefs, draft.scopeId, payload, h⟩ = draft := by
  obtain ⟨_, _, _, _, _⟩ := draft
  subst hbody hv hplain
  exact ⟨dif_pos h, rfl⟩

end Admitted

/-! ### A catalogue

The contracts concrete submissions are written with. -/

/-- A try-confirm-cancel contract over orders. -/
def shopTry (toolId : String) (idempotentRetryable : Bool) : ToolContract where
  toolId := toolId
  txn := { effectClass := .reversible, mode := .tcc, idempotencyKeyPath := "$.order",
           idempotentRetryable := idempotentRetryable, tryTimeoutS := 60,
           confirmTool := "confirm", confirmArguments := [("order", "$.order")],
           cancelTool := "release", cancelArguments := [("order", "$.order")] }

/-- The tools of a small shop. -/
def shopTools : List ToolContract :=
  [shopTry "reserve" false, shopTry "book" true,
   { toolId := "confirm"
     txn := { effectClass := .none, mode := .plain, idempotentRetryable := true } },
   { toolId := "release"
     compensationStyle := .delta
     txn := { effectClass := .none, mode := .plain, idempotentRetryable := true } },
   { toolId := "pay", txn := { effectClass := .irreversible, mode := .plain } },
   { toolId := "hold"
     txn := { effectClass := .reversible, mode := .plain, compensateTool := "release",
              compensateArguments := [("order", "$.order")] } },
   { toolId := "ship"
     txn := { effectClass := .bufferable, mode := .plain, idempotentRetryable := true } }]

theorem shopTools_admitted : ∀ tool ∈ shopTools, Admitted (fun _ _ => none) shopTools tool := by
  decide +kernel

/-- A view, when its registry can be loaded. -/
def ResolvedToolView.ofTools? (digest : String) (tools : List ToolContract) :
    Option ResolvedToolView :=
  match h : loadToolRegistry tools with
  | ok registry => some ⟨digest, tools, registry, h⟩
  | error _ => none

/-- The view of the shop. -/
def shopView : ResolvedToolView :=
  (ResolvedToolView.ofTools? "shop" shopTools).get (by decide +kernel)

/-- A call of a shop tool for one order. -/
def shopCall (id tool : String) (parents : List String := []) (scope : String := "S") :
    SubmittedVertex where
  id := id
  parents := parents
  scope := some scope
  kind := .tool tool (.obj [("order", .str id)]) none false

/-- The vertices a submission freezes into a run of the shop, with ids from a number on. -/
def shopFreeze (db : Db) (runId : RunId) (submission : WorkflowSubmission) (start : ℕ := 10) :
    List FrozenVertex :=
  match submit db runId submission shopView {} (start + ·) 0 with
  | .ok (.admitted events) => frozenVertices events
  | _ => []

/-- Whether a submission over the catalogue is admitted. -/
def shopAdmits (db : Db) (runId : RunId) (submission : WorkflowSubmission) (start : ℕ := 10) :
    Bool :=
  match submit db runId submission shopView {} (start + ·) 0 with
  | .ok (.admitted _) => true
  | _ => false

/-- The vertices frozen for an admitted submission are those of its events. -/
theorem shopFreeze_of_admits {db : Db} {runId : RunId} {submission : WorkflowSubmission}
    {start : ℕ} (h : shopAdmits db runId submission start = true) :
    ∃ events, submit db runId submission shopView {} (start + ·) 0 = .ok (.admitted events) ∧
      shopFreeze db runId submission start = frozenVertices events := by
  unfold shopAdmits at h
  unfold shopFreeze
  split at h
  case h_1 events hsub =>
    rw [hsub]
    exact ⟨events, rfl, rfl⟩
  case h_2 => cases h

/-- Whether a submission is admitted with events that pass a test. -/
def admitsWith (decision : Except String FreezeDecision) (test : List EventDraft → Bool) : Bool :=
  match decision with
  | .ok (.admitted events) => test events
  | _ => false

/-- The events of a submission that is admitted with events that meet a condition. -/
theorem exists_of_admitsWith (decision : Except String FreezeDecision) {P : List EventDraft → Prop}
    [DecidablePred P] (h : admitsWith decision (fun events => decide (P events)) = true) :
    ∃ events, decision = ok (.admitted events) ∧ P events := by
  unfold admitsWith at h
  split at h
  · exact ⟨_, rfl, of_decide_eq_true h⟩
  · cases h

/-- A database with one run. -/
def oneRun : Db :=
  (World.after .standard [.createRun 1]).db

end Flory
