import Flory.Closure
import Flory.Fallible
import Flory.Schema

/-!
# The Check Rules

The Engine's admission of a proposed sub-DAG (`checkSubDag`): the registry of tools it is
judged against, the graph context it is judged in, and the rules R1 to R14. A proposal that
cannot be read at all (an unknown tool or parent, a cycle, a tool on a vertex that is no
tool call) is an error; every other defect is a violation, and a proposal without one is
accepted.

The rules are lists of violations in the order in which the checker finds them; the first
of several that name the same rule and vertices is kept.

## Main results

* `context_ancestors`, `context_descendants`: the context holds the ancestors and the
  descendants of every vertex, along the parents the proposal declares.
* `checkSubDag_accepted`: an accepted proposal violates no rule.
* `retryable_of_accepted`: a member of a scope behind its pivot is retry-safe (R1).
* `undoable_of_accepted`: a member of a scope before its pivot is undoable (R2).
-/

namespace Flory

open Except (error ok)
open Fallible (bind_eq_ok map_eq_ok mapError_eq_ok)

variable {id x b : String} {m : OrderedMap String (List String)}

/-! ### Tools -/

/-- `ToolDefinition`: the static metadata of a tool. -/
structure ToolDefinition where
  name : String
  effectClass : EffectClass
  mode : Mode
  idempotentRetryable : Bool
  footprint : List String := []
  writes : List String := []
  compensateTool : Option String := none
  confirmTool : Option String := none
  cancelTool : Option String := none
  tryTimeoutS : Option ℕ := none
  deriving DecidableEq, Repr

/-- An optional string that is given: an empty one counts as absent. -/
def given (value : Option String) : Option String :=
  value.filter fun s => s != ""

/-- `RuleCode`. -/
inductive RuleCode
  | r1 | r2 | r3 | r4 | r5 | r6 | r7 | r8 | r9 | r10 | r11 | r12 | r13 | r14
  deriving DecidableEq, Repr

/-- `CheckViolation`: one deterministic admission violation. -/
structure CheckViolation where
  rule : RuleCode
  message : String
  vertices : List String
  deriving DecidableEq, Repr

/-- `ToolRegistry`: the tools of one view, each under its name. -/
structure ToolRegistry where
  definitions : OrderedMap String ToolDefinition
  named : ∀ name definition, definitions.get? name = some definition → definition.name = name

namespace ToolRegistry

/-- The empty registry. -/
def empty : ToolRegistry where
  definitions := OrderedMap.empty
  named := by simp [OrderedMap.get?, OrderedMap.empty]

/-- `register`: a tool name is registered once. -/
def register (registry : ToolRegistry) (definition : ToolDefinition) :
    Except String ToolRegistry :=
  if registry.definitions.has definition.name then
    error ("tool already registered: " ++ definition.name)
  else ok
    { definitions := registry.definitions.set definition.name definition
      named := by
        intro name found h
        rw [OrderedMap.get?_set] at h
        split at h
        · rename_i heq
          rw [← Option.some.inj h, heq]
        · exact registry.named name found h }

/-- `get`: one registered definition. -/
def get (registry : ToolRegistry) (name : String) : Except String ToolDefinition :=
  match registry.definitions.get? name with
  | some definition => ok definition
  | none => error ("unknown tool: " ++ name)

/-- Whether a companion is given, registered and retry-safe. -/
def retrySafe (registry : ToolRegistry) (companion : Option String) : Bool :=
  ((given companion).bind registry.definitions.get?).any ToolDefinition.idempotentRetryable

/-- The registry defects of one tool: R4 of a saga, R6 of a try-confirm-cancel. -/
def validateDefinition (registry : ToolRegistry) (definition : ToolDefinition) :
    List CheckViolation :=
  match definition.mode with
  | .plain => []
  | .saga =>
    if registry.retrySafe definition.compensateTool then []
    else [⟨.r4, definition.name ++ " requires a registered idempotent compensation tool", []⟩]
  | .tcc =>
    if registry.retrySafe definition.confirmTool && registry.retrySafe definition.cancelTool &&
        definition.tryTimeoutS.any (fun s => decide (0 < s)) then []
    else [⟨.r6, definition.name ++
      " requires idempotent confirm/cancel tools and a positive timeout", []⟩]

/-- `validate`: the registry defects governed by R4 and R6. -/
def validate (registry : ToolRegistry) : List CheckViolation :=
  registry.definitions.values.flatMap registry.validateDefinition

end ToolRegistry

/-! ### Proposals -/

/-- `VertexKind`. -/
inductive VertexKind
  | planner
  | tool
  | router
  | confirmationBarrier
  deriving DecidableEq, Repr

/-- A vertex kind as the event log spells it. -/
def VertexKind.name : VertexKind → String
  | .planner => "planner"
  | .tool => "tool"
  | .router => "router"
  | .confirmationBarrier => "confirmation-barrier"

/-- `ProposalVertex`. -/
structure ProposalVertex where
  id : String
  parents : List String
  kind : VertexKind
  tool : Option String := none
  scopeId : Option String := none
  confirmedOutput : Bool := false
  deriving DecidableEq, Repr

/-- `ProposalScope`: a declared transaction scope and its members. -/
structure ProposalScope where
  id : String
  members : List String
  deriving DecidableEq, Repr

/-- `SubDagProposal`. -/
structure SubDagProposal where
  vertices : List ProposalVertex
  scopes : List ProposalScope
  deriving DecidableEq, Repr

/-- How far an ancestor scope has come at a freeze. -/
inductive SnapshotState
  | opened
  | halfOpen
  | committed
  | cancelled
  deriving DecidableEq, Repr

/-- `ScopeAdmissionBlock`: why a scope takes no new work. -/
inductive ScopeAdmissionBlock
  | fenced
  | cancelling
  | suspended
  | pivotInflight
  | pivotPassed
  | expiredTry
  deriving DecidableEq, Repr

/-- `ScopeSnapshot`: one ancestor scope as it stands at a freeze. -/
structure ScopeSnapshot where
  scopeId : String
  state : SnapshotState
  pivotCount : ℕ
  admissionBlock : Option ScopeAdmissionBlock := none
  deriving DecidableEq, Repr

/-! ### The graph context -/

/-- `GraphContext`. -/
structure GraphContext where
  vertices : OrderedMap String ProposalVertex
  tools : OrderedMap String ToolDefinition
  ancestors : OrderedMap String (List String)
  descendants : OrderedMap String (List String)
  scopeMembers : OrderedMap String (List String)

/-- `intersects`. -/
def intersects (first second : List String) : Bool :=
  second.any fun value => first.contains value

/-- `isUndoable`. -/
def isUndoable (tool : ToolDefinition) : Bool :=
  tool.effectClass == .none || tool.effectClass == .bufferable || tool.mode == .tcc ||
    (given tool.compensateTool).isSome

/-- The tools of the vertices read so far, with those of one more: only tool vertices have
one, and any other vertex that names one is refused. -/
def addTool (registry : ToolRegistry) (tools : OrderedMap String ToolDefinition)
    (vertex : ProposalVertex) : Except String (OrderedMap String ToolDefinition) :=
  match vertex.kind, given vertex.tool with
  | .tool, some tool => (registry.get tool).map fun definition => tools.set vertex.id definition
  | .tool, none => ok tools
  | kind, some _ => error (vertex.id ++ " is a " ++ kind.name ++ " and must not name a tool")
  | _, none => ok tools

/-- The parents of a vertex id. -/
def parentsOf (vertices : OrderedMap String ProposalVertex) (id : String) : List String :=
  ((vertices.get? id).map ProposalVertex.parents).getD []

/-- The error of a search that stopped. -/
def stopMessage : Closure.Stop String → String
  | .cycle id => "proposal contains a cycle at " ++ id
  | .unknown parent child => "unknown parent " ++ parent ++ " for " ++ child

/-- The elements listed under an id. -/
def listedUnder (m : OrderedMap String (List String)) (id : String) : List String :=
  (m.get? id).getD []

/-- The descendants, with one vertex added under one of its ancestors. -/
def addDescendant (id : String) (descendants : OrderedMap String (List String))
    (ancestor : String) : OrderedMap String (List String) :=
  descendants.set ancestor (OrderedSet.add (listedUnder descendants ancestor) id)

/-- The descendants of every vertex, from the ancestors of every vertex. -/
def invertAncestors (ids : List String) (ancestors : OrderedMap String (List String)) :
    OrderedMap String (List String) :=
  ancestors.entries.foldl (fun descendants entry =>
      entry.2.foldl (addDescendant entry.1) descendants)
    (OrderedMap.ofEntries (ids.map fun id => (id, [])))

/-- `buildContext`. -/
def buildContext (proposal : SubDagProposal) (registry : ToolRegistry) :
    Except String GraphContext := do
  let vertices := OrderedMap.ofEntries (proposal.vertices.map fun vertex => (vertex.id, vertex))
  let tools ← proposal.vertices.foldlM (addTool registry) OrderedMap.empty
  let ancestors ← (Closure.closure vertices.has (parentsOf vertices) (vertices.keys.length + 1)
    vertices.keys OrderedMap.empty).mapError stopMessage
  ok
    { vertices := vertices
      tools := tools
      ancestors := ancestors
      descendants := invertAncestors vertices.keys ancestors
      scopeMembers := OrderedMap.ofEntries
        (proposal.scopes.map fun scope => (scope.id, OrderedSet.ofList scope.members)) }

namespace GraphContext

variable (context : GraphContext)

/-- The ancestors of a vertex. -/
def ancestorsOf (id : String) : List String :=
  listedUnder context.ancestors id

/-- The descendants of a vertex. -/
def descendantsOf (id : String) : List String :=
  listedUnder context.descendants id

/-- The members of a scope. -/
def membersOf (id : String) : List String :=
  listedUnder context.scopeMembers id

/-- The scope a vertex declares. -/
def scopeOf (id : String) : Option String :=
  (context.vertices.get? id).bind ProposalVertex.scopeId

/-- The relation of being an ancestor, along the parents of the vertices. -/
abbrev Before : String → String → Prop :=
  Closure.Ancestor (parentsOf context.vertices)

/-- `pivotIds`. -/
def pivotIds : List String :=
  (context.tools.entries.filter fun entry => entry.2.effectClass == .irreversible).map Prod.fst

/-- `hasConfirmationBarrier`: a barrier of two parents or more before all of the pivots. -/
def hasConfirmationBarrier (pivots : List String) : Bool :=
  context.vertices.values.any fun vertex => vertex.kind == .confirmationBarrier &&
    decide (2 ≤ vertex.parents.length) &&
    pivots.all fun pivot => (context.ancestorsOf pivot).contains vertex.id

end GraphContext

/-! ### The rules -/

section Rules

variable (context : GraphContext)

/-- A violation, when there is one. -/
def violationIf (found : Bool) (rule : RuleCode) (message : String) (vertices : List String) :
    List CheckViolation :=
  if found then [⟨rule, message, vertices⟩] else []

/-- R10: a side effect is bounded by a scope. -/
def ruleR10 : List CheckViolation :=
  context.tools.entries.flatMap fun (vertexId, tool) =>
    violationIf (tool.effectClass != .none && (given (context.scopeOf vertexId)).isNone) .r10
      (vertexId ++ " has a side effect but no scope") [vertexId]

/-- R2 and R1: a member before the pivot is undoable, one behind it is retry-safe. -/
def memberRules (pivotId memberId : String) : List CheckViolation :=
  match context.tools.get? memberId with
  | none => []
  | some tool =>
    violationIf ((context.ancestorsOf pivotId).contains memberId &&
        tool.effectClass != .none && !isUndoable tool) .r2
      (memberId ++ " is not undoable before pivot " ++ pivotId) [memberId, pivotId] ++
    violationIf ((context.descendantsOf pivotId).contains memberId &&
        !tool.idempotentRetryable) .r1
      (memberId ++ " is not retry-safe after pivot " ++ pivotId) [pivotId, memberId]

/-- R11: a reversible predecessor that shares the pivot's footprint belongs to its scope. -/
def ruleR11 (scopeId pivotId : String) : List CheckViolation :=
  (context.ancestorsOf pivotId).flatMap fun ancestorId =>
    match context.tools.get? ancestorId, context.tools.get? pivotId with
    | some ancestor, some pivot =>
      violationIf (ancestor.effectClass == .reversible &&
          intersects ancestor.footprint pivot.footprint &&
          !(context.membersOf scopeId).contains ancestorId) .r11
        (scopeId ++ " omits required predecessor " ++ ancestorId) [ancestorId, pivotId]
    | _, _ => []

/-- The pivots of a scope. -/
def scopePivots (scopeId : String) : List String :=
  context.pivotIds.filter fun id => (context.membersOf scopeId).contains id

/-- The rules of one scope: R3, and R2, R1 and R11 for each of its pivots. -/
def scopeRules (scope : ProposalScope) : List CheckViolation :=
  violationIf (decide (1 < (scopePivots context scope.id).length)) .r3
    (scope.id ++ " contains more than one pivot") (scopePivots context scope.id) ++
  (scopePivots context scope.id).flatMap fun pivotId =>
    (context.membersOf scope.id).flatMap (memberRules context pivotId) ++
      ruleR11 context scope.id pivotId

/-- R12 and R3 across freezes, for a proposal that contains a router. -/
def routerRules (proposal : SubDagProposal) (existingScopes : List ScopeSnapshot) :
    List CheckViolation :=
  if context.vertices.values.any fun vertex => vertex.kind == .router then
    proposal.scopes.flatMap fun scope =>
      (match existingScopes.filter fun existing => existing.state == .halfOpen with
        | halfOpen :: _ =>
          violationIf (!(existingScopes.map ScopeSnapshot.scopeId).contains scope.id) .r12
            (scope.id ++ " opens a fresh scope inside half-open scope " ++ halfOpen.scopeId)
            scope.members
        | [] => []) ++
      (match existingScopes.find? fun existing => existing.scopeId == scope.id with
        | some existing =>
          violationIf (decide (1 < existing.pivotCount + (scopePivots context scope.id).length))
            .r3 (scope.id ++ " already holds a pivot in this run's scope snapshot")
            (scopePivots context scope.id)
        | none => [])
  else []

/-- The pairs of a list, each element with every later one. -/
def pairs {α : Type} : List α → List (α × α)
  | [] => []
  | first :: rest => rest.map (Prod.mk first) ++ pairs rest

/-- R5: parallel pivots are behind a confirmation barrier. -/
def ruleR5 : List CheckViolation :=
  (pairs context.pivotIds).flatMap fun (first, second) =>
    violationIf (!(context.ancestorsOf first).contains second &&
        !(context.ancestorsOf second).contains first &&
        !context.hasConfirmationBarrier [first, second]) .r5
      ("parallel pivots " ++ first ++ " and " ++ second ++ " require a confirmation barrier")
      [first, second]

/-- R7: nothing reads the unconfirmed output of a call in another scope. -/
def ruleR7 : List CheckViolation :=
  context.vertices.entries.flatMap fun (childId, child) =>
    child.parents.flatMap fun parentId =>
      match context.vertices.get? parentId with
      | none => []
      | some parent =>
        violationIf (parent.kind == .tool && (given parent.scopeId).isSome &&
            (given child.scopeId).isSome && parent.scopeId != child.scopeId &&
            (context.tools.get? parentId).map ToolDefinition.effectClass != some .none &&
            !parent.confirmedOutput) .r7
          (childId ++ " reads an unconfirmed cross-scope output from " ++ parentId)
          [parentId, childId]

/-- R14: no tool call hands control straight to a planner. -/
def ruleR14 : List CheckViolation :=
  context.vertices.entries.flatMap fun (childId, child) =>
    if child.kind = .planner then
      child.parents.flatMap fun parentId =>
        violationIf ((context.vertices.get? parentId).any fun parent => parent.kind == .tool) .r14
          (parentId ++ " has planner " ++ childId ++
            " as a direct successor without an interposed router") [parentId, childId]
    else []

/-- R12: a planner or router never joins a scope. -/
def ruleR12 (proposal : SubDagProposal) : List CheckViolation :=
  context.vertices.entries.flatMap fun (vertexId, vertex) =>
    if vertex.kind = .tool ∨ vertex.kind = .confirmationBarrier then []
    else
      violationIf (given vertex.scopeId).isSome .r12
        (vertexId ++ " is a " ++ vertex.kind.name ++ " and may not declare a transaction scope")
        [vertexId] ++
      proposal.scopes.flatMap fun scope =>
        violationIf (scope.members.contains vertexId) .r12
          (vertexId ++ " is a " ++ vertex.kind.name ++ " and may not be a member of scope " ++
            scope.id) [vertexId]

/-- R8: nothing depends on a read behind the pivot in its scope. -/
def ruleR8 : List CheckViolation :=
  context.pivotIds.flatMap fun pivotId =>
    (context.descendantsOf pivotId).flatMap fun descendantId =>
      violationIf (context.scopeOf descendantId == context.scopeOf pivotId &&
          (context.tools.get? descendantId).map ToolDefinition.effectClass == some .none &&
          !(context.descendantsOf descendantId).isEmpty) .r8
        (descendantId ++ " is a read dependency on the post-pivot recovery path")
        [pivotId, descendantId]

/-- The pivots that two calls lead to. -/
def relatedPivots (firstId secondId : String) : List String :=
  context.pivotIds.filter fun pivotId => pivotId == firstId || pivotId == secondId ||
    (context.descendantsOf firstId).contains pivotId ||
    (context.descendantsOf secondId).contains pivotId

/-- Whether a barrier behind two calls is before all of the pivots. -/
def protectedByBarrier (firstId secondId : String) (pivots : List String) : Bool :=
  context.vertices.values.any fun vertex => vertex.kind == .confirmationBarrier &&
    (context.ancestorsOf vertex.id).contains firstId &&
    (context.ancestorsOf vertex.id).contains secondId &&
    pivots.all fun pivotId => (context.ancestorsOf pivotId).contains vertex.id

/-- R9: parallel calls before a pivot do not write the same thing, unless a barrier joins
them. -/
def ruleR9 : List CheckViolation :=
  (pairs context.tools.entries).flatMap fun (first, second) =>
    violationIf (intersects first.2.writes second.2.writes &&
        !(context.ancestorsOf first.1).contains second.1 &&
        !(context.ancestorsOf second.1).contains first.1 &&
        !(relatedPivots context first.1 second.1).isEmpty &&
        !protectedByBarrier context first.1 second.1 (relatedPivots context first.1 second.1)) .r9
      (first.1 ++ " and " ++ second.1 ++ " have conflicting parallel writes before a pivot")
      [first.1, second.1]

end Rules

/-- The vertices of a violation as one string, which decides on repetitions. -/
def CheckViolation.vertexKey (violation : CheckViolation) : String :=
  "\x00".intercalate violation.vertices

/-- `add`: the first violation of a rule by the same vertices is kept. -/
def addViolation (violations : List CheckViolation) (violation : CheckViolation) :
    List CheckViolation :=
  if violations.any fun other => other.rule == violation.rule &&
      other.vertexKey == violation.vertexKey then violations
  else violations ++ [violation]

/-- What the rules find, in order. -/
def ruleViolations (context : GraphContext) (proposal : SubDagProposal)
    (existingScopes : List ScopeSnapshot) : List CheckViolation :=
  ruleR10 context ++ proposal.scopes.flatMap (scopeRules context) ++
    routerRules context proposal existingScopes ++ ruleR5 context ++ ruleR7 context ++
    ruleR14 context ++ ruleR12 context proposal ++ ruleR8 context ++ ruleR9 context

/-- `checkSubDag`: the violations of a proposal; it is accepted when there is none. -/
def checkSubDag (proposal : SubDagProposal) (registry : ToolRegistry)
    (existingScopes : List ScopeSnapshot) : Except String (List CheckViolation) := do
  let context ← buildContext proposal registry
  ok ((ruleViolations context proposal existingScopes).foldl addViolation registry.validate)

/-! ### What the context holds -/

/-- The elements under an id after a vertex was added under one of its ancestors. -/
theorem mem_listedUnder_addDescendant {ancestor : String} :
    x ∈ listedUnder (addDescendant id m ancestor) b ↔
      x ∈ listedUnder m b ∨ (b = ancestor ∧ x = id) := by
  unfold addDescendant
  conv_lhs => rw [listedUnder, OrderedMap.get?_set]
  split
  · rename_i heq
    subst heq
    simp
  · rename_i hne
    simp [hne, listedUnder]

/-- The elements under an id after a vertex was added under all of its ancestors. -/
theorem mem_listedUnder_foldl_addDescendant {ancestors : List String} :
    x ∈ listedUnder (ancestors.foldl (addDescendant id) m) b ↔
      x ∈ listedUnder m b ∨ (b ∈ ancestors ∧ x = id) := by
  induction ancestors generalizing m with
  | nil => simp
  | cons ancestor rest ih =>
    rw [List.foldl_cons, ih, mem_listedUnder_addDescendant, List.mem_cons, or_assoc, or_and_right]

/-- The elements under an id after the ancestors of several vertices were inverted. -/
theorem mem_listedUnder_foldl {entries : List (String × List String)} :
    x ∈ listedUnder (entries.foldl (fun m entry => entry.2.foldl (addDescendant entry.1) m) m) b ↔
      x ∈ listedUnder m b ∨ ∃ ancestors, (x, ancestors) ∈ entries ∧ b ∈ ancestors := by
  induction entries generalizing m with
  | nil => simp
  | cons entry rest ih =>
    obtain ⟨id, ancestors⟩ := entry
    rw [List.foldl_cons, ih, mem_listedUnder_foldl_addDescendant, or_assoc]
    refine or_congr_right ?_
    simp only [List.mem_cons, Prod.mk.injEq]
    constructor
    · rintro (⟨hb, rfl⟩ | ⟨s, hs, hb⟩)
      · exact ⟨ancestors, .inl ⟨rfl, rfl⟩, hb⟩
      · exact ⟨s, .inr hs, hb⟩
    rintro ⟨s, ⟨rfl, rfl⟩ | hs, hb⟩
    · exact .inl ⟨hb, rfl⟩
    · exact .inr ⟨s, hs, hb⟩

/-- The descendants are the ancestors, read the other way. -/
theorem mem_invertAncestors {ids : List String} {ancestors : OrderedMap String (List String)} :
    x ∈ listedUnder (invertAncestors ids ancestors) b ↔ b ∈ listedUnder ancestors x := by
  have hinit : listedUnder (OrderedMap.ofEntries (ids.map fun id => (id, ([] : List String)))) b =
      [] := by
    unfold listedUnder
    cases hget : OrderedMap.get? _ b with
    | none => rfl
    | some =>
      obtain ⟨id, -, hent⟩ := List.mem_map.mp (OrderedMap.mem_of_get?_ofEntries hget)
      exact (congrArg Prod.snd hent).symm
  rw [invertAncestors, mem_listedUnder_foldl, hinit]
  simp only [List.not_mem_nil, false_or, ← OrderedMap.get?_eq_some_iff, listedUnder]
  cases ancestors.get? x <;> simp

/-- The tools a list of vertices calls agree with a map of those vertices. -/
def ToolsAgree (registry : ToolRegistry) (vertices : OrderedMap String ProposalVertex)
    (tools : OrderedMap String ToolDefinition) : Prop :=
  ∀ id vertex tool, vertices.get? id = some vertex → vertex.kind = .tool →
    given vertex.tool = some tool →
    ∃ definition, registry.definitions.get? tool = some definition ∧
      tools.get? id = some definition

section Context

variable {registry : ToolRegistry} {tools tools' : OrderedMap String ToolDefinition}
  {vertices : OrderedMap String ProposalVertex}

/-- The tools with those of one more vertex. -/
theorem addTool_ok {vertex : ProposalVertex} (h : addTool registry tools vertex = ok tools') :
    tools' = tools ∧ ¬ (vertex.kind = .tool ∧ (given vertex.tool).isSome) ∨
      ∃ tool definition, vertex.kind = .tool ∧ given vertex.tool = some tool ∧
        registry.definitions.get? tool = some definition ∧
        tools' = tools.set vertex.id definition := by
  unfold addTool at h
  split at h
  · rename_i tool hkind htool
    obtain ⟨definition, hget, rfl⟩ := map_eq_ok.mp h
    unfold ToolRegistry.get at hget
    split at hget
    · rename_i found hfound
      obtain rfl := Except.ok.inj hget
      exact .inr ⟨tool, found, hkind, htool, hfound, rfl⟩
    · cases hget
  · rename_i hnone
    exact .inl ⟨(Except.ok.inj h).symm, by simp [hnone]⟩
  · cases h
  · rename_i hnone hkind
    exact .inl ⟨(Except.ok.inj h).symm, fun htool => hkind htool.1⟩

/-- The tools agree with the vertices, as both are read. -/
theorem toolsAgree_foldlM {proposed : List ProposalVertex}
    (h : proposed.foldlM (addTool registry) tools = ok tools')
    (hagr : ToolsAgree registry vertices tools) :
    ToolsAgree registry (proposed.foldl (fun m vertex => m.set vertex.id vertex) vertices)
      tools' := by
  induction proposed generalizing vertices tools with
  | nil =>
    cases h
    exact hagr
  | cons head rest ih =>
    simp only [List.foldlM_cons, bind_eq_ok] at h
    obtain ⟨_, hmid, hrest⟩ := h
    refine ih hrest fun id vertex tool hver hkind htool => ?_
    rw [OrderedMap.get?_set] at hver
    rcases addTool_ok hmid with ⟨rfl, hnot⟩ | ⟨tool', definition, -, htool', hget, rfl⟩
    · split at hver
      · cases hver
        exact absurd ⟨hkind, by simp [htool]⟩ hnot
      · exact hagr id vertex tool hver hkind htool
    · split at hver
      · rename_i heq
        cases hver
        obtain rfl := Option.mem_unique htool' htool
        exact ⟨definition, hget, by rw [OrderedMap.get?_set, if_pos heq]⟩
      · rename_i hne
        obtain ⟨found, hfound, htools⟩ := hagr id vertex tool hver hkind htool
        exact ⟨found, hfound, by rw [OrderedMap.get?_set, if_neg hne, htools]⟩

/-- Every tool that is called is registered under its name. -/
def Registered (registry : ToolRegistry) (tools : OrderedMap String ToolDefinition) : Prop :=
  ∀ id definition, tools.get? id = some definition →
    registry.definitions.get? definition.name = some definition

/-- The tools of one more vertex are registered. -/
theorem Registered.addTool (h : Registered registry tools) {vertex : ProposalVertex}
    (hturn : addTool registry tools vertex = ok tools') : Registered registry tools' := by
  intro id definition hget
  rcases addTool_ok hturn with ⟨rfl, -⟩ | ⟨tool, found, -, -, hfound, rfl⟩
  · exact h id definition hget
  rw [OrderedMap.get?_set] at hget
  split at hget
  · obtain rfl := Option.some.inj hget
    rw [registry.named tool found hfound]
    exact hfound
  · exact h id definition hget

/-- A vertex of the proposal lists an id as a parent. -/
def SubDagProposal.Parent (proposal : SubDagProposal) (parent child : String) : Prop :=
  ∃ vertex ∈ proposal.vertices, vertex.id = child ∧ parent ∈ vertex.parents

/-- What the context of a proposal holds. -/
structure ContextOf (proposal : SubDagProposal) (registry : ToolRegistry)
    (context : GraphContext) : Prop where
  vertices : context.vertices =
    OrderedMap.ofEntries (proposal.vertices.map fun vertex => (vertex.id, vertex))
  tools : ToolsAgree registry context.vertices context.tools
  registered : Registered registry context.tools
  ancestors : Closure.Exact (parentsOf context.vertices) context.ancestors
  searched : ∀ id ∈ context.vertices.keys, ∃ found, context.ancestors.get? id = some found
  descendants : context.descendants = invertAncestors context.vertices.keys context.ancestors
  scopeMembers : context.scopeMembers = OrderedMap.ofEntries
    (proposal.scopes.map fun scope => (scope.id, OrderedSet.ofList scope.members))

/-- A context that is built holds what it says. -/
theorem buildContext_ok {proposal : SubDagProposal} {context : GraphContext}
    (h : buildContext proposal registry = ok context) : ContextOf proposal registry context := by
  simp only [buildContext, bind_eq_ok, mapError_eq_ok, Except.ok.injEq] at h
  obtain ⟨_, htool, _, hanc, rfl⟩ := h
  obtain ⟨hfin, -, hsear⟩ := Closure.closure_ok hanc Closure.finished_empty
  refine ⟨rfl, ?_, ?_, hfin.isExact, hsear, rfl, rfl⟩
  · rw [OrderedMap.ofEntries, List.foldl_map]
    exact toolsAgree_foldlM htool (by simp [ToolsAgree, OrderedMap.get?, OrderedMap.empty])
  · exact Fallible.foldlM_invariant (fun _ _ _ _ h hturn => h.addTool hturn)
      (by simp [Registered, OrderedMap.get?, OrderedMap.empty]) htool

section Held

variable {proposal : SubDagProposal} {context : GraphContext}

/-- The search of a context finished. -/
theorem buildContext_finished (h : buildContext proposal registry = ok context) :
    Closure.Finished context.vertices.has (parentsOf context.vertices) context.ancestors := by
  simp only [buildContext, bind_eq_ok, mapError_eq_ok, Except.ok.injEq] at h
  obtain ⟨_, -, _, hanc, rfl⟩ := h
  exact (Closure.closure_ok hanc Closure.finished_empty).1

/-- What has a parent is a vertex. -/
theorem mem_keys_of_mem_parentsOf {parent : String}
    (h : parent ∈ parentsOf vertices id) : id ∈ vertices.keys := by
  by_contra hnot
  rw [← OrderedMap.has_iff, OrderedMap.has, Option.not_isSome_iff_eq_none] at hnot
  simp [parentsOf, hnot] at h

/-- The parents a context reads are listed. -/
theorem parent_of_mem_parentsOf {parent child : String} (hvert : OrderedMap.ofEntries
      (proposal.vertices.map fun vertex => (vertex.id, vertex)) = vertices)
    (h : parent ∈ parentsOf vertices child) : proposal.Parent parent child := by
  obtain ⟨vertex, hget⟩ := Option.isSome_iff_exists.mp
    (OrderedMap.has_iff.mpr (mem_keys_of_mem_parentsOf h))
  rw [parentsOf, hget] at h
  obtain ⟨hver, hid⟩ := OrderedMap.mem_of_get?_index (hvert ▸ hget)
  exact ⟨vertex, hver, hid, h⟩

/-- **The vertices of a context are on no cycle.** -/
theorem buildContext_grounded (h : buildContext proposal registry = ok context) (id : String) :
    Acc (fun parent child => parent ∈ parentsOf context.vertices child) id := by
  by_cases hkey : id ∈ context.vertices.keys
  · obtain ⟨found, hfound⟩ := (buildContext_ok h).searched id hkey
    exact (buildContext_finished h).grounded id found hfound
  · exact ⟨id, fun parent hpar => absurd (mem_keys_of_mem_parentsOf hpar) hkey⟩

/-- **The context holds the ancestors of every vertex.** -/
theorem context_ancestors (h : ContextOf proposal registry context) {z : String} :
    z ∈ context.ancestorsOf id ↔ context.Before z id := by
  unfold GraphContext.ancestorsOf listedUnder
  cases hfound : context.ancestors.get? id with
  | some found => simpa using h.ancestors id found hfound z
  | none =>
    -- an id that was not searched is no vertex, and has no parents
    have hpar : parentsOf context.vertices id = [] := by
      refine List.eq_nil_iff_forall_not_mem.mpr fun parent hmem => ?_
      obtain ⟨found, hsome⟩ := h.searched id (mem_keys_of_mem_parentsOf hmem)
      simp [hfound] at hsome
    rw [GraphContext.Before, Closure.ancestor_iff, hpar]
    simp

/-- **The context holds the descendants of every vertex.** -/
theorem context_descendants (h : ContextOf proposal registry context) {z : String} :
    z ∈ context.descendantsOf id ↔ context.Before id z := by
  rw [← context_ancestors h, GraphContext.descendantsOf, h.descendants, mem_invertAncestors]
  rfl

end Held

end Context

/-! ### What acceptance says -/

/-- Nothing is left exactly if there was nothing and nothing was found. -/
theorem foldl_addViolation_eq_nil {violations found : List CheckViolation} :
    found.foldl addViolation violations = [] ↔ violations = [] ∧ found = [] := by
  induction found generalizing violations with
  | nil => simp
  | cons violation rest ih =>
    rw [List.foldl_cons, ih]
    unfold addViolation
    constructor
    · rintro ⟨hnil, -⟩
      split at hnil
      · rename_i hany
        simp [hnil] at hany
      · simp at hnil
    · rintro ⟨-, hnil⟩
      cases hnil

theorem violationIf_eq_nil {found : Bool} {rule : RuleCode} {message : String}
    {vertices : List String} : violationIf found rule message vertices = [] ↔ found = false := by
  cases found <;> simp [violationIf]

/-- The pivots of a scope are its irreversible members. -/
theorem mem_scopePivots {context : GraphContext} {scopeId : String} :
    id ∈ scopePivots context scopeId ↔
      (∃ tool, context.tools.get? id = some tool ∧ tool.effectClass = .irreversible) ∧
        id ∈ context.membersOf scopeId := by
  simp [scopePivots, GraphContext.pivotIds, OrderedMap.get?_eq_some_iff]

section Accepted

variable {proposal : SubDagProposal} {registry : ToolRegistry} {existing : List ScopeSnapshot}
  {p d : String}

/-- **An accepted proposal violates no rule.** -/
theorem checkSubDag_accepted (h : checkSubDag proposal registry existing = ok []) :
    ∃ context, buildContext proposal registry = ok context ∧ registry.validate = [] ∧
      ruleViolations context proposal existing = [] := by
  simp only [checkSubDag, bind_eq_ok, Except.ok.injEq] at h
  obtain ⟨context, hcontext, hnil⟩ := h
  exact ⟨context, hcontext, foldl_addViolation_eq_nil.mp hnil⟩

variable {context : GraphContext} {scope : ProposalScope}

/-- The rules of a scope hold in an accepted proposal. -/
theorem scopeRules_of_accepted (h : ruleViolations context proposal existing = [])
    (hscope : scope ∈ proposal.scopes) :
    (scopePivots context scope.id).length ≤ 1 ∧ ∀ pivotId ∈ scopePivots context scope.id,
      (∀ memberId ∈ context.membersOf scope.id, memberRules context pivotId memberId = []) ∧
        ruleR11 context scope.id pivotId = [] := by
  simp only [ruleViolations, List.append_eq_nil_iff, List.flatMap_eq_nil_iff] at h
  have hrul := h.1.1.1.1.1.1.1.2 scope hscope
  simp only [scopeRules, List.append_eq_nil_iff, violationIf_eq_nil, decide_eq_false_iff_not,
    List.flatMap_eq_nil_iff] at hrul
  exact ⟨Nat.not_lt.mp hrul.1, hrul.2⟩

variable {tool : ToolDefinition}

section

variable (hcontext : ContextOf proposal registry context)
  (h : ruleViolations context proposal existing = []) (hscope : scope ∈ proposal.scopes)
  (hp : p ∈ scopePivots context scope.id)

include hcontext h hscope hp

/-- **R1**: a member of a scope behind its pivot is retry-safe. -/
theorem retryable_of_accepted (hd : d ∈ context.membersOf scope.id)
    (htool : context.tools.get? d = some tool) (hbeh : context.Before p d) :
    tool.idempotentRetryable = true := by
  have hrul := ((scopeRules_of_accepted h hscope).2 p hp).1 d hd
  simp only [memberRules, htool, List.append_eq_nil_iff, violationIf_eq_nil] at hrul
  have hdes := (context_descendants hcontext).mpr hbeh
  simpa [hdes] using hrul.2

/-- **R2**: a member of a scope before its pivot is undoable. -/
theorem undoable_of_accepted (hd : d ∈ context.membersOf scope.id)
    (htool : context.tools.get? d = some tool) (heff : tool.effectClass ≠ .none)
    (hbef : context.Before d p) : isUndoable tool = true := by
  have hrul := ((scopeRules_of_accepted h hscope).2 p hp).1 d hd
  simp only [memberRules, htool, List.append_eq_nil_iff, violationIf_eq_nil] at hrul
  have hanc := (context_ancestors hcontext).mpr hbef
  simpa [hanc, heff] using hrul.1

end

end Accepted

end Flory
