import Mathlib.Data.List.Sort
import Flory.Schema

/-!
# Tool Contracts

A tool contract as the gateway publishes it, and the rules by which it is admitted
(`ValidateStructure` for what one contract can answer alone, `resolveCompanions` for what
it needs of the others). The compiler of JSON Schemas is a parameter: it names the error of
a schema, or nothing.

A rule returns the first violation it finds. Where the gateway ranges over a Go map, whose
order is not fixed, the model takes the order in which the map is written; which violation
is reported first depends on it, whether there is one does not.

## Main results

* `admitted_mode`: the modes an admitted contract can have, by its effect class.
* `admitted_companions`: the companions an admitted contract declares, by its mode.
-/

namespace Flory

/-! ### Contracts -/

/-- `toolview.Transaction`: the transaction half of a contract. An absent companion is the
empty string. -/
structure ContractTxn where
  effectClass : EffectClass
  mode : Mode
  idempotencyKeyPath : String := ""
  idempotentRetryable : Bool := false
  tryTimeoutS : ℕ := 0
  confirmTool : String := ""
  cancelTool : String := ""
  compensateTool : String := ""
  statusTool : String := ""
  confirmArguments : List (String × String) := []
  cancelArguments : List (String × String) := []
  compensateArguments : List (String × String) := []

/-- How a tool that reverses another does it. -/
inductive CompensationStyle
  | notCompensating
  | delta
  | snapshot
  deriving DecidableEq, Repr

/-- A compensation style as the view spells it. -/
def CompensationStyle.name : CompensationStyle → String
  | .notCompensating => "not-compensating"
  | .delta => "delta"
  | .snapshot => "snapshot"

/-- `toolview.Retry`, with the fields some rule reads. -/
structure ContractRetry where
  maxAttempts : ℕ := 1
  multiplierMilli : ℕ := 1000

/-- `toolview.Tool`, with the fields some function reads. -/
structure ToolContract where
  toolId : String
  toolVersion : String := "1"
  inputSchema : Json := .obj []
  outputSchema : Json := .obj []
  routeId : String := "route"
  protocol : String := "grpc"
  txn : ContractTxn
  compensationStyle : CompensationStyle := .notCompensating
  footprint : List String := []
  writes : List String := []
  timeoutMs : ℕ := 1000
  retry : ContractRetry := {}
  owner : String := "owner"
  allowedRoles : List String := ["*"]

/-- `AdmissionCode`. -/
inductive AdmissionCode
  | malformedContract
  | incompleteTccTriple
  | incompleteSagaCompensation
  | mislabelledEffectClass
  | nonDeltaCompensation
  | unresolvedCompanion
  | immutableVersionConflict
  | invalidCompanionReference
  deriving DecidableEq, Repr

/-- `Violation`: why a registration is rejected. -/
structure Violation where
  code : AdmissionCode
  detail : String
  deriving DecidableEq, Repr

/-- A mode as the view spells it. -/
def Mode.name : Mode → String
  | .plain => "plain"
  | .tcc => "tcc"
  | .saga => "saga"

/-! ### Rules one contract answers alone -/

/-- Whether a character is white space to `strings.TrimSpace`. -/
def isSpace (c : Char) : Bool :=
  c == ' ' || (9 ≤ c.toNat && c.toNat ≤ 13) || c.toNat == 0x85 || c.toNat == 0xa0 ||
    c.toNat == 0x1680 || (0x2000 ≤ c.toNat && c.toNat ≤ 0x200a) || c.toNat == 0x2028 ||
    c.toNat == 0x2029 || c.toNat == 0x202f || c.toNat == 0x205f || c.toNat == 0x3000

/-- Whether a required field is blank. -/
def isBlank (value : String) : Bool :=
  value.toList.all isSpace

/-- Whether a character may start a role. -/
def isRoleStart (c : Char) : Bool :=
  ('a' ≤ c && c ≤ 'z') || ('A' ≤ c && c ≤ 'Z') || ('0' ≤ c && c ≤ '9')

/-- `rolePattern`: a letter or digit, and at most 127 more characters. -/
def isRole (role : String) : Bool :=
  match role.toList with
  | [] => false
  | c :: rest => isRoleStart c && decide (rest.length ≤ 127) &&
      rest.all fun c => isRoleStart c || c == '.' || c == '_' || c == ':' || c == '-'

/-- `validateIdentity`: the fields every contract has to fill in. -/
def validateIdentity (schemaError : String → Json → Option String) (tool : ToolContract) :
    Option Violation :=
  match [("tool_id", tool.toolId), ("tool_version", tool.toolVersion), ("route_id", tool.routeId),
      ("owner", tool.owner)].find? fun field => isBlank field.2 with
  | some (field, _) => malformed (field ++ " is required")
  | none =>
    if tool.protocol ≠ "grpc" then
      malformed ("adapter protocol \"" ++ tool.protocol ++ "\" is not supported")
    else if tool.timeoutMs = 0 then malformed "timeout_ms is required"
    else if tool.retry.maxAttempts = 0 then
      malformed "retry_constraints.max_attempts must be at least 1"
    else if tool.retry.multiplierMilli < 1000 then
      malformed "retry_constraints.multiplier_milli must be at least 1000"
    else if tool.allowedRoles = [] then
      malformed "allowed_roles must not be empty; use * for a public tool"
    else
      match tool.allowedRoles.find? fun role => role != "*" && !isRole role with
      | some role => malformed ("allowed role \"" ++ role ++ "\" is invalid")
      | none =>
        ((schemaError (tool.toolId ++ ".input") tool.inputSchema).orElse fun _ =>
          schemaError (tool.toolId ++ ".output") tool.outputSchema).bind malformed
where
  /-- A malformed contract. -/
  malformed (detail : String) : Option Violation :=
    some ⟨.malformedContract, detail⟩

/-- `validateEffectClass`: the effect class agrees with the declared undo path. -/
def validateEffectClass (tool : ToolContract) : Option Violation :=
  match tool.txn.effectClass with
  | .none =>
    if tool.txn.mode ≠ .plain then
      mislabelled ("effect_class none has no side effect to bracket, so mode must be plain, not " ++
        tool.txn.mode.name)
    else none
  | .irreversible =>
    if tool.txn.mode ≠ .plain then
      mislabelled ("effect_class irreversible has no undo path, so mode must be plain, not " ++
        tool.txn.mode.name)
    else if tool.txn.compensateTool ≠ "" ∨ tool.txn.confirmTool ≠ "" ∨ tool.txn.cancelTool ≠ "" then
      mislabelled "effect_class irreversible declares an undo path; a compensable effect is not irreversible"
    else none
  | .reversible =>
    if tool.txn.mode = .plain ∧ tool.txn.compensateTool = "" then
      mislabelled "effect_class reversible declares no undo path; a tool with no undo path must be registered irreversible"
    else none
  | .bufferable => none
where
  /-- A mislabelled effect class. -/
  mislabelled (detail : String) : Option Violation :=
    some ⟨.mislabelledEffectClass, detail⟩

/-- `validateCompensationStyle`: a snapshot is never restored. -/
def validateCompensationStyle (tool : ToolContract) : Option Violation :=
  if tool.compensationStyle = .snapshot then
    some ⟨.nonDeltaCompensation,
      "compensation must release the delta this try added, never restore an absolute snapshot"⟩
  else none

/-- `validateDeclaredCompanions`: the companions a mode requires are named. -/
def validateDeclaredCompanions (tool : ToolContract) : Option Violation :=
  match tool.txn.mode with
  | .tcc =>
    if tool.txn.confirmTool = "" ∨ tool.txn.cancelTool = "" then
      some ⟨.incompleteTccTriple, "mode tcc requires both confirm_tool and cancel_tool"⟩
    else if tool.txn.tryTimeoutS = 0 then
      some ⟨.incompleteTccTriple, "mode tcc requires a positive try_timeout_s"⟩
    else none
  | .saga =>
    if tool.txn.compensateTool = "" then
      some ⟨.incompleteSagaCompensation, "mode saga requires a compensate_tool"⟩
    else none
  | .plain => none

/-- `validateCompanionReferences`: a tool is not its own companion. -/
def validateCompanionReferences (tool : ToolContract) : Option Violation :=
  ([("confirm_tool", tool.txn.confirmTool), ("cancel_tool", tool.txn.cancelTool),
      ("compensate_tool", tool.txn.compensateTool),
      ("status_tool", tool.txn.statusTool)].find? fun field =>
        field.2 != "" && field.2 == tool.toolId).map fun field =>
    ⟨.invalidCompanionReference, field.1 ++ " refers to the tool itself"⟩

/-- `argumentRoot`: the first segment of a path into a tool's own arguments. -/
def argumentRoot (path : String) : Option String :=
  match path.toList with
  | '$' :: '.' :: rest =>
    let root := rest.takeWhile fun c => c != '.'
    if root.isEmpty then none else some (String.ofList root)
  | _ => none

/-- Whether `encoding/json` takes a key for a field: the case of letters does not matter, and the
long s counts as one. -/
def isFieldKey (field key : String) : Bool :=
  key.toList.map (fun c => if c = 'ſ' then 's' else c.toLower) = field.toList

/-- A key of a schema as `json.Unmarshal` reads it: an object adds its names to those of an earlier
key, null clears them, and any other value is an error. -/
def readProperties (names : List String) : String × Json → Option (List String)
  | (key, value) =>
    if isFieldKey "properties" key then
      match value with
      | .obj fields => some (names ++ fields.map Prod.fst)
      | .null => some []
      | _ => none
    else some names

/-- `declaredProperties`: the argument names a schema declares, unless it declares none. -/
def declaredProperties : Json → Option (List String)
  | .obj fields => (fields.foldlM readProperties []).filter fun names => !names.isEmpty
  | _ => none

/-- The check of one argument of a companion. -/
def validateArgument (toolId field : String) (properties : Option (List String))
    (argument : String × String) : Option Violation :=
  match argumentRoot argument.2 with
  | none => some ⟨.invalidCompanionReference, field ++ "_arguments." ++ argument.1 ++ " reads \"" ++
      argument.2 ++ "\"; a source must be a path into this tool's own arguments, written $.name"⟩
  | some root =>
    if properties.all fun declared => declared.contains root then none
    else some ⟨.invalidCompanionReference, field ++ "_arguments." ++ argument.1 ++ " reads \"" ++
      argument.2 ++ "\", which " ++ toolId ++ " does not declare as an argument"⟩

/-- The check of one companion and its arguments. -/
def validateCompanionArgument (toolId : String) (properties : Option (List String))
    (companion : String × String × List (String × String)) : Option Violation :=
  let (field, tool, arguments) := companion
  if tool = "" then
    if arguments = [] then none
    else some ⟨.invalidCompanionReference, field ++ "_arguments is declared without a " ++ field ++
      "_tool to call"⟩
  else if arguments = [] then
    some ⟨.invalidCompanionReference, field ++ "_tool is declared without " ++ field ++
      "_arguments; a companion that names nothing cannot identify what it acts on"⟩
  else arguments.findSome? (validateArgument toolId field properties)

/-- `validateCompanionArguments`: a tool that names a companion says how to call it. -/
def validateCompanionArguments (tool : ToolContract) : Option Violation :=
  [("confirm", tool.txn.confirmTool, tool.txn.confirmArguments),
    ("cancel", tool.txn.cancelTool, tool.txn.cancelArguments),
    ("compensate", tool.txn.compensateTool, tool.txn.compensateArguments)].findSome?
      (validateCompanionArgument tool.toolId (declaredProperties tool.inputSchema))

/-- `ValidateStructure`: the first violation of one contract alone. -/
def validateStructure (schemaError : String → Json → Option String) (tool : ToolContract) :
    Option Violation :=
  [validateIdentity schemaError tool, validateEffectClass tool, validateCompensationStyle tool,
    validateDeclaredCompanions tool, validateCompanionReferences tool,
    validateCompanionArguments tool].findSome? id

/-! ### Rules that need the other contracts -/

/-- The first index of a sorted list from which on its elements are not smaller, by binary
search between two indices. -/
def searchBetween (values : List String) (x : String) : ℕ → ℕ → ℕ → ℕ
  | 0, low, _ => low
  | fuel + 1, low, high =>
    if low < high then
      let mid := (low + high) / 2
      if (values.getD mid "") < x then searchBetween values x fuel (mid + 1) high
      else searchBetween values x fuel low mid
    else low

/-- Whether a sorted list holds a value, as `sort.SearchStrings` finds it. -/
def holdsSorted (values : List String) (x : String) : Bool :=
  values[searchBetween values x (values.length + 1) 0 values.length]? == some x

/-- `rolesCover`. -/
def rolesCover (required offered : List String) : Bool :=
  if holdsSorted required "*" then holdsSorted offered "*"
  else holdsSorted offered "*" || required.all fun role => offered.contains role

/-- `companions`. -/
def companions (tool : ToolContract) : List String :=
  [tool.txn.confirmTool, tool.txn.cancelTool, tool.txn.compensateTool,
    tool.txn.statusTool].filter fun companion => companion != ""

/-- `mustBeRetrySafe`. -/
def mustBeRetrySafe (tool : ToolContract) (companion : String) : Bool :=
  companion == tool.txn.confirmTool || companion == tool.txn.cancelTool ||
    companion == tool.txn.compensateTool

/-- `isCompensating`. -/
def isCompensating (tool : ToolContract) (companion : String) : Bool :=
  companion == tool.txn.cancelTool || companion == tool.txn.compensateTool

/-- `companionVersions`: every registered version of a companion. -/
def companionVersions (registered : List ToolContract) (toolId : String) : List ToolContract :=
  (registered.filter fun tool => tool.toolId == toolId).insertionSort fun first second =>
    first.toolVersion ≤ second.toolVersion

/-- The check of one version of a companion. -/
def resolveVersion (tool : ToolContract) (companion : String) (candidate : ToolContract) :
    Option Violation :=
  if !rolesCover tool.allowedRoles candidate.allowedRoles then
    some ⟨.unresolvedCompanion, "companion " ++ companion ++ "@" ++ candidate.toolVersion ++
      " does not allow every role authorised for " ++ tool.toolId ++ "@" ++ tool.toolVersion⟩
  else if mustBeRetrySafe tool companion && !candidate.txn.idempotentRetryable then
    some ⟨if tool.txn.mode = .tcc then .incompleteTccTriple else .incompleteSagaCompensation,
      "companion " ++ companion ++ "@" ++ candidate.toolVersion ++
        " is not declared idempotent_retryable"⟩
  else if isCompensating tool companion && candidate.compensationStyle != .delta then
    some ⟨.nonDeltaCompensation, "companion " ++ companion ++ "@" ++ candidate.toolVersion ++
      " must declare delta compensation, not " ++ candidate.compensationStyle.name⟩
  else none

/-- The check of one companion. -/
def resolveCompanion (registered : List ToolContract) (tool : ToolContract) (companion : String) :
    Option Violation :=
  match companionVersions registered companion with
  | [] => some ⟨.unresolvedCompanion, "companion " ++ companion ++ " is not registered yet"⟩
  | resolved => resolved.findSome? (resolveVersion tool companion)

/-- `resolveCompanions`: every version of every companion is registered and fit for its
part. -/
def resolveCompanions (registered : List ToolContract) (tool : ToolContract) : Option Violation :=
  (companions tool).findSome? (resolveCompanion registered tool)

/-- A contract the gateway admits, among the contracts that are registered. -/
structure Admitted (schemaError : String → Json → Option String) (registered : List ToolContract)
    (tool : ToolContract) : Prop where
  structured : validateStructure schemaError tool = none
  resolved : resolveCompanions registered tool = none

instance {schemaError : String → Json → Option String} {registered : List ToolContract}
    {tool : ToolContract} : Decidable (Admitted schemaError registered tool) :=
  decidable_of_iff (validateStructure schemaError tool = none ∧ resolveCompanions registered tool = none)
    ⟨fun h => ⟨h.1, h.2⟩, fun h => ⟨h.structured, h.resolved⟩⟩

/-- The versions of a companion are the registered contracts of its name. -/
theorem mem_companionVersions {registered : List ToolContract} {toolId : String}
    {tool : ToolContract} :
    tool ∈ companionVersions registered toolId ↔ tool ∈ registered ∧ tool.toolId = toolId := by
  rw [companionVersions, List.mem_insertionSort, List.mem_filter, beq_iff_eq]

/-- **Companions resolve** when each of them is registered and every version of it is fit. -/
theorem resolveCompanions_eq_none {registered : List ToolContract} {tool : ToolContract} :
    resolveCompanions registered tool = none ↔ ∀ companion ∈ companions tool,
      (∃ candidate ∈ registered, candidate.toolId = companion) ∧
        ∀ candidate ∈ registered, candidate.toolId = companion →
          resolveVersion tool companion candidate = none := by
  rw [resolveCompanions, List.findSome?_eq_none_iff]
  refine forall₂_congr fun companion _ => ?_
  have hver := @mem_companionVersions registered companion
  unfold resolveCompanion
  split
  · rename_i hnil
    rw [hnil] at hver
    simp only [reduceCtorEq, false_iff, not_and]
    rintro ⟨candidate, hcan, hid⟩
    exact absurd (hver.mpr ⟨hcan, hid⟩) List.not_mem_nil
  · rename_i hne
    obtain ⟨first, hfir⟩ := List.exists_mem_of_ne_nil _ hne
    rw [List.findSome?_eq_none_iff]
    constructor
    · intro h
      exact ⟨⟨first, hver.mp hfir⟩, fun candidate hcan hid =>
        h candidate (hver.mpr ⟨hcan, hid⟩)⟩
    rintro ⟨-, h⟩ candidate hcan
    obtain ⟨hmem, hid⟩ := hver.mp hcan
    exact h candidate hmem hid

/-- What a version of a companion has to offer. -/
theorem resolveVersion_eq_none {tool candidate : ToolContract} {companion : String} :
    resolveVersion tool companion candidate = none ↔
      rolesCover tool.allowedRoles candidate.allowedRoles = true ∧
      (mustBeRetrySafe tool companion = true → candidate.txn.idempotentRetryable = true) ∧
      (isCompensating tool companion = true → candidate.compensationStyle = .delta) := by
  unfold resolveVersion
  split
  · simp_all
  split
  · simp_all
  · split <;> simp_all

/-! ### What admission says -/

section Admitted

variable {schemaError : String → Json → Option String} {registered : List ToolContract}
  {tool : ToolContract}

section

variable (h : Admitted schemaError registered tool)

include h

/-- An admitted contract passes every rule it answers alone. -/
theorem Admitted.rules :
    validateIdentity schemaError tool = none ∧ validateEffectClass tool = none ∧
      validateDeclaredCompanions tool = none := by
  have hrul := h.structured
  simp only [validateStructure, List.findSome?_eq_none_iff, List.mem_cons, List.not_mem_nil,
    or_false, id_eq, forall_eq_or_imp, forall_eq] at hrul
  exact ⟨hrul.1, hrul.2.1, hrul.2.2.2.1⟩

/-- **The modes of an admitted contract**: only a bufferable or reversible effect is
bracketed, and a reversible effect that is not names a compensation. -/
theorem admitted_mode :
    (tool.txn.mode ≠ .plain →
      tool.txn.effectClass = .bufferable ∨ tool.txn.effectClass = .reversible) ∧
    (tool.txn.effectClass = .reversible → tool.txn.mode = .plain →
      tool.txn.compensateTool ≠ "") := by
  have hrule := h.rules.2.1
  unfold validateEffectClass validateEffectClass.mislabelled at hrule
  cases heff : tool.txn.effectClass with
  | none | irreversible =>
    refine ⟨fun hmode => ?_, nofun⟩
    simp [heff, hmode] at hrule
  | reversible =>
    refine ⟨fun _ => .inr rfl, fun _ hmode hcom => ?_⟩
    simp [heff, hmode, hcom] at hrule
  | bufferable => exact ⟨fun _ => .inl rfl, nofun⟩

/-- **The companions of an admitted contract.** -/
theorem admitted_companions :
    (tool.txn.mode = .tcc →
      tool.txn.confirmTool ≠ "" ∧ tool.txn.cancelTool ≠ "" ∧ 0 < tool.txn.tryTimeoutS) ∧
    (tool.txn.mode = .saga → tool.txn.compensateTool ≠ "") := by
  have hrule := h.rules.2.2
  unfold validateDeclaredCompanions at hrule
  refine ⟨fun hmode => ?_, fun hmode hcom => ?_⟩
  · simp only [hmode] at hrule
    split at hrule
    · cases hrule
    split at hrule
    · cases hrule
    rename_i hnam htim
    simp only [not_or] at hnam
    exact ⟨hnam.1, hnam.2, Nat.pos_of_ne_zero htim⟩
  · simp [hmode, hcom] at hrule

theorem admitted_named : tool.toolId ≠ "" := by
  intro hemp
  have hiden := h.rules.1
  simp [validateIdentity, validateIdentity.malformed, hemp, isBlank] at hiden

end

end Admitted

end Flory
