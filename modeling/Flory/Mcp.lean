import Flory.Authn

/-!
# The Gateway's MCP Surface

`tools/list` shows a principal the tools its roles allow, as a view of their own with its own
digest. `tools/call` resolves the pinned view, the exact version of the tool in it, the
authorisation of the caller and the schema of the arguments, and then sends one attempt to one
instance. What it refuses before is a JSON-RPC error with a reason of a closed vocabulary; what
happens after is a result with an outcome, `unknown` when nothing came back.

The registry's current view, the cache of older ones, the blob store, the schema compiler and
Go's decoder are fields of `Server`. What the network does to one attempt is an `Upstream`.

## Main results

* `authorize_eq_ok`: whom a call is authorised for.
* `admitted_call`: what a call has passed when it is sent.
-/

namespace Flory.Mcp

open Authn (Principal Primitives Signer WorkflowIdentity allows)
open Except (error ok)
open ToolView (Tool Published)

/-! ### Errors -/

/-- The reasons of gateway refusals. -/
inductive Reason
  | unknownToolView
  | unknownTool
  | versionAbsent
  | schemaViolation
  | routeUnhealthy
  | authorizationDenied
  deriving DecidableEq

/-- The text of a reason. -/
def Reason.text : Reason → String
  | .unknownToolView => "unknown-tool-view"
  | .unknownTool => "unknown-tool"
  | .versionAbsent => "version-absent-from-view"
  | .schemaViolation => "schema-violation"
  | .routeUnhealthy => "route-unhealthy"
  | .authorizationDenied => "authorization-denied"

/-- `rpcError`; the data holds a reason or nothing. -/
structure RpcError where
  code : ℤ
  message : String
  reason : Option Reason := none
  deriving DecidableEq

/-- `refuse`. -/
def refuse (reason : Reason) (message : String) : RpcError :=
  { code := -32000, message := message, reason := some reason }

/-- `invalidParams`. -/
def invalidParams (message : String) : RpcError :=
  { code := -32602, message := message }

/-- `internalError`. -/
def internalError (message : String) : RpcError :=
  { code := -32603, message := message }

/-! ### Views -/

/-- A compiled schema, as what it says of a value. -/
abbrev Schema : Type :=
  GoValue → Except String Unit

/-- `resolvedView`. -/
structure ResolvedView where
  published : Published
  schemas : String × String → Option Schema

/-- The errors of the blob store. -/
inductive BlobError
  | notFound
  | failed (message : String)

/-- `Server`, with what it reads while it handles one request. -/
structure Server (prims : Primitives) where
  sha256 : ByteArray → String
  current : Option ResolvedView := none
  historical : String → Option ResolvedView := fun _ => none
  getBlob : String → Except BlobError ByteArray := fun _ => error .notFound
  putBlob : String → ByteArray → Except String Unit := fun _ _ => ok ()
  /-- `toolview.Parse`. -/
  parseView : ByteArray → String → Except String Published := fun _ _ => error ""
  /-- `registry.CompileSchema`. -/
  compileSchema : String → Option String → Except String Schema := fun _ _ => error ""
  /-- `json.Unmarshal` into any value. -/
  unmarshal : String → Except String GoValue := fun _ => error ""
  signer : Option (Signer prims) := none
  orchestratorSpiffeIds : List String := []
  now : ℤ := 0

/-- The key of a tool in its view. -/
def toolKey (tool : Tool) : String × String :=
  (tool.toolId, tool.toolVersion)

/-- `Lookup`: an empty version stands for any. -/
def lookup (tools : List Tool) (toolId toolVersion : String) : Option Tool :=
  tools.find? fun tool =>
    tool.toolId = toolId && (toolVersion = "" || tool.toolVersion = toolVersion)

/-- `DigestPattern`. -/
def isDigest (text : String) : Bool :=
  let symbols := text.toList
  symbols.take 7 = "sha256:".toList && symbols.length = 71 &&
    (symbols.drop 7).all fun symbol =>
      ('0' ≤ symbol && symbol ≤ '9') || ('a' ≤ symbol && symbol ≤ 'f')

section Surface

variable {prims : Primitives}

/-- The schemas of a stored view. -/
def Server.compileAll (server : Server prims) (tools : List Tool) :
    Except RpcError (String × String → Option Schema) :=
  tools.foldlM (fun schemas tool =>
    match server.compileSchema (tool.toolId ++ "@" ++ tool.toolVersion) tool.inputSchema with
    | error message => error (internalError message)
    | ok schema => ok (Function.update schemas (toolKey tool) (some schema))) fun _ => none

/-- `resolveView`. -/
def Server.resolveView (server : Server prims) (digest : String) :
    Except RpcError ResolvedView :=
  if digest = "" then
    match server.current with
    | none => error (refuse .unknownToolView "no tool view has been published yet")
    | some view => ok view
  else if !isDigest digest then
    error (invalidParams ("tool_view_digest " ++ digest.quote ++ " is not a sha256 digest"))
  else
    match server.current.filter fun view => view.published.digest = digest with
    | some view => ok view
    | none =>
      match server.historical digest with
      | some view => ok view
      | none =>
        match server.getBlob (ToolView.ref digest) with
        | error .notFound =>
          error (refuse .unknownToolView ("tool view " ++ digest ++ " is not stored"))
        | error (.failed message) => error (internalError message)
        | ok stored =>
          match server.parseView stored digest with
          | error message => error (refuse .unknownToolView message)
          | ok published => do
              let schemas ← server.compileAll published.tools
              ok ⟨published, schemas⟩

/-- The principal of a request, or the one that stands in for none. -/
def effectivePrincipal : Option Principal → Principal
  | some principal => principal
  | none => { roles := ["*"], source := "legacy-test" }

/-! ### tools/list -/

/-- `listParams`. -/
structure ListParams where
  toolViewDigest : String := ""
  runId : String := ""

/-- `Metadata`. -/
def metadata (tool : Tool) : GoValue :=
  .object ([("effect_class", .string tool.txn.effectClass), ("mode", .string tool.txn.mode),
      ("idempotent_retryable", .bool tool.txn.idempotentRetryable),
      ("tool_version", .string tool.toolVersion)] ++
    ToolView.omitString "idempotency_key_path" tool.txn.idempotencyKeyPath ++
    ToolView.omitString "confirm_tool" tool.txn.confirmTool ++
    ToolView.omitString "cancel_tool" tool.txn.cancelTool ++
    ToolView.omitString "compensate_tool" tool.txn.compensateTool ++
    ToolView.omitString "status_tool" tool.txn.statusTool ++
    ToolView.omitEmpty "try_timeout_s" (tool.txn.tryTimeoutS = 0)
      (ToolView.number tool.txn.tryTimeoutS) ++
    ToolView.omitStrings "footprint" tool.footprint ++ ToolView.omitStrings "writes" tool.writes)

/-- `RBACMetadata`. -/
def rbacMetadata (tool : Tool) : GoValue :=
  .object [("allowed_roles", ToolView.strings tool.allowedRoles)]

/-- One tool of a listing. -/
structure ListedTool where
  name : String
  description : String
  inputSchema : Option String
  floryTransaction : GoValue
  floryRbac : GoValue

/-- A tool as it is listed. -/
def listed (tool : Tool) : ListedTool :=
  { name := tool.toolId, description := tool.description, inputSchema := tool.inputSchema,
    floryTransaction := metadata tool, floryRbac := rbacMetadata tool }

/-- What `tools/list` answers. -/
structure Listing where
  tools : List ListedTool
  toolViewRef : String
  toolViewDigest : String
  toolViewDocument : ByteArray
  authorizationIdentity : Option WorkflowIdentity

/-- `scopeView`. -/
def Server.scopeView (server : Server prims) (source : ResolvedView) (roles : List String) :
    Except RpcError ResolvedView :=
  match ToolView.build server.sha256
      (source.published.tools.filter fun tool => allows roles tool.allowedRoles) with
  | error message => error (internalError ("scope tool view: " ++ message))
  | ok published =>
    match server.putBlob published.ref published.canonical with
    | error message => error (internalError ("store scoped tool view: " ++ message))
    | ok _ =>
      ok ⟨published, fun key =>
        if published.tools.any fun tool => toolKey tool = key then source.schemas key else none⟩

/-- The workflow identity of a listing for a run. -/
def Server.runIdentity (server : Server prims) (principal : Principal) (runId : String) :
    Except RpcError (Option WorkflowIdentity) :=
  if runId = "" then ok none
  else
    match server.signer.filter fun _ =>
        principal.source = "bearer" && server.orchestratorSpiffeIds.contains principal.spiffeId with
    | none => error (refuse .authorizationDenied ("run identity issuance requires a " ++
        "bearer-authenticated user and an authorised Orchestrator mTLS identity"))
    | some signer =>
      match signer.issue server.now principal runId with
      | error message =>
        error (refuse .authorizationDenied ("cannot issue workflow identity: " ++ message))
      | ok identity => ok (some identity)

/-- `toolsList`. -/
def Server.toolsList (server : Server prims) (principal : Option Principal)
    (params : Except String ListParams) : Except RpcError Listing :=
  match params with
  | error message => error (invalidParams message)
  | ok params => do
      let view ← server.resolveView params.toolViewDigest
      let view ← server.scopeView view (effectivePrincipal principal).roles
      let identity ← server.runIdentity (effectivePrincipal principal) params.runId
      ok
        { tools := view.published.tools.map listed
          toolViewRef := view.published.ref
          toolViewDigest := view.published.digest
          toolViewDocument := view.published.canonical
          authorizationIdentity := identity }

/-! ### tools/call -/

/-- `callMeta`. -/
structure CallMeta where
  runId : String := ""
  vertexId : String := ""
  scopeId : String := ""
  toolVersion : String := ""
  toolViewDigest : String := ""
  attempt : UInt32 := 0
  idempotencyKey : String := ""
  deadlineMs : Int64 := 0

/-- `callParams`; no arguments are an empty text. -/
structure CallParams where
  name : String
  arguments : String := ""
  callMeta : CallMeta := {}

/-- `ExecuteRequest`. -/
structure ExecuteRequest where
  runId : String
  vertexId : String
  scopeId : String
  attemptNo : UInt32
  toolId : String
  toolVersion : String
  toolViewDigest : String
  idempotencyKey : String
  arguments : String
  deadline : ℤ

/-- `lookupPinned`. -/
def lookupPinned (view : ResolvedView) (name version : String) : Except RpcError Tool :=
  match lookup view.published.tools name version with
  | some tool => ok tool
  | none =>
    if (lookup view.published.tools name "").isSome then
      error (refuse .versionAbsent ("tool " ++ name ++ " is in view " ++ view.published.digest ++
        ", but not at version " ++ version))
    else
      error (refuse .unknownTool ("tool " ++ name ++ " is not in view " ++ view.published.digest))

/-- `validateArguments`. -/
def Server.validateArguments (server : Server prims) (view : ResolvedView) (tool : Tool)
    (arguments : String) : Except RpcError Unit :=
  match view.schemas (toolKey tool) with
  | none => error (internalError ("view " ++ view.published.digest ++
      " has no compiled schema for " ++ tool.toolId))
  | some schema =>
    match server.unmarshal arguments with
    | error message => error (refuse .schemaViolation ("arguments are not JSON: " ++ message))
    | ok decoded =>
      match schema decoded with
      | error message => error (refuse .schemaViolation
          ("arguments violate the frozen input schema of " ++ tool.toolId ++ "@" ++
            tool.toolVersion ++ ": " ++ message))
      | ok _ => ok ()

/-- The nanoseconds of a number of milliseconds, in 64 bits. -/
def milliseconds (count : Int64) : Int64 :=
  count * 1000000

/-- How long an attempt may take, in nanoseconds: as its caller says, as its tool says, or
`DefaultDeadline`. -/
def timeout (callMeta : CallMeta) (tool : Tool) : Int64 :=
  if 0 < milliseconds callMeta.deadlineMs then milliseconds callMeta.deadlineMs
  else if 0 < milliseconds (Int64.ofNat tool.timeoutMs.toNat) then
    milliseconds (Int64.ofNat tool.timeoutMs.toNat)
  else 30000000000

/-- A call that is about to be sent: its tool, and the request. -/
structure Admission where
  tool : Tool
  request : ExecuteRequest

/-- The authorisation of a call. -/
def authorize (principal : Principal) (callMeta : CallMeta) (tool : Tool) :
    Except RpcError Unit :=
  if principal.runId ≠ "" && principal.runId ≠ callMeta.runId then
    error (refuse .authorizationDenied ("workflow identity is bound to run " ++ principal.runId))
  else if !allows principal.roles tool.allowedRoles then
    error (refuse .authorizationDenied ("identity is not authorised for " ++ tool.toolId ++ "@" ++
      tool.toolVersion))
  else ok ()

/-- `toolsCall`, up to the dispatch. -/
def Server.admitCall (server : Server prims) (principal : Option Principal)
    (params : Except String CallParams) : Except RpcError Admission :=
  match params with
  | error message => error (invalidParams message)
  | ok params =>
    if params.name = "" then error (invalidParams "name is required")
    else do
      let view ← server.resolveView params.callMeta.toolViewDigest
      let tool ← lookupPinned view params.name params.callMeta.toolVersion
      authorize (effectivePrincipal principal) params.callMeta tool
      let arguments := if params.arguments = "" then "\x7b\x7d" else params.arguments
      server.validateArguments view tool arguments
      ok
        { tool := tool
          request :=
            { runId := params.callMeta.runId, vertexId := params.callMeta.vertexId
              scopeId := params.callMeta.scopeId, attemptNo := params.callMeta.attempt
              toolId := tool.toolId, toolVersion := tool.toolVersion
              toolViewDigest := view.published.digest
              idempotencyKey := params.callMeta.idempotencyKey, arguments := arguments
              deadline := server.now + (timeout params.callMeta tool).toInt } }

/-- `Outcome`, as the tool services answer it. -/
inductive UpstreamOutcome
  | unspecified
  | succeeded
  | retryableFailure
  | permanentFailure
  | unknown
  | other (number : ℕ)
  deriving DecidableEq

/-- `ExecuteResponse`. -/
structure ExecuteResponse where
  outcome : UpstreamOutcome
  result : String := ""
  failure : String := ""
  deriving DecidableEq

/-- What the network does to one attempt: the instance that is picked, if one is routable,
whether a connection to it is made, and whether the call comes back, which a deadline or a broken
transport may prevent after it was sent. -/
structure Upstream where
  pick : String → Option String
  connect : String → Except String Unit
  call : String → ExecuteRequest → Except String ExecuteResponse

/-- The errors of a dispatch. -/
inductive DispatchError
  | noHealthyInstance (routeId : String)
  | failed (message : String)

/-- An attempt, once the dispatcher is done with it: whether a request was sent to an instance,
and what came back. -/
structure Dispatched where
  sent : Bool
  result : Except DispatchError ExecuteResponse

/-- `Dispatcher.Execute`. -/
def Upstream.execute (upstream : Upstream) (routeId : String) (request : ExecuteRequest) :
    Dispatched :=
  match upstream.pick routeId with
  | none => ⟨false, error (.noHealthyInstance routeId)⟩
  | some target =>
    match upstream.connect target with
    | error message => ⟨false, error (.failed ("route: dial " ++ target ++ ": " ++ message))⟩
    | ok _ =>
      match upstream.call target request with
      | error message => ⟨true, error (.failed message)⟩
      | ok response => ⟨true, ok response⟩

/-- The names of outcomes. -/
def UpstreamOutcome.name? : UpstreamOutcome → Option String
  | .succeeded => some "succeeded"
  | .retryableFailure => some "retryable-failure"
  | .permanentFailure => some "permanent-failure"
  | .unknown => some "unknown"
  | .unspecified | .other _ => none

/-- What `tools/call` answers: the structured content, and whether it is an error. -/
structure CallResult where
  outcome : String
  result : Option GoValue := none
  failure : String := ""
  isError : Bool

/-- `outcomeResult`. -/
def Server.outcomeResult (server : Server prims) (outcome : UpstreamOutcome)
    (result failure : String) : CallResult :=
  let name := outcome.name?.getD "unknown"
  let failure :=
    if outcome.name?.isSome then failure else "upstream returned an unspecified outcome"
  if result = "" then
    { outcome := name, failure := failure, isError := outcome ≠ .succeeded }
  else
    match server.unmarshal result with
    | error message =>
      { outcome := "unknown", failure := "upstream result is not JSON: " ++ message
        isError := true }
    | ok decoded =>
      { outcome := name, result := some decoded, failure := failure
        isError := outcome ≠ .succeeded }

/-- A handled call: the answer of the gateway, and what was sent and came back on the way. -/
structure HandledCall where
  reply : Except RpcError CallResult
  sent : Bool
  answer : Option ExecuteResponse

/-- `toolsCall`. -/
def Server.toolsCall (server : Server prims) (upstream : Upstream) (principal : Option Principal)
    (params : Except String CallParams) : HandledCall :=
  match server.admitCall principal params with
  | error failure => ⟨error failure, false, none⟩
  | ok call =>
    let dispatched := upstream.execute call.tool.routeId call.request
    match dispatched.result with
    | error (.noHealthyInstance routeId) =>
      ⟨error (refuse .routeUnhealthy ("route " ++ routeId ++ " has no healthy instance")),
        dispatched.sent, none⟩
    | error (.failed message) =>
      ⟨ok (server.outcomeResult .unknown "" ("upstream transport failure: " ++ message)),
        dispatched.sent, none⟩
    | ok response =>
      ⟨ok (server.outcomeResult response.outcome response.result response.failure),
        dispatched.sent, some response⟩

/-! ### What a call has passed -/

/-- What an authorised call has passed. -/
theorem authorize_eq_ok {principal : Principal} {callMeta : CallMeta} {tool : Tool}
    (h : authorize principal callMeta tool = ok ()) :
    (principal.runId = "" ∨ principal.runId = callMeta.runId) ∧
      allows principal.roles tool.allowedRoles = true := by
  unfold authorize at h
  split at h
  · cases h
  rename_i hrun
  split at h
  · cases h
  rename_i hall
  refine ⟨?_, by simpa using hall⟩
  simp only [Bool.and_eq_true, decide_eq_true_eq, not_and, not_not, ne_eq] at hrun
  exact or_iff_not_imp_left.mpr hrun

/-- **What a call has passed** when it is sent: its tool is in the pinned view, and its caller is
authorised for it. -/
theorem admitted_call {server : Server prims} {principal : Option Principal} {params : CallParams}
    {call : Admission} (h : server.admitCall principal (ok params) = ok call) :
    ∃ view, server.resolveView params.callMeta.toolViewDigest = ok view ∧
      lookupPinned view params.name params.callMeta.toolVersion = ok call.tool ∧
      authorize (effectivePrincipal principal) params.callMeta call.tool = ok () ∧
      call.request.runId = params.callMeta.runId := by
  simp only [Server.admitCall] at h
  split at h
  · cases h
  obtain ⟨view, hview, h⟩ := Fallible.bind_eq_ok.mp h
  obtain ⟨_, htool, h⟩ := Fallible.bind_eq_ok.mp h
  obtain ⟨⟨⟩, haut, h⟩ := Fallible.bind_eq_ok.mp h
  obtain ⟨⟨⟩, -, h⟩ := Fallible.bind_eq_ok.mp h
  cases h
  exact ⟨view, hview, htool, haut, rfl⟩

end Surface

end Flory.Mcp
