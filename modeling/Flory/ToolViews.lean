import Flory.Canonical
import Mathlib.Data.List.Dedup

/-!
# The Identity of a Tool View

`toolview.Build` sorts the admitted contracts, writes their document canonically and names it by
the hash of its bytes. The engine receives the bytes as a text, parses it, encodes it again and
compares the hash (`parseToolView`). The schemas inside a contract are any JSON documents.

The document is the tree that `json.Marshal` and a decoder make of the Go structures: fields
under their tags, without those that `omitempty` leaves out, and a raw message as the document
it holds. SHA-256, with its hexadecimal digits, is a parameter, and so is what `JSON.parse` makes
of a number that is no safe integer. Tools with one id and version, whose order `sort.Slice`
leaves open, keep theirs.

## Main results

* `published_view_accepted`: the engine returns the text of a view and accepts its digest, exactly
  if the documents of its tools are portable.
-/

namespace Flory.ToolView

open Except (error ok)
open Fallible (bind_eq_ok)
open JsonText (Tree)

variable {keys : List String} {document : GoValue}

/-! ### Contracts and documents -/

/-- `Transaction`. -/
structure Transaction where
  effectClass : String
  mode : String
  idempotencyKeyPath : String := ""
  idempotentRetryable : Bool := false
  tryTimeoutS : UInt32 := 0
  confirmTool : String := ""
  cancelTool : String := ""
  compensateTool : String := ""
  statusTool : String := ""
  confirmArguments : List (String × String) := []
  cancelArguments : List (String × String) := []
  compensateArguments : List (String × String) := []

/-- `Retry`. -/
structure Retry where
  maxAttempts : UInt32 := 1
  initialBackoffMs : UInt32 := 0
  multiplierMilli : UInt32 := 0
  maxBackoffMs : UInt32 := 0

/-- `Adapter`. -/
structure Adapter where
  protocol : String
  operation : String := ""

/-- `Tool`. A schema is a raw message, if there is one. -/
structure Tool where
  toolId : String
  toolVersion : String
  description : String := ""
  inputSchema : Option String
  outputSchema : Option String
  routeId : String
  adapter : Adapter
  txn : Transaction
  compensationStyle : String
  footprint : List String := []
  writes : List String := []
  timeoutMs : UInt32
  retry : Retry := {}
  owner : String
  allowedRoles : List String := []
  logFields : List String := []

/-- A number as `json.Marshal` writes it. -/
def number (value : UInt32) : GoValue :=
  .number (toString value.toNat)

/-- A list of strings. -/
def strings (values : List String) : GoValue :=
  .array (values.map .string)

/-- A field with `omitempty`, and whether it is empty. -/
def omitEmpty (key : String) (empty : Bool) (value : GoValue) : List (String × GoValue) :=
  if empty then [] else [(key, value)]

/-- A string with `omitempty`. -/
def omitString (key value : String) : List (String × GoValue) :=
  omitEmpty key (value = "") (.string value)

/-- A list of strings with `omitempty`. -/
def omitStrings (key : String) (values : List String) : List (String × GoValue) :=
  omitEmpty key values.isEmpty (strings values)

/-- An argument mapping with `omitempty`. -/
def omitArguments (key : String) (arguments : List (String × String)) : List (String × GoValue) :=
  omitEmpty key arguments.isEmpty (.object (arguments.map (Prod.map id .string)))

/-- The document of a `Transaction`. -/
def Transaction.tree (txn : Transaction) : GoValue :=
  .object ([("effect_class", .string txn.effectClass), ("mode", .string txn.mode)] ++
    omitString "idempotency_key_path" txn.idempotencyKeyPath ++
    [("idempotent_retryable", .bool txn.idempotentRetryable)] ++
    omitEmpty "try_timeout_s" (txn.tryTimeoutS = 0) (number txn.tryTimeoutS) ++
    omitString "confirm_tool" txn.confirmTool ++
    omitString "cancel_tool" txn.cancelTool ++
    omitString "compensate_tool" txn.compensateTool ++
    omitString "status_tool" txn.statusTool ++
    omitArguments "confirm_arguments" txn.confirmArguments ++
    omitArguments "cancel_arguments" txn.cancelArguments ++
    omitArguments "compensate_arguments" txn.compensateArguments)

/-- The document of a `Retry`. -/
def Retry.tree (retry : Retry) : GoValue :=
  .object [("max_attempts", number retry.maxAttempts),
    ("initial_backoff_ms", number retry.initialBackoffMs),
    ("multiplier_milli", number retry.multiplierMilli),
    ("max_backoff_ms", number retry.maxBackoffMs)]

/-- The document of an `Adapter`. -/
def Adapter.tree (adapter : Adapter) : GoValue :=
  .object ([("protocol", .string adapter.protocol)] ++ omitString "operation" adapter.operation)

/-- What Go's decoder makes of a JSON text: half a surrogate pair becomes the replacement
character. -/
def goValue : Tree (List ℕ) (List ℕ) → GoValue :=
  Tree.fold
    { null := .null
      bool := .bool
      number := fun literal => .number (String.ofList (Utf16.decode literal))
      string := fun value => .string (String.ofList (Utf16.decode value))
      array := .array
      object := fun entries =>
        .object (entries.map (Prod.map (fun key => String.ofList (Utf16.decode key)) id)) }

/-- A raw message: `null` when there is none, and otherwise the document it holds, if it holds
one. -/
def rawMessage : Option String → Except String GoValue
  | none => ok .null
  | some text =>
    match JsonText.parse (units text) with
    | some tree => ok (goValue tree)
    | none => error "canonical: marshal: json: error calling MarshalJSON for type json.RawMessage"

/-- The document of a `Tool`. -/
def Tool.tree (tool : Tool) : Except String GoValue := do
  let inputSchema ← rawMessage tool.inputSchema
  let outputSchema ← rawMessage tool.outputSchema
  ok (.object ([("tool_id", .string tool.toolId), ("tool_version", .string tool.toolVersion)] ++
    omitString "description" tool.description ++
    [("input_schema", inputSchema), ("output_schema", outputSchema),
      ("route_id", .string tool.routeId), ("adapter", tool.adapter.tree), ("txn", tool.txn.tree),
      ("compensation_style", .string tool.compensationStyle),
      ("footprint", strings tool.footprint), ("writes", strings tool.writes),
      ("timeout_ms", number tool.timeoutMs), ("retry_constraints", tool.retry.tree),
      ("owner", .string tool.owner)] ++
    omitStrings "allowed_roles" tool.allowedRoles ++
    omitStrings "log_fields" tool.logFields))

/-- The document of a view, with `Version`. -/
def documentTree (tools : List Tool) : Except String GoValue := do
  let documents ← tools.mapM Tool.tree
  ok (.object [("tool_view_version", .string "2"), ("tools", .array documents)])

/-! ### Building a view -/

/-- `sortedCopy`. -/
def sortedCopy (values : List String) : List String :=
  values.insertionSort fun one other => goBytes one ≤ goBytes other

/-- `sortedUnique`. -/
def sortedUnique (values : List String) : List String :=
  sortedCopy values.dedup

/-- The order of the tools of a view: by id, then by version. -/
def Tool.precedes (one other : Tool) : Bool :=
  if one.toolId ≠ other.toolId then goBytes one.toolId < goBytes other.toolId
  else goBytes one.toolVersion ≤ goBytes other.toolVersion

/-- A tool with its set-like fields sorted. -/
def Tool.ordered (tool : Tool) : Tool :=
  { tool with
    footprint := sortedCopy tool.footprint
    writes := sortedCopy tool.writes
    allowedRoles := sortedUnique tool.allowedRoles }

/-- `Published`: the bytes of a view and their identity. -/
structure Published where
  ref : String
  digest : String
  tools : List Tool
  canonical : ByteArray

section Identity

variable (sha256 : ByteArray → String)

/-- `Digest`. -/
def digest (canonical : ByteArray) : String :=
  "sha256:" ++ sha256 canonical

/-- A text with its first colon replaced by a hyphen. -/
def hyphenated : List Char → List Char
  | [] => []
  | symbol :: rest => if symbol = ':' then '-' :: rest else symbol :: hyphenated rest

/-- `Ref`, and the engine's `toolViewRef`. -/
def ref (digest : String) : String :=
  "tool-views/" ++ String.ofList (hyphenated digest.toList) ++ ".json"

/-- The tools of a view, as `Build` sorts them. -/
def ordered (tools : List Tool) : List Tool :=
  (tools.map Tool.ordered).insertionSort fun one other => one.precedes other = true

/-- The canonical text of a view. -/
def viewText (tools : List Tool) : Except String (List Char) := do
  let document ← documentTree (ordered tools)
  writeCanonical document

/-- `Build`. -/
def build (tools : List Tool) : Except String Published := do
  let text ← viewText tools
  let canonical := (String.ofList text).toByteArray
  ok ⟨ref (digest sha256 canonical), digest sha256 canonical, ordered tools, canonical⟩

/-! ### Reading a view -/

/-- The text of received bytes, as JavaScript has it. -/
def received (bytes : ByteArray) : Option (List ℕ) :=
  bytes.utf8Decode?.map fun text => Utf16.encode text.toList

/-- The bytes of a JavaScript text. -/
def utf8 (text : List ℕ) : ByteArray :=
  (String.ofList (Utf16.decode text)).toByteArray

/-- `digestOf`. -/
def digestOf (canonical : List ℕ) : String :=
  "sha256:" ++ sha256 (utf8 canonical)

/-- What `parseToolView` returns. -/
structure Parsed where
  document : JsValue
  toolViewRef : String
  toolViewDigest : String

/-- `parseToolView`. -/
def parseToolView (double : List ℕ → JsNumber) (canonical : List ℕ)
    (expectedDigest : Option String) : Except String Parsed :=
  match jsonParse double canonical with
  | none => error "SyntaxError"
  | some document => do
      let text ← canonicalize document
      let digest := digestOf sha256 text
      match expectedDigest with
      | some expected =>
        if digest ≠ expected then
          error ("parseToolView: document canonicalises to " ++ digest ++ ", not " ++ expected)
        else ok ⟨document, ref digest, digest⟩
      | none => ok ⟨document, ref digest, digest⟩

end Identity

/-! ### Portable contracts -/

/-- **A portable contract**: its document, as it stands in a view, is portable. -/
def Tool.portable (tool : Tool) : Bool :=
  match tool.ordered.tree with
  | ok document => Flory.portable document
  | error _ => true

variable {tools : List Tool}

/-- The document of a view is portable exactly if its contracts are. -/
theorem portable_documentTree (h : documentTree (ordered tools) = ok document) :
    Flory.portable document = true ↔ ∀ tool ∈ tools, tool.portable = true := by
  obtain ⟨documents, hdocs, hdoc⟩ := bind_eq_ok.mp h
  cases hdoc
  have hentries : (OrderedMap.ofEntries [("tool_view_version", Tree.string "2"),
      ("tools", .array documents)]).entries = _ := OrderedMap.entries_ofEntries (by simp)
  have hagree : keysAgree ["tool_view_version", "tools"] = true := by decide +kernel
  have hview : ∀ tool ∈ tools, ∃ document ∈ documents, tool.ordered.tree = ok document :=
    fun tool htool => Fallible.exists_right_of_mem (Fallible.mapM_eq_ok.mp hdocs)
      ((List.mem_insertionSort _).mpr (List.mem_map_of_mem htool))
  rw [portable_object, hentries]
  simp only [List.map_cons, List.map_nil, hagree, and_true, List.forall_mem_cons, portable_array]
  constructor
  · rintro ⟨-, hall, -⟩ tool htool
    obtain ⟨document, hmem, htree⟩ := hview tool htool
    rw [Tool.portable, htree]
    exact hall document hmem
  · intro hall
    refine ⟨rfl, fun document hmem => ?_, List.forall_mem_nil _⟩
    obtain ⟨tool, htool, htree⟩ := Fallible.exists_of_mem_mapM hdocs hmem
    obtain ⟨original, horig, rfl⟩ := List.mem_map.mp ((List.mem_insertionSort _).mp htool)
    have hpor := hall original horig
    rwa [Tool.portable, htree] at hpor

/-! ### The engine accepts what the gateway publishes -/

theorem received_toByteArray (text : List Char) :
    received (String.ofList text).toByteArray = some (Utf16.encode text) := by
  rw [received, String.toByteArray_ofList, List.utf8Decode?_utf8Encode]
  rfl

theorem utf8_encode (text : List Char) :
    utf8 (Utf16.encode text) = (String.ofList text).toByteArray := by
  rw [utf8, Utf16.decode_encode]

/-- The engine receives the bytes of a view as a text, parses it, and encodes what it parsed to that
text and so to the same bytes; and it accepts the view under the digest the gateway published. -/
def ReadsBack (sha256 : ByteArray → String) (double : List ℕ → JsNumber) (published : Published) :
    Prop :=
  ∃ text document, received published.canonical = some text ∧
    jsonParse double text = some document ∧ canonicalize document = ok text ∧
    (canonicalize document).map utf8 = ok published.canonical ∧
    parseToolView sha256 double text (some published.digest) =
      ok ⟨document, published.ref, published.digest⟩

/-- **Go and TypeScript agree on a tool view's identity** exactly if its contracts are portable. -/
theorem published_view_accepted (sha256 : ByteArray → String) {double : List ℕ → JsNumber}
    (hround : RoundsOutside double) {tools : List Tool} {published : Published}
    (hbuild : build sha256 tools = ok published) :
    ReadsBack sha256 double published ↔ ∀ tool ∈ tools, tool.portable = true := by
  obtain ⟨text, htext, hpub⟩ := bind_eq_ok.mp hbuild
  cases hpub
  obtain ⟨_, htree, hwrite⟩ := bind_eq_ok.mp htext
  rw [← portable_documentTree htree, ← reencoded_iff hround hwrite]
  constructor
  · rintro ⟨units, document, hunits, hparse, hcan, -, -⟩
    obtain rfl := Option.some.inj ((received_toByteArray text).symm.trans hunits)
    exact ⟨document, hparse, hcan⟩
  · rintro ⟨document, hparse, hcan⟩
    have hdig : digestOf sha256 (Utf16.encode text) =
        digest sha256 (String.ofList text).toByteArray := by
      rw [digestOf, utf8_encode, digest]
    refine ⟨Utf16.encode text, document, received_toByteArray text, hparse, hcan, ?_, ?_⟩
    · rw [hcan, Except.map, utf8_encode]
    simp only [parseToolView, hparse, hcan]
    refine bind_eq_ok.mpr ⟨_, rfl, ?_⟩
    rw [hdig]
    exact if_neg (not_not.mpr rfl)

/-- A contract with a given input schema. -/
def schemaTool (inputSchema : String) : Tool where
  toolId := "quote"
  toolVersion := "1"
  inputSchema := some inputSchema
  outputSchema := some "\x7b\x7d"
  routeId := "shop"
  adapter := { protocol := "grpc" }
  txn := { effectClass := "none", mode := "plain" }
  compensationStyle := "not-compensating"
  timeoutMs := 1000
  owner := "shop"
  allowedRoles := ["planner"]

/-- A portable schema. -/
def plainSchema : String :=
  "\x7b\"type\":\"object\",\"maximum\":9\x7d"

/-- A test of the text of a view and of what the engine makes of it. -/
def reencodes (tools : List Tool) (test : List Char → Except String (List ℕ) → Bool) : Bool :=
  match viewText tools with
  | error _ => false
  | ok text =>
    match jsonParse .other (Utf16.encode text) with
    | none => false
    | some document => test text (canonicalize document)

/-- What a test of a view says. -/
theorem exists_of_reencodes {test : List Char → Except String (List ℕ) → Bool}
    (h : reencodes tools test = true) : ∃ text document, viewText tools = ok text ∧
      jsonParse .other (Utf16.encode text) = some document ∧
      test text (canonicalize document) = true := by
  unfold reencodes at h
  split at h
  · cases h
  rename_i text htext
  split at h
  · cases h
  · rename_i document hdoc
    exact ⟨text, document, htext, hdoc, h⟩

/-- The view of one contract with a portable schema. -/
theorem published_view_accepted_schema :
    ∃ published, build (fun _ => "0") [schemaTool plainSchema] = ok published ∧
      ReadsBack (fun _ => "0") .other published := by
  have hview : reencodes [schemaTool plainSchema] (fun _ _ => true) = true := by decide +kernel
  obtain ⟨text, -, htext, -⟩ := exists_of_reencodes hview
  have hbuild : build (fun _ => "0") [schemaTool plainSchema] = ok _ :=
    bind_eq_ok.mpr ⟨text, htext, rfl⟩
  exact ⟨_, hbuild, (published_view_accepted (fun _ => "0") (fun literal _ _ => ⟨literal, rfl⟩)
    hbuild).mpr (by decide +kernel)⟩

/-- The gateway publishes the view of these tools, and the engine does not return its bytes. -/
def Diverges (tools : List Tool) : Prop :=
  ∃ published text document, build (fun _ => "0") tools = ok published ∧
    received published.canonical = some text ∧ jsonParse .other text = some document ∧
    (canonicalize document).map utf8 ≠ ok published.canonical

/-- Whether what the engine writes is another text, or nothing. -/
def differs (text : List Char) (again : Except String (List ℕ)) : Bool :=
  match again with
  | ok again => Utf16.decode again ≠ text
  | error _ => true

/-- A view whose text is not written again diverges. -/
theorem diverges_of_reencodes (h : reencodes tools differs = true) : Diverges tools := by
  obtain ⟨text, document, htext, hdoc, hdif⟩ := exists_of_reencodes h
  refine ⟨_, Utf16.encode text, document, bind_eq_ok.mpr ⟨text, htext, rfl⟩,
    received_toByteArray text, hdoc, fun hsame => ?_⟩
  cases hagain : canonicalize document with
  | error =>
    rw [hagain] at hsame
    cases hsame
  | ok again =>
    rw [hagain] at hsame hdif
    have hbyt : utf8 again = (String.ofList text).toByteArray := Except.ok.inj hsame
    have htex := String.toByteArray_inj.mp hbyt
    have hlis : Utf16.decode again = text := by
      simpa using congrArg String.toList htex
    simp [differs, hlis] at hdif

/-- An integer that JavaScript cannot hold exactly. -/
def largeSchema : String :=
  "\x7b\"maximum\":9007199254740993\x7d"

/-- Minus zero. -/
def minusZeroSchema : String :=
  "\x7b\"minimum\":-0\x7d"

/-- Two keys whose bytes and units are in different orders: the first symbol of the private use
area, and the first one beyond the basic plane. -/
def unorderedSchema : String :=
  "\x7b\"\uE000\":1,\"" ++ String.singleton (Char.ofNat 0x10000) ++ "\":2\x7d"

/-- **Views on which Go and TypeScript disagree**: the engine refuses an integer beyond its safe
range, writes minus zero as zero, and sorts keys beyond the basic plane before those of its end. -/
theorem published_views_diverge :
    Diverges [schemaTool largeSchema] ∧ Diverges [schemaTool minusZeroSchema] ∧
      Diverges [schemaTool unorderedSchema] :=
  ⟨diverges_of_reencodes (by decide +kernel), diverges_of_reencodes (by decide +kernel),
    diverges_of_reencodes (by decide +kernel)⟩

end Flory.ToolView
