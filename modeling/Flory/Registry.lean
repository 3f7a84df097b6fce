import Flory.Contracts
import Flory.Fallible
import Flory.Transition

/-!
# The Tool Registry

`registry.Registry`: the contracts the gateway knows, and the view it publishes of those it has
admitted. `Register` records a batch and `Resolve` records nothing; both then run the pending
contracts to a fixed point and publish the admitted ones, if they are others than before.

`FromProto` has made a contract of what was transmitted, with its footprint, writes and roles
sorted, or has refused it as malformed; `Build` sorts those lists once more, which changes
nothing and is left out. The encoder of a contract and the hash of a view are parameters. What the
gateway asks around it, the health of routes, the role catalogue and the blob store, answers as
the environment of each call says.

A record is rejected, or it has a contract and is pending or admitted. The flag by which the
gateway remembers that a record was admitted once is set with the state, and no record goes
back from it, so that the state says both.

## Main results

* `resolvePending_eq`: the fixed point is reached in one pass, whatever the order of the records.
* `recordOf_ok`: what registering one contract does to the record under its key.
* `Registry.step_cases`: what a call does, and that one that does not fail has published the
  admitted contracts.
-/

namespace Flory

open Except (error ok)
open Fallible (bind_eq_ok map_eq_ok)

/-! ### Records -/

/-- `Key`: the name of one published contract. -/
structure ToolKey where
  toolId : String
  toolVersion : String
  deriving DecidableEq, Repr

/-- A key as messages spell it. -/
def ToolKey.name (key : ToolKey) : String :=
  key.toolId ++ "@" ++ key.toolVersion

/-- The key of a contract. -/
def ToolContract.key (tool : ToolContract) : ToolKey :=
  ⟨tool.toolId, tool.toolVersion⟩

/-- What the registry takes from `toolview` and the schema compiler: the canonical bytes of a
contract, the digest of a document, and the error of a schema. -/
structure Codec where
  canonical : ToolContract → Except String String
  digest : String → String
  schemaError : String → Json → Option String

/-- A contract with its canonical bytes. -/
structure Encoded (codec : Codec) where
  tool : ToolContract
  canonical : String
  encodes : codec.canonical tool = ok canonical

/-- `record`, by its state, with the admission code and the detail last reported. -/
inductive RegistryRecord (codec : Codec)
  | rejected (violation : Violation)
  | pending (contract : Encoded codec) (status : Option Violation)
  | admitted (contract : Encoded codec) (status : Option Violation)

/-- The records by key. -/
abbrev Records (codec : Codec) :=
  Table ToolKey (RegistryRecord codec)

namespace RegistryRecord

variable {codec : Codec}

/-- The contract of a record that is not rejected. -/
def contract? : RegistryRecord codec → Option (Encoded codec)
  | .rejected _ => none
  | .pending contract _ | .admitted contract _ => some contract

/-- The contract of an admitted record. -/
def admitted? : RegistryRecord codec → Option (Encoded codec)
  | .admitted contract _ => some contract
  | _ => none

/-- The contract of a pending record. -/
def pending? : RegistryRecord codec → Option (Encoded codec)
  | .pending contract _ => some contract
  | _ => none

/-- A record with another status. -/
def report (status : Option Violation) : RegistryRecord codec → RegistryRecord codec
  | .rejected violation => .rejected violation
  | .pending contract _ => .pending contract status
  | .admitted contract _ => .admitted contract status

end RegistryRecord

/-! ### Registering -/

/-- What `FromProto` makes of a transmitted contract. -/
inductive Transmitted
  | malformed (key : ToolKey) (detail : String)
  | contract (tool : ToolContract)

/-- The key under which a transmitted contract is recorded. -/
def Transmitted.key : Transmitted → ToolKey
  | .malformed key _ => key
  | .contract tool => tool.key

/-- The world around a call: which routes have a healthy instance, what the role catalogue
answers, if there is one, and whether the blob store takes a view. -/
structure RegistryEnv where
  routable : String → Bool := fun _ => true
  roleEnabled : Option (String → Except String Bool) := none
  put : Except String Unit := ok ()

/-- The first role of a contract that the catalogue does not enable. -/
def unknownRole (roleEnabled : String → Except String Bool) :
    List String → Except String (Option String)
  | [] => ok none
  | role :: rest =>
    match roleEnabled role with
    | error err => error ("registry: resolve role " ++ role ++ ": " ++ err)
    | ok true => unknownRole roleEnabled rest
    | ok false => ok (some role)

/-- The check of a contract's roles, where there is a catalogue. -/
def checkRoles (env : RegistryEnv) (tool : ToolContract) : Except String (Option String) :=
  match env.roleEnabled with
  | none => ok none
  | some roleEnabled => unknownRole roleEnabled tool.allowedRoles

section Registering

variable {codec : Codec}

/-- A contract under a key that is free or rejected: it is rejected, or pending from now on. -/
def recordNew (env : RegistryEnv) (contract : Encoded codec) : Except String (RegistryRecord codec) :=
  match validateStructure codec.schemaError contract.tool with
  | some violation => ok (.rejected violation)
  | none =>
    match checkRoles env contract.tool with
    | error err => error err
    | ok (some role) => ok (.rejected ⟨.malformedContract,
        "allowed role " ++ role ++ " does not exist or is disabled"⟩)
    | ok none => ok (.pending contract none)

/-- A contract under a key that holds one: the same one changes nothing, another is refused. -/
def recordAgain (key : ToolKey) (existing contract : Encoded codec)
    (stored : RegistryRecord codec) : RegistryRecord codec :=
  if existing.canonical = contract.canonical then stored
  else stored.report (some ⟨.immutableVersionConflict, key.name ++
    " is already published with a different contract; publish a new tool_version instead"⟩)

/-- The canonical form of a contract, or why it has none. -/
def encode (codec : Codec) (tool : ToolContract) : Except String (Encoded codec) :=
  match h : codec.canonical tool with
  | ok canonical => ok ⟨tool, canonical, h⟩
  | error err => error err

/-- What the record under a contract's key becomes. -/
def recordOf (env : RegistryEnv) (stored : Option (RegistryRecord codec)) :
    Transmitted → Except String (RegistryRecord codec)
  | .malformed _ detail => ok (.rejected ⟨.malformedContract, detail⟩)
  | .contract tool =>
    match encode codec tool with
    | error detail => ok (.rejected ⟨.malformedContract, detail⟩)
    | ok contract =>
      match stored with
      | some (.pending existing status) =>
        ok (recordAgain tool.key existing contract (.pending existing status))
      | some (.admitted existing status) =>
        ok (recordAgain tool.key existing contract (.admitted existing status))
      | _ => recordNew env contract

/-- One turn of `Register`. -/
def registerOne (env : RegistryEnv) (records : Records codec) (transmitted : Transmitted) :
    Except String (Records codec) :=
  (recordOf env (records.lookup transmitted.key) transmitted).map fun stored =>
    records.insert transmitted.key stored

/-- The loop of `Register`, which stops where the role catalogue fails and leaves recorded what
came before. -/
def registerAll (env : RegistryEnv) (records : Records codec) :
    List Transmitted → Records codec × Except String Unit
  | [] => (records, ok ())
  | transmitted :: rest =>
    match registerOne env records transmitted with
    | error err => (records, error err)
    | ok records' => registerAll env records' rest

end Registering

/-! ### Resolving -/

section Resolving

variable {codec : Codec}

/-- The contracts that are not rejected. -/
def Records.live (records : Records codec) : List ToolContract :=
  records.entries.filterMap fun entry => entry.2.contract?.map Encoded.tool

/-- One pending record: it is admitted when its companions resolve and its route is healthy. -/
def resolveRecord (env : RegistryEnv) (registered : List ToolContract) :
    RegistryRecord codec → RegistryRecord codec
  | .pending contract _ =>
    match resolveCompanions registered contract.tool with
    | some violation => .pending contract (some violation)
    | none =>
      if env.routable contract.tool.routeId then .admitted contract none
      else .pending contract (some ⟨.unresolvedCompanion,
        "route " ++ contract.tool.routeId ++ " has no routable instance yet"⟩)
  | stored => stored

/-- One turn of a pass of `resolvePending`: the record under a key is resolved against the
records as they are by then. -/
def visitRecord (env : RegistryEnv) (state : Records codec × Bool) (key : ToolKey) :
    Records codec × Bool :=
  match state.1.lookup key with
  | none => state
  | some stored =>
    let resolved := resolveRecord env state.1.live stored
    (state.1.mapRows fun k row => if k = key then resolved else row,
      state.2 || (stored.pending?.isSome && resolved.admitted?.isSome))

/-- A pass of `resolvePending`, over the keys in some order. -/
def resolvePass (env : RegistryEnv) (order : List ToolKey) (records : Records codec) :
    Records codec × Bool :=
  order.foldl (visitRecord env) (records, false)

/-- `resolvePending`: passes until one of them admits nothing. -/
def resolveRounds (env : RegistryEnv) : ℕ → Records codec → Records codec
  | 0, records => records
  | fuel + 1, records =>
    match resolvePass env records.keys records with
    | (records', true) => resolveRounds env fuel records'
    | (records', false) => records'

@[inherit_doc resolveRounds]
def resolvePending (env : RegistryEnv) (records : Records codec) : Records codec :=
  resolveRounds env (records.keys.length + 1) records

end Resolving

/-! ### Publishing -/

/-- `Published`: a view, its canonical bytes and its digest. -/
structure PublishedView where
  tools : List ToolContract
  canonical : String
  digest : String

/-- The order of contracts in a view: by name, then by version. -/
def ToolContract.precedes (first second : ToolContract) : Bool :=
  if first.toolId = second.toolId then decide (first.toolVersion ≤ second.toolVersion)
  else decide (first.toolId < second.toolId)

/-- `Build`. -/
def build (codec : Codec) (tools : List ToolContract) : Except String PublishedView := do
  let ordered := tools.insertionSort fun first second => first.precedes second = true
  let parts ← ordered.mapM codec.canonical
  let canonical := "\x7b\"tool_view_version\":\"2\",\"tools\":[" ++ ",".intercalate parts ++ "]\x7d"
  ok ⟨ordered, canonical, codec.digest canonical⟩

/-- `Registry`: the records and the published view. -/
structure Registry (codec : Codec) where
  records : Records codec := ∅
  current : Option PublishedView := none

namespace Registry

variable {codec : Codec}

/-- The contracts that are admitted. -/
def admitted (records : Records codec) : List ToolContract :=
  records.entries.filterMap fun entry => entry.2.admitted?.map Encoded.tool

/-- The first input schema of a view that does not compile. -/
def uncompiled (codec : Codec) (view : PublishedView) : Option String :=
  view.tools.findSome? fun tool => codec.schemaError tool.key.name tool.inputSchema

/-- `resolveAndPublish`. -/
def resolveAndPublish (env : RegistryEnv) (registry : Registry codec) :
    Registry codec × Except String Unit :=
  let registry := { registry with records := resolvePending env registry.records }
  match build codec (admitted registry.records) with
  | error err => (registry, error err)
  | ok published =>
    if registry.current.map PublishedView.digest = some published.digest then (registry, ok ())
    else
      match uncompiled codec published with
      | some err => (registry, error ("registry: " ++ err))
      | none =>
        match env.put with
        | error err => (registry, error err)
        | ok () => ({ registry with current := some published }, ok ())

/-- `Register`, and whether it succeeded. -/
def register (env : RegistryEnv) (contracts : List Transmitted) (registry : Registry codec) :
    Registry codec × Except String Unit :=
  match registerAll env registry.records contracts with
  | (records, error err) => ({ registry with records := records }, error err)
  | (records, ok ()) => resolveAndPublish env { registry with records := records }

end Registry

/-- A call of the registry. -/
inductive RegistryCall
  | register (env : RegistryEnv) (contracts : List Transmitted)
  | resolve (env : RegistryEnv)

/-- The registry after a call, whether it fails or not. -/
def Registry.step {codec : Codec} (registry : Registry codec) : RegistryCall → Option (Registry codec)
  | .register env contracts => some (registry.register env contracts).1
  | .resolve env => some (registry.resolveAndPublish env).1

/-- The registries reached from an empty one by calls that all meet a condition. -/
abbrev RegistryReachable (codec : Codec) (allowed : Registry codec → RegistryCall → Prop) :
    Registry codec → Prop :=
  Transition.Reachable Registry.step allowed {}

/-! ### The fixed point -/

section FixedPoint

variable {codec : Codec} {env : RegistryEnv} {records : Records codec}

/-- Rewriting records without touching their contracts keeps the contracts. -/
theorem live_mapRows {f : ToolKey → RegistryRecord codec → RegistryRecord codec}
    (hf : ∀ key stored, (f key stored).contract? = stored.contract?) :
    Records.live (records.mapRows f) = records.live := by
  simp only [Records.live, Table.mapRows, List.filterMap_map]
  exact List.filterMap_congr fun entry _ => by simp [hf]

/-- Resolving a record keeps its contract. -/
@[simp] theorem resolveRecord_contract? (registered : List ToolContract)
    (stored : RegistryRecord codec) :
    (resolveRecord env registered stored).contract? = stored.contract? := by
  cases stored with
  | pending =>
    unfold resolveRecord
    dsimp only
    split
    · rfl
    · split <;> rfl
  | _ => rfl

/-- Resolving a record twice is resolving it once. -/
theorem resolveRecord_idem (registered : List ToolContract) (stored : RegistryRecord codec) :
    resolveRecord env registered (resolveRecord env registered stored) =
      resolveRecord env registered stored := by
  cases stored with
  | pending contract =>
    cases hres : resolveCompanions registered contract.tool with
    | some => simp [resolveRecord, hres]
    | none => by_cases hroute : env.routable contract.tool.routeId = true <;>
        simp [resolveRecord, hres, hroute]
  | _ => rfl

/-- The records after some keys were visited, against the contracts of the first record. -/
def visited (env : RegistryEnv) (keys : List ToolKey) (records : Records codec) : Records codec :=
  records.mapRows fun key stored =>
    if key ∈ keys then resolveRecord env records.live stored else stored

theorem live_visited (keys : List ToolKey) : (visited env keys records).live = records.live := by
  refine live_mapRows fun key stored => ?_
  split <;> simp

/-- A turn of a pass visits one more key. -/
theorem visitRecord_visited (keys : List ToolKey) (changed : Bool) (key : ToolKey) :
    (visitRecord env (visited env keys records, changed) key).1 =
      visited env (key :: keys) records := by
  have hlook : AList.lookup key (visited env keys records) = (records.lookup key).map fun stored =>
      if key ∈ keys then resolveRecord env records.live stored else stored :=
    Table.lookup_mapRows
  unfold visitRecord
  cases hstor : records.lookup key with
  | none =>
    simp only [hlook, hstor, Option.map_none]
    refine Table.mapRows_congr fun k row hrow => ?_
    have hne : k ≠ key := by
      rintro rfl
      rw [hstor] at hrow
      cases hrow
    simp [hne]
  | some =>
    simp only [hlook, hstor, Option.map_some, live_visited]
    rw [visited, Table.mapRows_mapRows]
    refine Table.mapRows_congr fun k row hrow => ?_
    by_cases hk : k = key
    · subst hk
      obtain rfl := Option.mem_unique hstor hrow
      by_cases hmem : k ∈ keys
      · simp [hmem, resolveRecord_idem]
      · simp [hmem]
    · simp [hk]

/-- A pass visits every key of its order. -/
theorem foldl_visitRecord (order keys : List ToolKey) (changed : Bool) :
    (order.foldl (visitRecord env) (visited env keys records, changed)).1 =
      visited env (order.reverse ++ keys) records := by
  induction order generalizing keys changed with
  | nil => rfl
  | cons key rest ih =>
    rw [List.foldl_cons]
    have hturn : visitRecord env (visited env keys records, changed) key =
        (visited env (key :: keys) records,
          (visitRecord env (visited env keys records, changed) key).2) := by
      rw [← visitRecord_visited keys changed key]
    rw [hturn, ih, List.reverse_cons, List.append_assoc, List.singleton_append]

/-- The records with every pending one resolved. -/
def resolvedRecords (env : RegistryEnv) (records : Records codec) : Records codec :=
  records.mapRows fun _ stored => resolveRecord env records.live stored

/-- **A pass resolves every record it visits**, whatever their order. -/
theorem resolvePass_fst {order : List ToolKey} (hord : ∀ key ∈ records.keys, key ∈ order) :
    (resolvePass env order records).1 = resolvedRecords env records := by
  have hstart : visited env [] records = records := by simp [visited]
  have hpass : (order.foldl (visitRecord env) (visited env [] records, false)).1 = _ :=
    foldl_visitRecord order [] false
  rw [hstart] at hpass
  rw [resolvePass, hpass]
  refine Table.mapRows_congr fun key stored hstor => ?_
  have hmem : key ∈ order := hord key (AList.lookup_isSome.mp (by simp [hstor]))
  simp [hmem]

/-- Records of which none would be resolved any further. -/
def Settled (env : RegistryEnv) (records : Records codec) : Prop :=
  ∀ key stored, records.lookup key = some stored → resolveRecord env records.live stored = stored

/-- Resolved records are settled. -/
theorem settled_resolvedRecords : Settled env (resolvedRecords env records) := by
  intro key stored hstor
  have hlive : (resolvedRecords env records).live = records.live :=
    live_mapRows fun _ _ => resolveRecord_contract? _ _
  rw [resolvedRecords, Table.lookup_mapRows] at hstor
  obtain ⟨_, -, rfl⟩ := Option.map_eq_some_iff.mp hstor
  rw [hlive, resolveRecord_idem]

/-- A visit of settled records changes nothing. -/
theorem visitRecord_settled (h : Settled env records) (key : ToolKey) :
    visitRecord env (records, false) key = (records, false) := by
  unfold visitRecord
  cases hstor : records.lookup key with
  | none => rfl
  | some stored =>
    have hsame : records.mapRows (fun k row => if k = key then stored else row) = records := by
      refine (Table.mapRows_congr fun k row hrow => ?_).trans Table.mapRows_id
      split
      · rename_i hk
        subst hk
        exact Option.mem_unique hstor hrow
      · rfl
    have hflag : (stored.pending?.isSome && stored.admitted?.isSome) = false := by
      cases stored <;> rfl
    simp only [h key stored hstor, hsame, hflag, Bool.or_self]

/-- Rounds over settled records change nothing. -/
theorem resolveRounds_settled (h : Settled env records) (fuel : ℕ) :
    resolveRounds env fuel records = records := by
  have hpass : ∀ order : List ToolKey,
      order.foldl (visitRecord env) (records, false) = (records, false) := by
    intro order
    induction order with
    | nil => rfl
    | cons key rest ih => rw [List.foldl_cons, visitRecord_settled h, ih]
  cases fuel with
  | zero => rfl
  | succ => simp [resolveRounds, resolvePass, hpass]

/-- **The fixed point is reached in one pass**: every pending record is resolved against the
contracts that are not rejected, which no admission changes. -/
theorem resolvePending_eq : resolvePending env records = resolvedRecords env records := by
  have hpass : (resolvePass env records.keys records).1 = resolvedRecords env records :=
    resolvePass_fst fun _ hkey => hkey
  unfold resolvePending resolveRounds
  split
  · rename_i records' heq
    obtain rfl : records' = resolvedRecords env records := by
      rw [heq] at hpass
      exact hpass
    exact resolveRounds_settled settled_resolvedRecords _
  · rename_i records' heq
    rw [heq] at hpass
    exact hpass

theorem lookup_resolvePending (key : ToolKey) :
    (resolvePending env records).lookup key =
      (records.lookup key).map (resolveRecord env records.live) := by
  rw [resolvePending_eq, resolvedRecords, Table.lookup_mapRows]

end FixedPoint

/-! ### What a registration does -/

/-- Whether a transmitted contract is malformed: it could not be read, or cannot be encoded. -/
def Transmitted.isMalformed (codec : Codec) : Transmitted → Bool
  | .malformed _ _ => true
  | .contract tool =>
    match codec.canonical tool with
    | ok _ => false
    | error _ => true

/-- The contract that is recorded under a key and not rejected. -/
def Records.contractAt {codec : Codec} (records : Records codec) (key : ToolKey) :
    Option (Encoded codec) :=
  (records.lookup key).bind RegistryRecord.contract?

/-- The contract that is admitted under a key. -/
def Records.admittedAt {codec : Codec} (records : Records codec) (key : ToolKey) :
    Option (Encoded codec) :=
  (records.lookup key).bind RegistryRecord.admitted?

section Registered

variable {codec : Codec} {env : RegistryEnv} {transmitted : Transmitted} {records : Records codec}

/-- **What a record becomes when a contract is registered under its key**: rejected, if the
contract is malformed or no other is there; what it was, but for its status, if another is there;
or pending. -/
inductive Recorded (codec : Codec) (transmitted : Transmitted) :
    Option (RegistryRecord codec) → RegistryRecord codec → Prop
  | rejected {stored : Option (RegistryRecord codec)} (violation : Violation)
      (hwhy : transmitted.isMalformed codec = true ∨ stored.bind RegistryRecord.contract? = none) :
      Recorded codec transmitted stored (.rejected violation)
  | kept {stored stored' : RegistryRecord codec} (hmalformed : transmitted.isMalformed codec = false)
      (hcontract : stored'.contract? = stored.contract?)
      (hadmitted : stored'.admitted? = stored.admitted?) (hlive : stored.contract?.isSome = true) :
      Recorded codec transmitted (some stored) stored'
  | new {stored : Option (RegistryRecord codec)} (contract : Encoded codec)
      (htransmitted : transmitted = .contract contract.tool)
      (hfree : stored.bind RegistryRecord.contract? = none)
      (hstructured : validateStructure codec.schemaError contract.tool = none) :
      Recorded codec transmitted stored (.pending contract none)

/-- A contract is encoded, or it is malformed. -/
theorem encode_cases (codec : Codec) (tool : ToolContract) :
    (∃ contract, encode codec tool = ok contract ∧ contract.tool = tool ∧
      (Transmitted.contract tool).isMalformed codec = false) ∨
    (∃ err, encode codec tool = error err ∧ (Transmitted.contract tool).isMalformed codec = true) := by
  unfold encode Transmitted.isMalformed
  split
  · rename_i canonical heq
    exact .inl ⟨_, rfl, rfl, by simp [heq]⟩
  · rename_i err heq
    exact .inr ⟨err, rfl, by simp [heq]⟩

/-- A contract registered again leaves its record, but for the status. -/
theorem recordAgain_contract? (key : ToolKey) (existing contract : Encoded codec)
    (stored : RegistryRecord codec) :
    (recordAgain key existing contract stored).contract? = stored.contract? ∧
      (recordAgain key existing contract stored).admitted? = stored.admitted? := by
  unfold recordAgain
  split
  · exact ⟨rfl, rfl⟩
  · cases stored <;> exact ⟨rfl, rfl⟩

variable {contract : Encoded codec}

/-- A new contract is rejected, or pending. -/
theorem recordNew_ok {record : RegistryRecord codec}
    (h : recordNew env contract = ok record) :
    (∃ violation, record = .rejected violation) ∨
      record = .pending contract none ∧ validateStructure codec.schemaError contract.tool = none := by
  unfold recordNew at h
  split at h
  · exact .inl ⟨_, (Except.ok.inj h).symm⟩
  rename_i hstr
  split at h
  · cases h
  · exact .inl ⟨_, (Except.ok.inj h).symm⟩
  · exact .inr ⟨(Except.ok.inj h).symm, hstr⟩

/-- **Every registration is of one of these kinds.** -/
theorem recordOf_ok {stored : Option (RegistryRecord codec)} {record : RegistryRecord codec}
    (h : recordOf env stored transmitted = ok record) : Recorded codec transmitted stored record := by
  cases transmitted with
  | malformed =>
    cases h
    exact .rejected _ (.inl rfl)
  | contract tool =>
    rcases encode_cases codec tool with ⟨contract, henc, rfl, hmal⟩ | ⟨err, henc, hmal⟩
    · simp only [recordOf, henc] at h
      have hagain := fun existing => recordAgain_contract? contract.tool.key existing contract
      split at h
      · cases h
        exact .kept hmal (hagain _ _).1 (hagain _ _).2 rfl
      · cases h
        exact .kept hmal (hagain _ _).1 (hagain _ _).2 rfl
      rename_i hpen hadm
      have hfree : stored.bind RegistryRecord.contract? = none := by
        cases stored with
        | none => rfl
        | some stored =>
          cases stored with
          | rejected => rfl
          | pending existing status => exact absurd rfl (hpen existing status)
          | admitted existing status => exact absurd rfl (hadm existing status)
      rcases recordNew_ok h with ⟨violation, rfl⟩ | ⟨rfl, hstr⟩
      · exact .rejected violation (.inr hfree)
      · exact .new contract rfl hfree hstr
    · simp only [recordOf, henc] at h
      cases h
      exact .rejected _ (.inl hmal)

/-- A registration writes the record under its key. -/
theorem registerOne_ok {records' : Records codec}
    (h : registerOne env records transmitted = ok records') :
    ∃ record, Recorded codec transmitted (records.lookup transmitted.key) record ∧
      ∀ key, records'.lookup key =
        if key = transmitted.key then some record else records.lookup key := by
  obtain ⟨record, hrec, rfl⟩ := map_eq_ok.mp h
  exact ⟨record, recordOf_ok hrec, fun key => Table.lookup_insert_eq⟩

/-- What every registration of a batch preserves holds after the batch, wherever it stops. -/
theorem registerAll_invariant {I : Records codec → Prop} {contracts : List Transmitted}
    (hturn : ∀ records transmitted records', transmitted ∈ contracts → I records →
      registerOne env records transmitted = ok records' → I records')
    (h : I records) : I (registerAll env records contracts).1 := by
  induction contracts generalizing records with
  | nil => exact h
  | cons transmitted rest ih =>
    unfold registerAll
    split
    · exact h
    rename_i records' hone
    exact ih (fun records t records' ht => hturn records t records' (List.mem_cons_of_mem _ ht))
      (hturn records transmitted records' List.mem_cons_self h hone)

/-- Every record that is not rejected has the contract its key names. -/
def Records.Keyed (records : Records codec) : Prop :=
  ∀ key contract, records.contractAt key = some contract → contract.tool.key = key

/-- Registering keeps the records keyed. -/
theorem Records.Keyed.registerAll (h : records.Keyed)
    (contracts : List Transmitted) : (registerAll env records contracts).1.Keyed := by
  refine registerAll_invariant (fun records transmitted records' _ h hone => ?_) h
  obtain ⟨_, hrec, hlook⟩ := registerOne_ok hone
  intro key contract hcon
  rw [Records.contractAt, hlook] at hcon
  split at hcon
  · rename_i hkey
    subst hkey
    generalize hstor : records.lookup transmitted.key = stored at hrec
    cases hrec with
    | rejected => cases hcon
    | kept _ hsame =>
      refine h _ contract ?_
      rw [Records.contractAt, hstor]
      exact hsame.symm.trans hcon
    | new found htran =>
      cases hcon
      rw [htran]
      rfl
  · exact h key contract hcon

theorem contractAt_resolvePending (key : ToolKey) :
    (resolvePending env records).contractAt key = records.contractAt key := by
  rw [Records.contractAt, lookup_resolvePending, Records.contractAt]
  cases records.lookup key <;> simp

variable {tool : ToolContract}

/-- The contracts that are read off the records are those read under some key. -/
theorem mem_filterMap_entries {read : RegistryRecord codec → Option (Encoded codec)} :
    tool ∈ records.entries.filterMap (fun entry => (read entry.2).map Encoded.tool) ↔
      ∃ key contract, (records.lookup key).bind read = some contract ∧ contract.tool = tool := by
  simp only [List.mem_filterMap, Option.map_eq_some_iff, Option.bind_eq_some_iff,
    Table.lookup_eq_some_iff]
  constructor
  · rintro ⟨entry, hent, contract, hcon, htool⟩
    exact ⟨entry.1, contract, ⟨entry.2, hent, hcon⟩, htool⟩
  · rintro ⟨key, contract, ⟨stored, hent, hcon⟩, htool⟩
    exact ⟨⟨key, stored⟩, hent, contract, hcon, htool⟩

theorem mem_live :
    tool ∈ records.live ↔ ∃ key contract, records.contractAt key = some contract ∧
      contract.tool = tool :=
  mem_filterMap_entries

theorem Registry.mem_admitted :
    tool ∈ Registry.admitted records ↔ ∃ key contract, records.admittedAt key = some contract ∧
      contract.tool = tool :=
  mem_filterMap_entries

/-- An admitted contract is not rejected. -/
theorem contractAt_of_admittedAt {key : ToolKey}
    (h : records.admittedAt key = some contract) : records.contractAt key = some contract := by
  obtain ⟨stored, hstor, hadm⟩ := Option.bind_eq_some_iff.mp h
  rw [Records.contractAt, hstor]
  cases stored with
  | admitted => exact hadm
  | _ => cases hadm

/-- **What is admitted once the pending records are resolved**: what was, and every pending
contract whose companions resolve and whose route is healthy. -/
theorem admittedAt_resolvePending {key : ToolKey} :
    (resolvePending env records).admittedAt key = some contract ↔
      records.admittedAt key = some contract ∨
        (records.contractAt key = some contract ∧ records.admittedAt key = none ∧
          resolveCompanions records.live contract.tool = none ∧
          env.routable contract.tool.routeId = true) := by
  rw [Records.admittedAt, lookup_resolvePending, Records.admittedAt, Records.contractAt]
  cases records.lookup key with
  | none => simp
  | some stored =>
    cases stored with
    | rejected => simp [resolveRecord, RegistryRecord.admitted?, RegistryRecord.contract?]
    | admitted =>
      simp [resolveRecord, RegistryRecord.admitted?, RegistryRecord.contract?]
    | pending found =>
      simp only [Option.map_some, Option.bind_some, RegistryRecord.admitted?,
        RegistryRecord.contract?, Option.some.injEq, reduceCtorEq, false_or, true_and]
      cases hres : resolveCompanions records.live found.tool with
      | some =>
        simp only [resolveRecord, hres, reduceCtorEq, false_iff, not_and]
        rintro rfl
        simp [hres]
      | none =>
        by_cases hroute : env.routable found.tool.routeId = true
        · simp only [resolveRecord, hres, hroute, if_true, Option.some.injEq]
          constructor
          · rintro rfl
            exact ⟨rfl, hres, hroute⟩
          · exact fun h => h.1
        · simp only [resolveRecord, hres, hroute, Bool.false_eq_true, if_false,
            reduceCtorEq, false_iff, not_and]
          rintro rfl _
          exact hroute

/-- **Registering changes no admitted record**, unless a malformed contract comes under its
key. -/
theorem admittedAt_registerAll {contracts : List Transmitted}
    (h : ∀ transmitted ∈ contracts, transmitted.isMalformed codec = true →
      records.admittedAt transmitted.key = none) (key : ToolKey) :
    (registerAll env records contracts).1.admittedAt key = records.admittedAt key := by
  revert key
  refine registerAll_invariant (I := fun mid => ∀ key, mid.admittedAt key = records.admittedAt key)
    (fun mid transmitted mid' hmem hmid hone key => ?_) fun _ => rfl
  obtain ⟨_, hrec, hlook⟩ := registerOne_ok hone
  rw [Records.admittedAt, hlook]
  split
  · rename_i hkey
    subst hkey
    rw [← hmid, Records.admittedAt]
    have hfree : ∀ stored : Option (RegistryRecord codec),
        stored.bind RegistryRecord.contract? = none →
        stored.bind RegistryRecord.admitted? = none := by
      rintro (_ | _ | _ | _) hnone
      · rfl
      · rfl
      · cases hnone
      · cases hnone
    generalize hstor : mid.lookup transmitted.key = stored at hrec
    cases hrec with
    | rejected violation hwhy =>
      rcases hwhy with hmal | hnone
      · rw [← hstor]
        exact ((hmid transmitted.key).trans (h transmitted hmem hmal)).symm
      · exact (hfree _ hnone).symm
    | kept _ _ hsame => exact hsame
    | new contract _ hnone => exact (hfree _ hnone).symm
  · exact hmid key

end Registered

/-! ### What a call does -/

/-- The environment of a call. -/
def RegistryCall.env : RegistryCall → RegistryEnv
  | .register env _ | .resolve env => env

/-- The batch of a call. -/
def RegistryCall.contracts : RegistryCall → List Transmitted
  | .register _ contracts => contracts
  | .resolve _ => []

section Calls

variable {codec : Codec}

/-- The records once the batch of a call is recorded. -/
def Registry.batched (registry : Registry codec) (call : RegistryCall) : Records codec :=
  (registerAll call.env registry.records call.contracts).1

/-- **What a call does**: it stops with its batch half recorded, or it resolves the pending records
and leaves the published view, or replaces it by one of the admitted contracts. -/
inductive RegistryStep (env : RegistryEnv) (batched : Records codec) (registry : Registry codec) :
    Registry codec → Prop
  | stopped : RegistryStep env batched registry { registry with records := batched }
  | resolved : RegistryStep env batched registry
      { records := resolvePending env batched, current := registry.current }
  | published {view : PublishedView}
      (hbuild : build codec (Registry.admitted (resolvePending env batched)) = ok view) :
      RegistryStep env batched registry
        { records := resolvePending env batched, current := some view }

/-- Publishing is of one of these kinds. -/
theorem resolveAndPublish_step (env : RegistryEnv) (registry : Registry codec) (batched : Records codec) :
    RegistryStep env batched registry
      (Registry.resolveAndPublish env { registry with records := batched }).1 := by
  unfold Registry.resolveAndPublish
  dsimp only
  split
  · exact .resolved
  rename_i view hbuild
  split
  · exact .resolved
  split
  · exact .resolved
  split
  · exact .resolved
  · exact .published hbuild

/-- **Every call is of one of these kinds.** -/
theorem Registry.step_cases {registry registry' : Registry codec} {call : RegistryCall}
    (h : registry.step call = some registry') :
    RegistryStep call.env (registry.batched call) registry registry' := by
  cases call with
  | resolve env =>
    cases h
    exact resolveAndPublish_step env registry registry.records
  | register env contracts =>
    cases h
    unfold Registry.register Registry.batched RegistryCall.env RegistryCall.contracts
    dsimp only
    split
    · rename_i records err heq
      rw [heq]
      exact .stopped
    rename_i records heq
    rw [heq]
    exact resolveAndPublish_step env registry records

/-- A view has the contracts it was built of. -/
theorem mem_build {tools : List ToolContract} {view : PublishedView}
    (h : build codec tools = ok view) : tool ∈ view.tools ↔ tool ∈ tools := by
  simp only [build, bind_eq_ok, Except.ok.injEq] at h
  obtain ⟨_, -, rfl⟩ := h
  exact List.mem_insertionSort _

/-- Every reachable registry has its records under their keys. -/
theorem records_keyed {allowed : Registry codec → RegistryCall → Prop} {registry : Registry codec}
    (h : RegistryReachable codec allowed registry) : registry.records.Keyed := by
  refine h.invariant (I := fun registry => registry.records.Keyed) (fun key contract hnone => ?_) ?_
  · cases hnone
  intro registry registry' call hkey _ hstep
  have hbat : (registry.batched call).Keyed := hkey.registerAll call.contracts
  have hres : (resolvePending call.env (registry.batched call)).Keyed := by
    intro key contract hcon
    rw [contractAt_resolvePending] at hcon
    exact hbat key contract hcon
  cases Registry.step_cases hstep with
  | stopped => exact hbat
  | resolved | published => exact hres

end Calls

end Flory
