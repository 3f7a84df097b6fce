import Flory.GoJson
import Flory.ToolViews

/-!
# Workflow Identities

The gateway freezes a bearer-authenticated user for one run: `Issue` signs the user, the roles
resolved for them and the run, and every later request of the run carries the signed value in a
header, next to an internal mTLS identity (`authenticate`). Roles are matched by `Allows`.

Ed25519, base64, the clock's format and the reading of bytes as UTF-8 are parameters
(`Primitives`) with the laws they obey: a signature verifies under its own key, and what is
encoded is decoded again. That signatures cannot be forged is no law of the scheme; it is assumed
of single requests, where it is used. Strings are Unicode texts, which is what the JSON decoders
and the database hand to this package.

## Main results

* `unmarshal_tree`: an identity is read back from its JSON text.
* `payloadBytes_injective`: the signed bytes determine everything but the signature.
* `normalizedRoles_idempotent`: roles are normalised once.
* `verify_issued`: an identity verifies under every keyring that holds its key.
* `authenticated_workflow`: what a request that is accepted with an identity has passed.
-/

namespace Flory.Authn

open Except (error ok)
open GoJson (names decodeString decodeStrings decodeInt64 written)
open JsonText (Tree)

/-! ### Principals and identities -/

/-- `Principal`. -/
structure Principal where
  issuer : String := ""
  subject : String := ""
  roles : List String := []
  revision : Int64 := 0
  runId : String := ""
  source : String := ""
  spiffeId : String := ""
deriving DecidableEq

/-- `WorkflowIdentity`. The roles are a slice that may be nil, which JSON tells from an empty
one. -/
structure WorkflowIdentity where
  version : String := ""
  keyId : String := ""
  issuer : String := ""
  subject : String := ""
  roles : Option (List String) := none
  subjectRevision : Int64 := 0
  runId : String := ""
  authenticatedAt : String := ""
  signature : String := ""
deriving DecidableEq

/-- A slice of strings as JSON. -/
def rolesTree : Option (List String) → Tree String ℤ
  | none => .null
  | some roles => .array (roles.map .string)

/-- The fields of `identityPayload`, under their tags. -/
def payloadFields (identity : WorkflowIdentity) : List (String × Tree String ℤ) :=
  [("version", .string identity.version), ("key_id", .string identity.keyId),
    ("issuer", .string identity.issuer), ("subject", .string identity.subject),
    ("roles", rolesTree identity.roles), ("subject_revision", .number identity.subjectRevision.toInt),
    ("run_id", .string identity.runId), ("authenticated_at", .string identity.authenticatedAt)]

/-- `payload`. -/
def payload (identity : WorkflowIdentity) : Tree String ℤ :=
  .object (payloadFields identity)

/-- `payloadBytes`. -/
def payloadBytes (identity : WorkflowIdentity) : ByteArray :=
  (String.ofList (GoJson.marshal (payload identity))).toByteArray

/-- An identity as JSON. -/
def WorkflowIdentity.tree (identity : WorkflowIdentity) : Tree String ℤ :=
  .object (payloadFields identity ++ [("signature", .string identity.signature)])

/-- What the decoder does with one member of an object. -/
def WorkflowIdentity.set (identity : WorkflowIdentity) (member : String × Tree String (List ℕ)) :
    Option WorkflowIdentity :=
  if names "version" member.1 then
    (decodeString identity.version member.2).map fun value => { identity with version := value }
  else if names "key_id" member.1 then
    (decodeString identity.keyId member.2).map fun value => { identity with keyId := value }
  else if names "issuer" member.1 then
    (decodeString identity.issuer member.2).map fun value => { identity with issuer := value }
  else if names "subject" member.1 then
    (decodeString identity.subject member.2).map fun value => { identity with subject := value }
  else if names "roles" member.1 then
    (decodeStrings member.2).map fun value => { identity with roles := value }
  else if names "subject_revision" member.1 then
    (decodeInt64 identity.subjectRevision member.2).map fun value =>
      { identity with subjectRevision := value }
  else if names "run_id" member.1 then
    (decodeString identity.runId member.2).map fun value => { identity with runId := value }
  else if names "authenticated_at" member.1 then
    (decodeString identity.authenticatedAt member.2).map fun value =>
      { identity with authenticatedAt := value }
  else if names "signature" member.1 then
    (decodeString identity.signature member.2).map fun value => { identity with signature := value }
  else some identity

/-- `json.Unmarshal` into an identity. -/
def unmarshalIdentity (text : List Char) : Option WorkflowIdentity :=
  match GoJson.unmarshal text with
  | some (.object members) => members.foldlM WorkflowIdentity.set {}
  | some .null => some {}
  | _ => none

/-- `normalizedRoles`. -/
def normalizedRoles (roles : List String) : List String :=
  ToolView.sortedUnique roles

/-- `Allows`. -/
def allows (principalRoles allowedRoles : List String) : Bool :=
  principalRoles.contains "*" || allowedRoles.contains "*" ||
    principalRoles.any fun role => allowedRoles.contains role

/-! ### Signing and verifying -/

/-- What the package takes from elsewhere. -/
structure Primitives where
  /-- `private.Public()`. -/
  publicKey : ByteArray → ByteArray
  /-- `ed25519.Sign`. -/
  sign : ByteArray → ByteArray → ByteArray
  /-- `ed25519.Verify`. -/
  verify : ByteArray → ByteArray → ByteArray → Bool
  verify_sign : ∀ key message, verify (publicKey key) message (sign key message) = true
  /-- `base64.RawURLEncoding`. -/
  encodeToString : ByteArray → String
  decodeString : String → Option ByteArray
  decode_encode : ∀ bytes, decodeString (encodeToString bytes) = some bytes
  /-- The characters of bytes, what is no UTF-8 being replaced. -/
  characters : ByteArray → List Char
  characters_bytes : ∀ text : String, characters text.toByteArray = text.toList
  /-- A time in nanoseconds as `time.RFC3339Nano`. -/
  format : ℤ → String
  /-- Whether `time.Parse` reads a text. -/
  parses : String → Bool
  parses_format : ∀ time, parses (format time) = true

/-- The characters of bytes, which stand for them one by one. -/
theorem ofNat_toNat_byte (byte : UInt8) : UInt8.ofNat (Char.ofNat byte.toNat).toNat = byte := by
  have hbound := byte.toNat_lt
  have hval : byte.toNat.isValidChar := by
    left
    omega
  have hnat : (Char.ofNat byte.toNat).toNat = byte.toNat := by
    rw [Char.ofNat, dif_pos hval]
    rfl
  rw [hnat, UInt8.ofNat_toNat]

/-- Bytes are read back from the characters of their numbers. -/
theorem plain_decode_encode (bytes : ByteArray) :
    some (ByteArray.mk (((String.ofList (bytes.data.toList.map fun byte =>
      Char.ofNat byte.toNat)).toList.map fun symbol => UInt8.ofNat symbol.toNat).toArray)) =
      some bytes := by
  simp [Function.comp_def, ofNat_toNat_byte]

/-- A text is read back from its bytes. -/
theorem plain_characters_bytes (text : String) :
    (text.toByteArray.utf8Decode?.map Array.toList).getD [] = text.toList := by
  have hdec := List.utf8Decode?_utf8Encode (l := text.toList)
  rw [← String.toByteArray_ofList, String.ofList_toList] at hdec
  simp [hdec]

theorem plain_verify_sign (key message : ByteArray) :
    decide ((key ++ message).data.toList = (id key ++ message).data.toList) = true :=
  decide_eq_true rfl

/-- Primitives that hide nothing, to run examples on: a signature is the key and the message, and
bytes are encoded as the characters of their numbers. -/
def plainPrimitives : Primitives where
  publicKey := id
  sign key message := key ++ message
  verify key message signature := signature.data.toList = (key ++ message).data.toList
  verify_sign := plain_verify_sign
  encodeToString bytes := String.ofList (bytes.data.toList.map fun byte => Char.ofNat byte.toNat)
  decodeString text :=
    some ⟨(text.toList.map fun symbol => UInt8.ofNat symbol.toNat).toArray⟩
  decode_encode := plain_decode_encode
  characters bytes := (bytes.utf8Decode?.map Array.toList).getD []
  characters_bytes := plain_characters_bytes
  format := toString
  parses _ := true
  parses_format _ := rfl

section Gateway

variable (prims : Primitives)

/-- `Signer`: the active key, and the keyring it belongs to. -/
structure Signer where
  keyId : String
  privateKey : ByteArray
  publicKeys : String → Option ByteArray
  named : keyId ≠ ""
  own : publicKeys keyId = some (prims.publicKey privateKey)

variable {prims}

/-- The identity that `Issue` signs. -/
def Signer.unsigned (signer : Signer prims) (now : ℤ) (principal : Principal) (runId : String) :
    WorkflowIdentity :=
  { version := "1", keyId := signer.keyId, issuer := principal.issuer, subject := principal.subject,
    roles := some (normalizedRoles principal.roles), subjectRevision := principal.revision,
    runId := runId, authenticatedAt := prims.format now }

/-- `Issue`. -/
def Signer.issue (signer : Signer prims) (now : ℤ) (principal : Principal) (runId : String) :
    Except String WorkflowIdentity :=
  if principal.source ≠ "bearer" || principal.issuer = "" || principal.subject = "" || runId = "" then
    error "authn: bearer principal and run ID are required"
  else
    let identity := signer.unsigned now principal runId
    ok { identity with
      signature := prims.encodeToString (prims.sign signer.privateKey (payloadBytes identity)) }

/-- What `Verify` checks of an identity besides its key. -/
def WorkflowIdentity.valid (prims : Primitives) (identity : WorkflowIdentity)
    (key signature : ByteArray) : Bool :=
  !(identity.version ≠ "1" || identity.issuer = "" || identity.subject = "" ||
    identity.runId = "" || !prims.parses identity.authenticatedAt ||
    identity.roles.getD [] ≠ normalizedRoles (identity.roles.getD []) ||
    !prims.verify key (payloadBytes identity) signature)

/-- The principal of a verified identity. -/
def WorkflowIdentity.principal (identity : WorkflowIdentity) : Principal :=
  { issuer := identity.issuer, subject := identity.subject, roles := identity.roles.getD [],
    revision := identity.subjectRevision, runId := identity.runId, source := "workflow" }

/-- `Verify`. -/
def Signer.verify (signer : Signer prims) (identity : WorkflowIdentity) : Except String Principal :=
  match signer.publicKeys identity.keyId with
  | none => error ("authn: unknown identity key " ++ identity.keyId.quote)
  | some key =>
    match prims.decodeString identity.signature with
    | none => error "authn: malformed identity signature"
    | some signature =>
      if identity.valid prims key signature then ok identity.principal
      else error "authn: invalid workflow identity"

/-! ### Requests -/

/-- A URI of a certificate. -/
structure Uri where
  scheme : String
  text : String

/-- What the middleware reads of a request: two headers and the client certificate. -/
structure Request where
  authorization : String := ""
  workflowIdentity : String := ""
  certificate : Option (List Uri) := none

/-- `SPIFFEID`. -/
def spiffeId (request : Request) : Except String String :=
  match request.certificate with
  | none => error "client certificate is required"
  | some [uri] =>
    if uri.scheme = "spiffe" then ok uri.text
    else error "exactly one SPIFFE URI SAN is required"
  | some _ => error "exactly one SPIFFE URI SAN is required"

/-- `EncodeWorkflowIdentity`. -/
def encodeWorkflowIdentity (prims : Primitives) (identity : WorkflowIdentity) : String :=
  prims.encodeToString (String.ofList (GoJson.marshal identity.tree)).toByteArray

/-- `decodeWorkflowIdentity`. -/
def decodeWorkflowIdentity (prims : Primitives) (encoded : String) : Option WorkflowIdentity :=
  (prims.decodeString encoded).bind fun raw => unmarshalIdentity (prims.characters raw)

/-- `Middleware`: the verifier of bearer tokens, which answers an issuer and a subject, the role
store, the signer and the internal identities. -/
structure Middleware (prims : Primitives) where
  oidc : Option (String → Except String (String × String)) := none
  roles : Option (String → String → Except String (List String × Int64)) := none
  signer : Option (Signer prims) := none
  internalSpiffeIds : List String := []

/-- The principal of a bearer token. -/
def Middleware.bearer (middleware : Middleware prims) (request : Request) (token : String) :
    Except String Principal :=
  match middleware.oidc, middleware.roles with
  | some oidc, some roles => do
      let (issuer, subject) ← oidc token
      let (bound, revision) ← roles issuer subject
      let spiffe := match spiffeId request with
        | ok id => id
        | error _ => ""
      ok { issuer := issuer, subject := subject, roles := bound, revision := revision,
           source := "bearer", spiffeId := spiffe }
  | _, _ => error "OIDC authentication is unavailable"

/-- The principal of a workflow identity. -/
def Middleware.workflow (middleware : Middleware prims) (request : Request) :
    Except String Principal :=
  match middleware.signer with
  | none => error "workflow identity authentication is unavailable"
  | some signer =>
    match spiffeId request with
    | error _ => error "internal SPIFFE identity is not authorised"
    | ok spiffe =>
      if !middleware.internalSpiffeIds.contains spiffe then
        error "internal SPIFFE identity is not authorised"
      else
        match decodeWorkflowIdentity prims request.workflowIdentity with
        | none => error "malformed workflow identity"
        | some identity =>
          (signer.verify identity).map fun principal => { principal with spiffeId := spiffe }

/-- `authenticate`. -/
def Middleware.authenticate (middleware : Middleware prims) (request : Request) :
    Except String Principal :=
  if request.authorization ≠ "" && request.workflowIdentity ≠ "" then
    error "bearer JWT and workflow identity are mutually exclusive"
  else if "Bearer ".toList.isPrefixOf request.authorization.toList then
    middleware.bearer request (String.ofList (request.authorization.toList.drop 7))
  else if request.workflowIdentity ≠ "" then middleware.workflow request
  else error "authentication is required"

end Gateway

/-! ### Texts and identities -/

theorem decodeStrings_rolesTree (roles : Option (List String)) :
    decodeStrings (written (rolesTree roles)) = some roles := by
  cases roles with
  | none => rfl
  | some roles => exact GoJson.decodeStrings_written roles

/-- The payload is read back over an identity without one. -/
theorem foldlM_payloadFields (identity : WorkflowIdentity) :
    ((payloadFields identity).map (Prod.map id written)).foldlM WorkflowIdentity.set {} =
      some { identity with signature := "" } := by
  have hstr : ∀ current value : String,
      decodeString current (written (.string value)) = some value := fun _ _ => rfl
  simp [payloadFields, WorkflowIdentity.set, names, GoJson.foldRune, hstr,
    decodeStrings_rolesTree, GoJson.decodeInt64_written]

/-- **The signed text determines** everything but the signature. -/
theorem unmarshal_payload (identity : WorkflowIdentity) :
    unmarshalIdentity (GoJson.marshal (payload identity)) = some { identity with signature := "" } := by
  rw [unmarshalIdentity, GoJson.unmarshal_marshal, payload, GoJson.written_object]
  exact foldlM_payloadFields identity

/-- **An identity is read back from its JSON text.** -/
theorem unmarshal_tree (identity : WorkflowIdentity) :
    unmarshalIdentity (GoJson.marshal identity.tree) = some identity := by
  rw [unmarshalIdentity, GoJson.unmarshal_marshal, WorkflowIdentity.tree, GoJson.written_object]
  simp only [List.map_append, List.foldlM_append, foldlM_payloadFields]
  simp [WorkflowIdentity.set, names, GoJson.foldRune, written, Tree.fold, decodeString]

/-- **The signed bytes determine** everything but the signature. -/
theorem payloadBytes_injective {one other : WorkflowIdentity}
    (h : payloadBytes one = payloadBytes other) :
    { one with signature := "" } = { other with signature := "" } := by
  have htext : String.ofList (GoJson.marshal (payload one)) =
      String.ofList (GoJson.marshal (payload other)) := String.toByteArray_inj.mp h
  have hone := unmarshal_payload one
  rw [String.ofList_injective htext, unmarshal_payload other] at hone
  exact (Option.some.inj hone).symm

theorem payloadBytes_signature (identity : WorkflowIdentity) (signature : String) :
    payloadBytes { identity with signature := signature } = payloadBytes identity :=
  rfl

/-! ### Roles -/

instance : Std.Total fun one other : String => goBytes one ≤ goBytes other where
  total one other := le_total (goBytes one) (goBytes other)

instance : IsTrans String fun one other => goBytes one ≤ goBytes other where
  trans _ _ _ hone hother := le_trans hone hother

theorem mem_normalizedRoles {roles : List String} {role : String} :
    role ∈ normalizedRoles roles ↔ role ∈ roles := by
  rw [normalizedRoles, ToolView.sortedUnique, ToolView.sortedCopy, List.mem_insertionSort,
    List.mem_dedup]

/-- **Roles are normalised once.** -/
theorem normalizedRoles_idempotent (roles : List String) :
    normalizedRoles (normalizedRoles roles) = normalizedRoles roles := by
  have hnod : (normalizedRoles roles).Nodup :=
    ((List.perm_insertionSort _ _).nodup_iff).mpr (List.nodup_dedup roles)
  have hsor : (normalizedRoles roles).Pairwise fun one other => goBytes one ≤ goBytes other :=
    List.pairwise_insertionSort _ _
  calc normalizedRoles (normalizedRoles roles)
      = (normalizedRoles roles).insertionSort fun one other => goBytes one ≤ goBytes other := by
        rw [normalizedRoles, ToolView.sortedUnique, hnod.dedup]
        rfl
    _ = normalizedRoles roles := hsor.insertionSort_eq

/-- What `Allows` decides. -/
theorem allows_iff {principalRoles allowedRoles : List String} :
    allows principalRoles allowedRoles = true ↔
      "*" ∈ allowedRoles ∨ ∃ role ∈ principalRoles, role = "*" ∨ role ∈ allowedRoles := by
  simp only [allows, Bool.or_eq_true, List.contains_iff_mem, List.any_eq_true]
  constructor
  · rintro ((hany | hpub) | ⟨role, hrole, hall⟩)
    · exact .inr ⟨"*", hany, .inl rfl⟩
    · exact .inl hpub
    · exact .inr ⟨role, hrole, .inr hall⟩
  · rintro (hpub | ⟨role, hrole, rfl | hall⟩)
    · exact .inl (.inr hpub)
    · exact .inl (.inl hrole)
    · exact .inr ⟨role, hrole, hall⟩

/-! ### Issued identities -/

section Issued

variable {prims : Primitives}
  {signer : Signer prims} {principal : Principal} {identity : WorkflowIdentity}

/-- What `Issue` requires, and what it signs. -/
theorem issue_eq_ok {now : ℤ} {runId : String}
    (h : signer.issue now principal runId = ok identity) :
    principal.source = "bearer" ∧ principal.issuer ≠ "" ∧ principal.subject ≠ "" ∧ runId ≠ "" ∧
      identity = { signer.unsigned now principal runId with
        signature := prims.encodeToString
          (prims.sign signer.privateKey (payloadBytes (signer.unsigned now principal runId))) } := by
  unfold Signer.issue at h
  split at h
  · cases h
  rename_i hreq
  simp only [Bool.or_eq_true, decide_eq_true_eq, not_or, ne_eq, not_not] at hreq
  obtain ⟨⟨⟨hsour, hiss⟩, hsub⟩, hrun⟩ := hreq
  exact ⟨hsour, hiss, hsub, hrun, (Except.ok.inj h).symm⟩

/-- What a verified identity has passed. -/
theorem verify_eq_ok (h : signer.verify identity = ok principal) :
    ∃ key signature, signer.publicKeys identity.keyId = some key ∧
      prims.decodeString identity.signature = some signature ∧
      identity.valid prims key signature = true ∧ principal = identity.principal := by
  unfold Signer.verify at h
  cases hkey : signer.publicKeys identity.keyId with
  | none =>
    rw [hkey] at h
    cases h
  | some key =>
    cases hsig : prims.decodeString identity.signature with
    | none =>
      rw [hkey, hsig] at h
      cases h
    | some signature =>
      rw [hkey, hsig] at h
      dsimp only at h
      split at h
      · rename_i hval
        exact ⟨key, signature, rfl, rfl, hval, (Except.ok.inj h).symm⟩
      · cases h

/-- **An issued identity verifies** under every keyring that holds its key. -/
theorem verify_issued {verifier : Signer prims} {now : ℤ} {runId : String}
    (h : signer.issue now principal runId = ok identity)
    (hkey : verifier.publicKeys signer.keyId = some (prims.publicKey signer.privateKey)) :
    verifier.verify identity = ok
      { issuer := principal.issuer, subject := principal.subject,
        roles := normalizedRoles principal.roles, revision := principal.revision, runId := runId,
        source := "workflow" } := by
  obtain ⟨-, hiss, hsub, hrun, rfl⟩ := issue_eq_ok h
  have hval : WorkflowIdentity.valid prims { signer.unsigned now principal runId with
        signature := prims.encodeToString
          (prims.sign signer.privateKey (payloadBytes (signer.unsigned now principal runId))) }
      (prims.publicKey signer.privateKey)
      (prims.sign signer.privateKey (payloadBytes (signer.unsigned now principal runId))) =
        true := by
    simp only [WorkflowIdentity.valid, payloadBytes_signature, prims.verify_sign]
    simp [Signer.unsigned, hiss, hsub, hrun, prims.parses_format, normalizedRoles_idempotent]
  unfold Signer.verify
  rw [show (Signer.unsigned signer now principal runId).keyId = signer.keyId from rfl, hkey]
  dsimp only
  rw [prims.decode_encode]
  dsimp only
  rw [if_pos hval]
  rfl

/-- An identity is decoded from its header. -/
theorem decode_encodeWorkflowIdentity (identity : WorkflowIdentity) :
    decodeWorkflowIdentity prims (encodeWorkflowIdentity prims identity) = some identity := by
  rw [decodeWorkflowIdentity, encodeWorkflowIdentity, prims.decode_encode, Option.bind_some,
    prims.characters_bytes, String.toList_ofList, unmarshal_tree]

/-- What a request that is accepted with a workflow identity has passed. -/
theorem authenticated_workflow {middleware : Middleware prims} {request : Request}
    (h : middleware.authenticate request = ok principal) (hhead : request.workflowIdentity ≠ "") :
    ∃ signer spiffe identity verified, middleware.signer = some signer ∧
      spiffeId request = ok spiffe ∧ spiffe ∈ middleware.internalSpiffeIds ∧
      decodeWorkflowIdentity prims request.workflowIdentity = some identity ∧
      signer.verify identity = ok verified ∧ principal = { verified with spiffeId := spiffe } := by
  unfold Middleware.authenticate at h
  split at h
  · cases h
  rename_i hexc
  -- no request carries both headers, so this one has no bearer token
  have haut : request.authorization = "" := by
    simpa [hhead] using hexc
  rw [haut, if_neg (by decide)] at h
  unfold Middleware.workflow at h
  cases hsig : middleware.signer with
  | none =>
    rw [hsig] at h
    cases h
  | some signer =>
    cases hspif : spiffeId request with
    | error =>
      rw [hsig, hspif] at h
      cases h
    | ok spiffe =>
      rw [hsig, hspif] at h
      dsimp only at h
      split at h
      · cases h
      rename_i hint
      cases hdec : decodeWorkflowIdentity prims request.workflowIdentity with
      | none =>
        rw [hdec] at h
        cases h
      | some identity =>
        rw [hdec] at h
        obtain ⟨verified, hver, rfl⟩ := Fallible.map_eq_ok.mp h
        refine ⟨signer, spiffe, identity, verified, rfl, rfl, ?_, rfl, hver, rfl⟩
        simpa using hint

end Issued

end Flory.Authn
