import Flory.Listing

/-!
# Workflow Identities Confine Authority

A request that is accepted with a workflow identity acts with what one earlier call of `Issue`
froze: the run, the user, the time of authentication and the normalised roles. The signature
covers the JSON text of all of these, and that text determines them, so whoever holds a signature
holds nothing else. A call then proceeds only for the run of the identity and for a tool that is
public or allowed to one of its roles.

That nobody but `Issue` signs is assumed of the request at hand (`Unforged`): when its signature
verifies, the bytes were signed by a call in the history.

## Main results

* `authenticate_issued`: the header of an issued identity is accepted from inside.
* `workflow_identity_confines`: what stands behind an accepted identity, what it can call, and that
  issued identities verify after a JSON round trip.
* `public_tool_without_roles`: an identity without roles calls a public tool.
-/

namespace Flory.Mcp

open Authn
open Except (ok)

/-! ### Histories of issued identities -/

/-- One call of `Issue`. -/
structure IssueCall (prims : Primitives) where
  signer : Signer prims
  now : ℤ
  principal : Principal
  runId : String

section Confinement

variable {prims : Primitives} {principal : Principal}

/-- What the call returned. -/
def IssueCall.identity (call : IssueCall prims) : Except String WorkflowIdentity :=
  call.signer.issue call.now call.principal call.runId

/-- Some call in the history signed these bytes with the private key of this public one. -/
def SignedIn (history : List (IssueCall prims)) (key message : ByteArray) : Prop :=
  ∃ call ∈ history, ∃ identity, call.identity = ok identity ∧
    prims.publicKey call.signer.privateKey = key ∧ payloadBytes identity = message

/-- **Nobody forged the signature of this request**: when the identity it carries verifies under a
key of the keyring, a call of `Issue` signed its payload. -/
def Unforged (history : List (IssueCall prims)) (middleware : Middleware prims)
    (request : Request) : Prop :=
  ∀ signer identity key signature, middleware.signer = some signer →
    decodeWorkflowIdentity prims request.workflowIdentity = some identity →
    signer.publicKeys identity.keyId = some key →
    prims.decodeString identity.signature = some signature →
    prims.verify key (payloadBytes identity) signature = true →
    SignedIn history key (payloadBytes identity)

/-- **A call of `Issue` stands behind a principal**, for the same run, user and time, and with the
same roles. -/
structure StandsBehind (call : IssueCall prims) (presented : WorkflowIdentity)
    (principal : Principal) : Prop where
  bearer : call.principal.source = "bearer"
  produced : ∃ identity, call.identity = ok identity ∧
    { identity with signature := presented.signature } = presented
  run : principal.runId = call.runId
  issuer : principal.issuer = call.principal.issuer
  subject : principal.subject = call.principal.subject
  roles : principal.roles = normalizedRoles call.principal.roles
  revision : principal.revision = call.principal.revision
  time : presented.authenticatedAt = prims.format call.now

/-- What a signature covers, it produced. -/
theorem produced_of_payload {issued presented : WorkflowIdentity}
    (h : payloadBytes issued = payloadBytes presented) :
    { issued with signature := presented.signature } = presented := by
  have hsame := payloadBytes_injective h
  have hfiel := WorkflowIdentity.mk.inj hsame
  obtain ⟨_, _, _, _, _, _, _, _, -⟩ := hfiel
  cases issued
  cases presented
  simp_all

/-- **An accepted identity was issued.** -/
theorem standsBehind_of_authenticated {history : List (IssueCall prims)}
    {middleware : Middleware prims} {request : Request} (hhead : request.workflowIdentity ≠ "")
    (h : middleware.authenticate request = ok principal)
    (hunf : Unforged history middleware request) :
    ∃ presented call, decodeWorkflowIdentity prims request.workflowIdentity = some presented ∧
      call ∈ history ∧ StandsBehind call presented principal := by
  obtain ⟨signer, _, presented, _, hsign, -, -, hdec, hver, rfl⟩ :=
    authenticated_workflow h hhead
  obtain ⟨key, signature, hkey, hsig, hval, rfl⟩ := verify_eq_ok hver
  have hsigned : prims.verify key (payloadBytes presented) signature = true := by
    simp only [WorkflowIdentity.valid, Bool.not_eq_true', Bool.or_eq_false_iff] at hval
    simpa using hval.2
  obtain ⟨call, hcall, _, hiss, -, hpay⟩ :=
    hunf signer presented key signature hsign hdec hkey hsig hsigned
  have hprod := produced_of_payload hpay
  obtain ⟨hbear, -, -, -, rfl⟩ := issue_eq_ok hiss
  refine ⟨presented, call, hdec, hcall, hbear, ⟨_, hiss, hprod⟩, ?_, ?_, ?_, ?_, ?_, ?_⟩
  all_goals
    rw [← hprod]
    rfl

/-- The principal of an identity has a run. -/
theorem StandsBehind.runId_ne {call : IssueCall prims} {presented : WorkflowIdentity}
    (h : StandsBehind call presented principal) : principal.runId ≠ "" := by
  obtain ⟨_, hiss, -⟩ := h.produced
  rw [h.run]
  exact (issue_eq_ok hiss).2.2.2.1

/-- A request with a workflow identity, on a connection with a SPIFFE identity. -/
def workflowRequest (header spiffe : String) : Request where
  workflowIdentity := header
  certificate := some [⟨"spiffe", spiffe⟩]

/-- A middleware that accepts workflow identities from one SPIFFE identity. -/
def workflowMiddleware (verifier : Signer prims) (spiffe : String) : Middleware prims where
  signer := some verifier
  internalSpiffeIds := [spiffe]

/-- **The header of an issued identity is accepted** on a connection from inside. -/
theorem authenticate_issued {signer verifier : Signer prims} {now : ℤ} {runId : String}
    {identity : WorkflowIdentity} (spiffe : String)
    (h : signer.issue now principal runId = ok identity)
    (hkey : verifier.publicKeys signer.keyId = some (prims.publicKey signer.privateKey))
    (hhead : encodeWorkflowIdentity prims identity ≠ "") :
    (workflowMiddleware verifier spiffe).authenticate
        (workflowRequest (encodeWorkflowIdentity prims identity) spiffe) =
      ok { issuer := principal.issuer, subject := principal.subject,
           roles := normalizedRoles principal.roles, revision := principal.revision,
           runId := runId, source := "workflow", spiffeId := spiffe } := by
  have hspif : spiffeId (workflowRequest (encodeWorkflowIdentity prims identity) spiffe) =
      ok spiffe := rfl
  have hwor : (workflowMiddleware verifier spiffe).workflow
      (workflowRequest (encodeWorkflowIdentity prims identity) spiffe) =
      (verifier.verify identity).map fun principal => { principal with spiffeId := spiffe } := by
    simp only [Middleware.workflow, hspif]
    simp [workflowMiddleware, workflowRequest, decode_encodeWorkflowIdentity]
  rw [verify_issued h hkey] at hwor
  have hnone : ("Bearer ".toList.isPrefixOf "".toList) = false := by decide
  simp only [Middleware.authenticate]
  simp only [workflowRequest] at hwor ⊢
  simp only [hwor, hnone]
  simp [hhead]
  rfl

/-- The identity a call issued is not forged. -/
theorem unforged_issued {call : IssueCall prims} {identity : WorkflowIdentity}
    (h : call.identity = ok identity) (spiffe : String) :
    Unforged [call] (workflowMiddleware call.signer spiffe)
      (workflowRequest (encodeWorkflowIdentity prims identity) spiffe) := by
  intro signer presented key signature hsig hdec hkey _ _
  obtain rfl : call.signer = signer := Option.some.inj hsig
  obtain rfl : identity = presented :=
    Option.mem_unique (decode_encodeWorkflowIdentity identity) hdec
  refine ⟨call, List.mem_singleton_self call, identity, h, ?_, rfl⟩
  obtain ⟨-, -, -, -, rfl⟩ := issue_eq_ok h
  exact Option.mem_unique call.signer.own hkey

/-- **Workflow identities confine authority.** Unless a signature is forged, a request accepted
with a workflow identity carries what one earlier call of `Issue` signed, for the same run, user,
time and normalised roles; its calls proceed only for that run, and for a tool that is public or
allowed to one of those roles, the role `*` being allowed every tool. And every identity that was
issued verifies after a JSON round trip, wherever its key is retained. -/
theorem workflow_identity_confines :
    (∀ (history : List (IssueCall prims)) (middleware : Middleware prims) (request : Request)
        (principal : Principal), request.workflowIdentity ≠ "" →
      middleware.authenticate request = ok principal → Unforged history middleware request →
      ∃ presented call, decodeWorkflowIdentity prims request.workflowIdentity = some presented ∧
        call ∈ history ∧ StandsBehind call presented principal ∧
        ∀ (server : Server prims) (params : CallParams) (admission : Admission),
          server.admitCall (some principal) (ok params) = ok admission →
          params.callMeta.runId = call.runId ∧ ("*" ∈ admission.tool.allowedRoles ∨
            ∃ role ∈ normalizedRoles call.principal.roles,
              role = "*" ∨ role ∈ admission.tool.allowedRoles)) ∧
    ∀ (signer verifier : Signer prims) (now : ℤ) (principal : Principal) (runId : String)
        (identity : WorkflowIdentity), signer.issue now principal runId = ok identity →
      verifier.publicKeys signer.keyId = some (prims.publicKey signer.privateKey) →
      ∃ decoded, unmarshalIdentity (GoJson.marshal identity.tree) = some decoded ∧
        verifier.verify decoded =
          ok { issuer := principal.issuer, subject := principal.subject,
               roles := normalizedRoles principal.roles, revision := principal.revision,
               runId := runId, source := "workflow" } := by
  constructor
  · intro history middleware request principal hhead haut hunf
    obtain ⟨presented, call, hdec, hcall, hbeh⟩ :=
      standsBehind_of_authenticated hhead haut hunf
    refine ⟨presented, call, hdec, hcall, hbeh, ?_⟩
    intro server params admission hadm
    obtain ⟨_, -, -, hauth, -⟩ := admitted_call hadm
    obtain ⟨hrun, hall⟩ := authorize_eq_ok hauth
    have hbound : principal.runId = params.callMeta.runId := hrun.resolve_left hbeh.runId_ne
    refine ⟨hbound.symm.trans hbeh.run, ?_⟩
    rw [← hbeh.roles]
    exact allows_iff.mp hall
  · intro signer verifier now principal runId identity hiss hkey
    exact ⟨identity, unmarshal_tree identity, verify_issued hiss hkey⟩

end Confinement

/-! ### With a role, and without -/

/-- A signer with one short key. -/
def plainSigner : Signer plainPrimitives where
  keyId := "k"
  privateKey := "key".toByteArray
  publicKeys := fun _ => some "key".toByteArray
  named := by decide
  own := rfl

/-- Alice is frozen for a run, with the roles bound to them. -/
def issueAlice (roles : List String) : IssueCall plainPrimitives where
  signer := plainSigner
  now := 0
  principal := { issuer := "issuer", subject := "alice", roles := roles, source := "bearer" }
  runId := "run"

/-- The identity that is issued. -/
def aliceIdentity (roles : List String) : WorkflowIdentity :=
  { plainSigner.unsigned 0 (issueAlice roles).principal "run" with
    signature := plainPrimitives.encodeToString (plainPrimitives.sign "key".toByteArray
      (payloadBytes (plainSigner.unsigned 0 (issueAlice roles).principal "run"))) }

/-- A request with it. -/
def aliceRequest (roles : List String) : Request :=
  workflowRequest (encodeWorkflowIdentity plainPrimitives (aliceIdentity roles)) "spiffe://engine"

/-- What the request is accepted as. -/
def alicePrincipal (roles : List String) : Principal :=
  { issuer := "issuer", subject := "alice", roles := normalizedRoles roles, runId := "run",
    source := "workflow", spiffeId := "spiffe://engine" }

theorem issued_alice (roles : List String) :
    plainSigner.issue 0 (issueAlice roles).principal "run" = ok (aliceIdentity roles) :=
  rfl

/-- The request has a header: an empty one holds no identity. -/
theorem workflowIdentity_alice_ne (roles : List String) :
    (aliceRequest roles).workflowIdentity ≠ "" := by
  intro hempty
  have hdec : decodeWorkflowIdentity plainPrimitives (aliceRequest roles).workflowIdentity =
      some (aliceIdentity roles) := decode_encodeWorkflowIdentity _
  have hnone : (decodeWorkflowIdentity plainPrimitives "").isNone = true := by decide +kernel
  rw [← hempty, hdec] at hnone
  cases hnone

/-- The request is accepted. -/
theorem authenticate_alice (roles : List String) :
    (workflowMiddleware plainSigner "spiffe://engine").authenticate (aliceRequest roles) =
      ok (alicePrincipal roles) :=
  authenticate_issued "spiffe://engine" (issued_alice roles) plainSigner.own
    (workflowIdentity_alice_ne roles)

/-- No signature of the request is forged. -/
theorem unforged_alice (roles : List String) :
    Unforged [issueAlice roles] (workflowMiddleware plainSigner "spiffe://engine")
      (aliceRequest roles) := by
  have hiss : (issueAlice roles).identity = ok (aliceIdentity roles) := issued_alice roles
  exact unforged_issued hiss "spiffe://engine"

/-- A server that publishes one tool for a role, without any condition on its arguments. -/
def quoteServer (role : String) : Server plainPrimitives where
  sha256 := fun _ => "0"
  current := some
    { published :=
        { ref := "", digest := "", tools := [roleTool "quote" role], canonical := ByteArray.empty }
      schemas := fun _ => some fun _ => ok () }
  unmarshal := fun _ => ok .null

/-- A planner's identity calls a tool of planners for the run it was issued for, and verifies after
a round trip. -/
theorem workflow_identity_confines_alice :
    (∃ presented call admission, call ∈ [issueAlice ["planner"]] ∧
      StandsBehind call presented (alicePrincipal ["planner"]) ∧
      (quoteServer "planner").admitCall (some (alicePrincipal ["planner"]))
        (ok { name := "quote", callMeta := { runId := "run" } }) = ok admission ∧
      call.runId = "run" ∧ admission.tool.allowedRoles = ["planner"] ∧
      ("*" ∈ admission.tool.allowedRoles ∨ ∃ role ∈ normalizedRoles call.principal.roles,
        role = "*" ∨ role ∈ admission.tool.allowedRoles)) ∧
    ∃ decoded, unmarshalIdentity (GoJson.marshal (aliceIdentity ["planner"]).tree) = some decoded ∧
      (plainSigner.verify decoded).map (·.roles) = ok ["planner"] := by
  constructor
  · obtain ⟨presented, call, -, hcall, hbeh, hproceeds⟩ :=
      (@workflow_identity_confines plainPrimitives).1 [issueAlice ["planner"]] _ _ _
        (workflowIdentity_alice_ne _) (authenticate_alice _) (unforged_alice _)
    obtain ⟨admission, hadm, hroles⟩ := Fallible.exists_ok_of_any
      ((quoteServer "planner").admitCall (some (alicePrincipal ["planner"]))
        (ok { name := "quote", callMeta := { runId := "run" } }))
      (fun admission => admission.tool.allowedRoles = ["planner"]) (by decide +kernel)
    obtain ⟨hrun, hallowed⟩ := hproceeds _ _ _ hadm
    exact ⟨presented, call, admission, hcall, hbeh, hadm, hrun.symm, of_decide_eq_true hroles,
      hallowed⟩
  · obtain ⟨decoded, hdec, hver⟩ := (@workflow_identity_confines plainPrimitives).2 plainSigner
      plainSigner 0 _ "run" _ (issued_alice ["planner"]) plainSigner.own
    exact ⟨decoded, hdec, by rw [hver]; decide +kernel⟩

/-- **A public tool is called without any role**: an accepted identity whose role set is empty
passes every check, although no role of it is allowed the tool. -/
theorem public_tool_without_roles : ∃ (params : CallParams) (admission : Admission),
    Unforged [issueAlice []] (workflowMiddleware plainSigner "spiffe://engine") (aliceRequest []) ∧
    (workflowMiddleware plainSigner "spiffe://engine").authenticate (aliceRequest []) =
      ok (alicePrincipal []) ∧
    (quoteServer "*").admitCall (some (alicePrincipal [])) (ok params) = ok admission ∧
    ¬ ∃ role ∈ normalizedRoles (issueAlice []).principal.roles,
      role = "*" ∨ role ∈ admission.tool.allowedRoles := by
  refine ⟨{ name := "quote", callMeta := { runId := "run" } }, _, unforged_alice [],
    authenticate_alice [], rfl, ?_⟩
  rintro ⟨role, hrole, -⟩
  exact absurd (mem_normalizedRoles.mp hrole) List.not_mem_nil

end Flory.Mcp
