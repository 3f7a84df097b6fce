import Flory.Dispatch
import Flory.Mcp

/-!
# Exchanges with the Gateway

The Coordinator's adapter puts one attempt to the gateway as one HTTP request and reads its answer
back into an outcome. On the way the request can be refused, find no route, get lost before or
after it was dispatched, outlive its deadline, or come back unreadable. An `Exchange` is what
became of one attempt: whether a request was sent to an instance, what the instance answered, and
what the adapter made of it.

A `Ledgered` world is the system with the exchanges that its workers have had, one for each
attempt at most. Only their answers reach the workers.

## Main results

* `toolsCall_cases`: what a call is answered with, and whether anything was sent.
* `exchange_outcome`: the adapter reports an outcome only when the tool answered with it, or when
  nothing was sent.
* `accounted_of_reachable`: every outcome on record is that of the attempt's own exchange, or was
  established by the status query of a pivot.
* `definitive_failures_mean_it`: what the recorded failures of a run mean, and what stays
  unresolved.
-/

variable {outcome : AttemptOutcome}

namespace Flory.Mcp

open Authn (Primitives Principal Middleware WorkflowIdentity)
open Except (error ok)

/-! ### The adapter -/

/-- `model.OperationRequest`; the input is the JSON text that is sent. -/
structure OperationRequest where
  runId : String
  vertexId : String
  scopeId : String
  attemptNo : ℕ
  tool : String
  toolVersion : String
  toolViewDigest : String
  idempotencyKey : String
  input : String
  deadlineMs : Int64 := 0
  authorizationIdentity : Option WorkflowIdentity

/-- The parameters of the `tools/call` the adapter sends, as the gateway decodes them: the attempt
has to fit into 32 bits. -/
def OperationRequest.params (request : OperationRequest) : Except String CallParams :=
  if request.attemptNo < 4294967296 then
    ok
      { name := request.tool
        arguments := request.input
        callMeta :=
          { runId := request.runId, vertexId := request.vertexId, scopeId := request.scopeId
            toolVersion := request.toolVersion, toolViewDigest := request.toolViewDigest
            attempt := UInt32.ofNat request.attemptNo
            idempotencyKey := request.idempotencyKey, deadlineMs := request.deadlineMs } }
  else error "json: cannot unmarshal number into Go struct field callMeta._meta.attempt of type uint32"

/-- `refusalOutcomes`. -/
def refusalOutcomes (reason : String) : Option OperationOutcome :=
  if reason = "unknown-tool-view" then some .permanentFailure
  else if reason = "unknown-tool" then some .permanentFailure
  else if reason = "version-absent-from-view" then some .permanentFailure
  else if reason = "authorization-denied" then some .permanentFailure
  else if reason = "schema-violation" then some .permanentFailure
  else if reason = "route-unhealthy" then some .retryableFailure
  else none

/-- The outcome of a name. -/
def outcomeNamed (name : String) : Option OperationOutcome :=
  if name = "succeeded" then some .succeeded
  else if name = "retryable-failure" then some .retryableFailure
  else if name = "permanent-failure" then some .permanentFailure
  else if name = "unknown" then some .unknown
  else none

/-- A result that the adapter can decode: an object, or nothing. -/
def decodeResult (json : GoValue → Json) : Option GoValue → Except String Json
  | none | some .null => ok .null
  | some (.object entries) => ok (json (.object entries))
  | some _ => error "json: cannot unmarshal into Go struct field of type map[string]interface"

/-- What the adapter makes of the gateway's answer. -/
def adapterResponse (json : GoValue → Json) (tool : String) :
    Except RpcError CallResult → Except String OperationResponse
  | error failure =>
    match failure.reason.bind fun reason => refusalOutcomes reason.text with
    | none => error ("gateway refused " ++ tool ++ ": " ++ failure.message)
    | some outcome => ok { outcome := outcome, error := failure.message }
  | ok result =>
    match decodeResult json result.result with
    | error message => error message
    | ok decoded =>
      match outcomeNamed result.outcome with
      | none => error ("gateway returned unknown outcome " ++ result.outcome.quote)
      | some outcome => ok { outcome := outcome, result := decoded, error := result.failure }

/-- What becomes of the HTTP exchange: the request never arrives, its answer never does, it is
answered with another status or with a body that is no JSON, or the answer is delivered. -/
inductive Fate
  | unsent (message : String)
  | lost (message : String)
  | status (code : ℕ)
  | unreadable (message : String)
  | delivered

/-- The circumstances of one call: the gateway and the network as they are at that moment, the
pinned version and digest, the identity of the run and the certificate of the connection. -/
structure Circumstances (prims : Primitives) where
  middleware : Option (Middleware prims) := none
  server : Server prims
  upstream : Upstream
  certificate : Option (List Authn.Uri) := none
  fate : Fate
  json : GoValue → Json
  input : Json → String
  toolVersion : String := ""
  toolViewDigest : String := ""
  authorizationIdentity : Option WorkflowIdentity := none

/-- **What became of one attempt**: whether a request was sent to an instance, what it answered,
and what the adapter returned. -/
structure Exchange where
  sent : Bool
  answer : Option ExecuteResponse
  response : Except String OperationResponse

section Calls

variable {prims : Primitives}

/-- The headers of the adapter's request. -/
def Circumstances.request (circumstances : Circumstances prims) (request : OperationRequest) :
    Authn.Request where
  workflowIdentity := match request.authorizationIdentity with
    | some identity => Authn.encodeWorkflowIdentity prims identity
    | none => ""
  certificate := circumstances.certificate

/-- The gateway's handler behind its middleware, if it has one: nothing when the request is
answered with status 401. -/
def Circumstances.handle (circumstances : Circumstances prims) (request : OperationRequest) :
    Option HandledCall :=
  match circumstances.middleware with
  | none => some (circumstances.server.toolsCall circumstances.upstream none request.params)
  | some middleware =>
    match middleware.authenticate (circumstances.request request) with
    | error _ => none
    | ok principal =>
      some (circumstances.server.toolsCall circumstances.upstream (some principal)
        request.params)

/-- `GatewayClient.Execute`. -/
def Circumstances.execute (circumstances : Circumstances prims) (request : OperationRequest) :
    Exchange :=
  match circumstances.fate with
  | .unsent message => ⟨false, none, error message⟩
  | fate =>
    match circumstances.handle request with
    | none => ⟨false, none, error "gateway returned HTTP 401"⟩
    | some handled =>
      ⟨handled.sent, handled.answer,
        match fate with
        | .unsent message | .lost message | .unreadable message => error message
        | .status code => error ("gateway returned HTTP " ++ toString code)
        | .delivered => adapterResponse circumstances.json request.tool handled.reply⟩

/-- The request of a site for an attempt. -/
def Circumstances.operation (circumstances : Circumstances prims) (site : Site) (attempt : ℕ) :
    OperationRequest where
  runId := toString site.call.runId
  vertexId := toString site.call.vertexId
  scopeId := match site.call.scopeId with
    | some scopeId => toString scopeId
    | none => ""
  attemptNo := attempt
  tool := site.call.tool
  toolVersion := circumstances.toolVersion
  toolViewDigest := circumstances.toolViewDigest
  idempotencyKey := site.call.idempotencyKey
  input := circumstances.input site.call.input
  authorizationIdentity := circumstances.authorizationIdentity

/-! ### What a failure means -/

/-- The evidence a tool gave for itself. -/
def UpstreamOutcome.evidence : UpstreamOutcome → Option AttemptOutcome
  | .succeeded => some .succeeded
  | .retryableFailure => some .retryableFailure
  | .permanentFailure => some .permanentFailure
  | .unspecified | .unknown | .other _ => none

/-- What an instance answered in an exchange, when it gave an outcome. -/
def Exchange.evidence (exchange : Exchange) : Option AttemptOutcome :=
  exchange.answer.bind fun answer => answer.outcome.evidence

/-- A refusal before anything was sent, an unknown outcome, or the outcome of the instance that
answered. -/
def HandledCall.Explained (handled : HandledCall) : Prop :=
  (handled.sent = false ∧ ∃ failure, handled.reply = error failure) ∨
    ∃ result, handled.reply = ok result ∧ (result.outcome = "unknown" ∨
      ∃ answer, handled.answer = some answer ∧ answer.outcome.name? = some result.outcome)

/-- **What a call is answered with.** -/
theorem toolsCall_cases (server : Server prims) (upstream : Upstream)
    (principal : Option Principal) (params : Except String CallParams) {handled : HandledCall}
    (h : server.toolsCall upstream principal params = handled) : handled.Explained := by
  subst h
  unfold Server.toolsCall
  cases server.admitCall principal params with
  | error failure => exact .inl ⟨rfl, failure, rfl⟩
  | ok call =>
    dsimp only
    have huns : ∀ routeId, (upstream.execute call.tool.routeId call.request).result =
          error (.noHealthyInstance routeId) →
        (upstream.execute call.tool.routeId call.request).sent = false := by
      intro routeId hres
      unfold Upstream.execute at hres ⊢
      cases hpick : upstream.pick call.tool.routeId with
      | none => rfl
      | some =>
        rw [hpick] at hres
        dsimp only at hres
        split at hres
        · cases hres
        · split at hres <;> cases hres
    cases hres : (upstream.execute call.tool.routeId call.request).result with
    | error failure =>
      cases failure with
      | noHealthyInstance routeId => exact .inl ⟨huns routeId hres, _, rfl⟩
      | failed => exact .inr ⟨_, rfl, .inl rfl⟩
    | ok answer =>
      refine .inr ⟨_, rfl, ?_⟩
      unfold Server.outcomeResult
      dsimp only
      have hname : answer.outcome.name?.getD "unknown" = "unknown" ∨
          answer.outcome.name? = some (answer.outcome.name?.getD "unknown") := by
        cases answer.outcome.name? with
        | none => exact .inl rfl
        | some => exact .inr rfl
      split
      · exact hname.imp_right fun hname => ⟨answer, rfl, hname⟩
      split
      · exact .inl rfl
      · exact hname.imp_right fun hname => ⟨answer, rfl, hname⟩

/-- A named outcome is read back. -/
theorem evidence_outcomeNamed {outcome : UpstreamOutcome} {name : String} {read : OperationOutcome}
    (hname : outcome.name? = some name) (hread : outcomeNamed name = some read) :
    read.evidence = outcome.evidence := by
  cases outcome with
  | unspecified | other => cases hname
  | _ =>
    cases hname
    cases hread
    rfl

/-- **What an outcome on the adapter's side means**: the instance answered with it, or nothing was
sent. -/
theorem adapterResponse_evidence {json : GoValue → Json} {tool : String} {handled : HandledCall}
    {response : OperationResponse} (hcas : handled.Explained)
    (h : adapterResponse json tool handled.reply = ok response)
    (hout : response.outcome.evidence = some outcome) :
    handled.sent = false ∨ ∃ answer, handled.answer = some answer ∧
      answer.outcome.evidence = some outcome := by
  rcases hcas with ⟨huns, -⟩ | ⟨result, hrep, hres⟩
  · exact .inl huns
  rw [hrep] at h
  simp only [adapterResponse] at h
  cases hdec : decodeResult json result.result with
  | error =>
    rw [hdec] at h
    cases h
  | ok =>
    rw [hdec] at h
    dsimp only at h
    cases hnam : outcomeNamed result.outcome with
    | none =>
      rw [hnam] at h
      cases h
    | some =>
      rw [hnam] at h
      cases h
      rcases hres with hunk | ⟨answer, hans, hname⟩
      · rw [hunk] at hnam
        cases hnam
        cases hout
      · exact .inr ⟨answer, hans, (evidence_outcomeNamed hname hnam).symm.trans hout⟩

/-- **The adapter reports an outcome only when the tool answered with it, or when nothing was
sent.** -/
theorem exchange_outcome (circumstances : Circumstances prims) (request : OperationRequest)
    {response : OperationResponse} (h : (circumstances.execute request).response = ok response)
    (hout : response.outcome.evidence = some outcome) :
    (circumstances.execute request).sent = false ∨
      (circumstances.execute request).evidence = some outcome := by
  have hhand : ∀ handled, circumstances.handle request = some handled →
      ∃ principal, circumstances.server.toolsCall circumstances.upstream principal
        request.params = handled := by
    intro handled hhan
    unfold Circumstances.handle at hhan
    split at hhan
    · exact ⟨none, Option.some.inj hhan⟩
    split at hhan
    · cases hhan
    · exact ⟨_, Option.some.inj hhan⟩
  unfold Circumstances.execute at h ⊢
  cases hfate : circumstances.fate with
  | unsent => exact .inl rfl
  | lost | status | unreadable =>
    rw [hfate] at h
    cases hhan : circumstances.handle request with
    | none => exact .inl rfl
    | some =>
      rw [hhan] at h
      cases h
  | delivered =>
    rw [hfate] at h
    cases hhan : circumstances.handle request with
    | none => exact .inl rfl
    | some handled =>
      rw [hhan] at h
      obtain ⟨principal, hcall⟩ := hhand handled hhan
      refine (adapterResponse_evidence (toolsCall_cases _ _ _ _ hcall) h hout).imp_right ?_
      rintro ⟨answer, hans, hevid⟩
      exact Option.bind_eq_some_iff.mpr ⟨answer, hans, hevid⟩

end Calls

end Flory.Mcp

/-! ### The attempt a worker has in hand -/

variable {site : Site} {cfg : Config} {id : ℕ} {world' : World} {w : WorkerId} {n : ℕ}

namespace Flory

/-- The attempt a worker waits for or is about to resolve. -/
def Pc.inHand : Pc → Option ℕ
  | .calling _ _ attemptId | .resolve _ _ attemptId _ => some attemptId
  | _ => none

variable {pc : Pc}

theorem GoesOn.inHand (h : GoesOn site pc) : pc.inHand = none := by
  cases h with
  | finished h => cases h <;> rfl
  | _ => rfl

theorem Pc.Loose.inHand (h : pc.Loose) : pc.inHand = none := by
  cases h <;> rfl

theorem Handed.inHand {work : WorkItem} (h : Handed work pc) : pc.inHand = none := by
  cases h <;> rfl

theorem inHand_confirmNext (item : ScopedItem) (rest : List SealedBracket) :
    (confirmNext item rest).inHand = none := by
  cases rest with
  | nil => rfl
  | cons => exact entered_confirm.goesOn.inHand

/-- **How an attempt comes into a worker's hand**: it is recorded, or its answer is. -/
theorem WorkerStep.inHand {me : WorkerId} {db db' : Db} {pc' : Pc}
    (h : WorkerStep cfg me db pc db' pc') (hid : pc'.inHand = some id) :
    (∃ site n, pc = .record site n ∧ pc' = .calling site n id ∧ id = db.nextAttemptId) ∨
      ∃ site n response, pc = .calling site n id ∧ pc' = .resolve site n id response := by
  have hnone : pc'.inHand ≠ none := by simp [hid]
  cases h with
  | recorded =>
    cases hid
    exact .inl ⟨_, _, rfl, rfl, rfl⟩
  | answered site n attemptId response =>
    unfold Flory.answered at hid hnone ⊢
    split at hid
    · cases hid
      exact .inr ⟨site, n, response, rfl, rfl⟩
    · rw [goesOn_afterAttempt.inHand] at hid
      cases hid
  | resolved | unresolved => exact absurd goesOn_afterAttempt.inHand hnone
  | started => exact absurd entered_regular.goesOn.inHand hnone
  | admitted => exact absurd entered_pivot.goesOn.inHand hnone
  | memberClaimed => exact absurd entered_inverse.goesOn.inHand hnone
  | duplicate hpc | stillSuspended hpc | ineligible hpc | deferred hpc | suspended hpc
  | requested hpc => exact absurd (loose_request_next hpc).inHand hnone
  | claimed => exact absurd handed_dispatch.inHand hnone
  | ensured | opened => exact absurd handed_dispatchScoped.inHand hnone
  | listed | confirmed => exact absurd (inHand_confirmNext _ _) hnone
  | failed | suspendedCancel | cancelCompleted | stuck =>
    exact absurd (Pc.Loose.inHand (by simp)) hnone
  | _ => cases hid

/-- Whether an action is the answer to a call. -/
def Action.isAnswer : Action → Bool
  | .answer _ _ => true
  | _ => false

/-- A worker that waits for its call goes on waiting, or crashes, unless the call is answered. -/
theorem calling_of_step {world : World} {a : Action} (hstep : step cfg world a = some world')
    (ha : a.isAnswer = false) (hpc : world.workers w = .calling site n id) :
    world'.workers w = .calling site n id ∨ world'.workers w = .idle := by
  -- the moves of other workers leave this one where it is
  have hoth : ∀ {w' : WorkerId} {next : Db × Pc}, w' ≠ w →
      (world.move w' next).workers w = .calling site n id := by
    intro w' next hne
    simp [World.move, hne.symm, hpc]
  cases a with
  | poll w' =>
    simp only [step] at hstep
    split at hstep
    · rename_i hidle
      cases hstep
      refine .inl (hoth ?_)
      rintro rfl
      rw [hpc] at hidle
      cases hidle
    · cases hstep
  | sweep w' order =>
    simp only [step] at hstep
    split at hstep
    · rename_i hidle
      split at hstep
      · cases hstep
        refine .inl (hoth ?_)
        rintro rfl
        rw [hpc] at hidle
        cases hidle
      · cases hstep
    · cases hstep
  | advance =>
    obtain ⟨next, hnext, rfl⟩ := Option.map_eq_some_iff.mp hstep
    refine .inl (hoth ?_)
    rintro rfl
    rw [hpc] at hnext
    cases hnext
  | answer => cases ha
  | crash w' =>
    cases hstep
    by_cases hw : w' = w
    · subst hw
      exact .inr (by simp [World.move])
    · exact .inl (hoth hw)
  | tick | releaseRead =>
    cases hstep
    exact .inl hpc
  | createRun | completeRead => exact .inl (by rw [(commit_eq_some hstep).2, hpc])
  | freeze | engineAppend =>
    simp only [step] at hstep
    split at hstep
    · exact .inl (by rw [(commit_eq_some hstep).2, hpc])
    · cases hstep
  | claimRead =>
    obtain ⟨_, -, rfl⟩ := Option.map_eq_some_iff.mp hstep
    exact .inl hpc

end Flory

namespace Flory.Mcp

open Authn (Primitives)
open Except (error ok)

/-! ### The system with its exchanges -/

/-- A world, and the exchanges its workers have had, by attempt. -/
structure Ledgered where
  world : World
  exchanges : List (ℕ × Exchange) := []

/-- Actions of the system, and calls whose answers the gateway gives. -/
inductive LedgeredAction (prims : Primitives)
  | plain (a : Action)
  | call (w : WorkerId) (circumstances : Circumstances prims)

section Run

variable {prims : Primitives}

/-- One step: a call that a worker waits for is answered by its exchange. -/
def ledgeredStep (cfg : Config) (s : Ledgered) : LedgeredAction prims → Option Ledgered
  | .plain a =>
    if a.isAnswer then none else (step cfg s.world a).map fun world => { s with world := world }
  | .call w circumstances =>
    match s.world.workers w with
    | .calling site attempt attemptId =>
      let exchange := circumstances.execute (circumstances.operation site attempt)
      (step cfg s.world (.answer w exchange.response.toOption)).map fun world =>
        ⟨world, (attemptId, exchange) :: s.exchanges⟩
    | _ => none

/-- The system before anything happened. -/
def Ledgered.initial : Ledgered where
  world := World.initial

variable (prims) in
/-- What some run of the system reaches. -/
def LedgeredReachable (cfg : Config) (s : Ledgered) : Prop :=
  Transition.Reachable (@ledgeredStep prims cfg) Transition.anyStep Ledgered.initial s

variable {s : Ledgered}

/-- The world of a run is one that the system reaches. -/
theorem LedgeredReachable.world (h : LedgeredReachable prims cfg s) : Reachable cfg s.world := by
  have hinit : Reachable cfg Ledgered.initial.world := .refl
  refine Transition.Reachable.invariant (I := fun s => Reachable cfg s.world) h hinit ?_
  intro mid mid' a hmid _ hstep
  cases a with
  | plain =>
    simp only [ledgeredStep] at hstep
    split at hstep
    · cases hstep
    · obtain ⟨world, hwor, rfl⟩ := Option.map_eq_some_iff.mp hstep
      exact hmid.tail trivial hwor
  | call =>
    simp only [ledgeredStep] at hstep
    split at hstep
    · obtain ⟨world, hwor, rfl⟩ := Option.map_eq_some_iff.mp hstep
      exact hmid.tail trivial hwor
    · cases hstep

/-! ### Every outcome on record is accounted for -/

/-- How the outcome of an attempt came on record: the attempt's own exchange brought it, or the
status query of a pivot established it. -/
def Ledgered.Established (s : Ledgered) (id : ℕ) (row : AttemptRow) (outcome : AttemptOutcome) :
    Prop :=
  (∃ exchange response, (id, exchange) ∈ s.exchanges ∧ exchange.response = ok response ∧
    response.outcome.evidence = some outcome) ∨
  (row.operation = .pivot ∧ (outcome = .succeeded ∨ outcome = .confirmedAbsent))

variable (prims) in
/-- **Exchanges and evidence.** An attempt has one exchange at most, and none while its worker
waits for it; the answer that a worker is about to record is that of the exchange; and every
outcome on record is accounted for. -/
structure Accounted (s : Ledgered) : Prop where
  recorded : ∀ id exchange, (id, exchange) ∈ s.exchanges → id < s.world.db.nextAttemptId
  once : (s.exchanges.map Prod.fst).Nodup
  waiting : ∀ w site n id, s.world.workers w = .calling site n id → id ∉ s.exchanges.map Prod.fst
  answered : ∀ w site n id response, s.world.workers w = .resolve site n id response →
    ∃ exchange, (id, exchange) ∈ s.exchanges ∧ exchange.response = ok response
  established : ∀ id row outcome, s.world.db.attempts.lookup id = some row →
    row.outcome = some outcome → s.Established id row outcome
  real : ∀ id exchange, (id, exchange) ∈ s.exchanges →
    ∃ (circumstances : Circumstances prims) (request : OperationRequest),
      exchange = circumstances.execute request

/-- A recorded exchange stays one. -/
theorem Ledgered.Established.mono {s' : Ledgered} {row row' : AttemptRow}
    (h : s.Established id row outcome) (hexc : ∀ entry ∈ s.exchanges, entry ∈ s'.exchanges)
    (hoper : row'.operation = row.operation) : s'.Established id row' outcome := by
  rcases h with ⟨exchange, response, hexch, h⟩ | ⟨hpiv, h⟩
  · exact .inl ⟨exchange, response, hexc _ hexch, h⟩
  · exact .inr ⟨hoper.trans hpiv, h⟩

/-- The outcome that a worker is about to write is accounted for. -/
theorem Accounted.established_of_resolves (h : Accounted prims s)
    (hdis : Flory.Dispatched s.world)
    (hres : (s.world.workers w).resolves = some (id, outcome)) {row : AttemptRow}
    (hrow : s.world.db.attempts.lookup id = some row) : s.Established id row outcome := by
  have hpiv : (s.world.workers w).pivotId = some id → row.operation = .pivot :=
    fun hid => ((hdis.pivot w id hid).2 row hrow).2
  cases hpc : s.world.workers w with
  | resolve site n attemptId response =>
    simp only [hpc, Pc.resolves, Option.map_eq_some_iff, Prod.mk.injEq] at hres
    obtain ⟨_, hevid, rfl, rfl⟩ := hres
    obtain ⟨exchange, hexc, hresp⟩ := h.answered w site n attemptId response hpc
    exact .inl ⟨exchange, response, hexc, hresp, hevid⟩
  | occurred | absent =>
    simp only [hpc, Pc.resolves, Option.some.injEq, Prod.mk.injEq] at hres
    obtain ⟨rfl, rfl⟩ := hres
    rw [hpc] at hpiv
    exact .inr ⟨hpiv rfl, by simp⟩
  | _ => simp [hpc, Pc.resolves] at hres

/-- A step without an answer keeps exchanges and evidence in agreement. -/
theorem Accounted.plain {a : Action} (h : Accounted prims s) (hreach : Reachable cfg s.world)
    (hstep : step cfg s.world a = some world') (ha : a.isAnswer = false) :
    Accounted prims { s with world := world' } := by
  have hdis := dispatched_of_reachable hreach
  obtain ⟨w, hchan⟩ := changes_of_step hreach hstep
  have hnext : s.world.db.nextAttemptId ≤ world'.db.nextAttemptId := by
    rcases step_cases hstep with ⟨w, hmove⟩ | ⟨henv, -⟩
    · exact hmove.step.nextAttemptId_le
    · exact le_of_eq henv.nextAttemptId.symm
  -- an attempt that comes into hand without an answer was just recorded
  have hinH : ∀ w id, (world'.workers w).inHand = some id → world'.workers w = s.world.workers w ∨
        (id = s.world.db.nextAttemptId ∧ ∃ site n, world'.workers w = .calling site n id) := by
    intro w id hid
    rcases step_cases hstep with ⟨mover, hmove⟩ | ⟨-, hwor⟩
    · by_cases hw : w = mover
      · subst hw
        rcases hmove.step.inHand hid with ⟨site, n, -, hcal, hfresh⟩ | ⟨site, n, _, hpc, hpc'⟩
        · exact .inr ⟨hfresh, site, n, hcal⟩
        rcases calling_of_step hstep ha hpc with hsame | hidle
        · exact .inl (hsame.trans hpc.symm)
        · rw [hidle] at hpc'
          cases hpc'
      · exact .inl (hmove.others w hw)
    · exact .inl (by rw [hwor])
  refine ⟨fun id exchange hexc => ?_, h.once, ?_, ?_, ?_, h.real⟩
  · exact Nat.lt_of_lt_of_le (h.recorded id exchange hexc) hnext
  · intro w site n id hpc
    rcases hinH w id (by rw [hpc]; rfl) with hsame | ⟨rfl, -⟩
    · exact h.waiting w site n id (hsame.symm.trans hpc)
    intro hmem
    obtain ⟨⟨_, exchange⟩, hexc, rfl⟩ := List.mem_map.mp hmem
    exact absurd (h.recorded _ exchange hexc) (Nat.lt_irrefl _)
  · intro w site n id response hpc
    rcases hinH w id (by rw [hpc]; rfl) with hsame | ⟨-, site', n', hcal⟩
    · exact h.answered w site n id response (hsame.symm.trans hpc)
    · rw [hpc] at hcal
      cases hcal
  · intro id row outcome hrow hout
    have hold : ∀ old, s.world.db.attempts.lookup id = some old → old.outcome = some outcome →
        old.operation = row.operation →
        Ledgered.Established { s with world := world' } id row outcome :=
      fun old hlook hset hoper =>
        (h.established id old outcome hlook hset).mono (fun _ hent => hent) hoper.symm
    cases hchan.attempt id with
    | kept hsame => exact hold row (hsame.symm.trans hrow) hout rfl
    | recorded hpc hid hnew =>
      obtain rfl := Option.mem_unique hnew hrow
      cases hout
    | resolved hres hlook hopen hnew =>
      obtain rfl := Option.mem_unique hnew hrow
      cases hout
      exact (h.established_of_resolves hdis hres hlook).mono (fun _ hent => hent) rfl

/-- What the answer to a call leaves: the same database, the other workers where they were, and
its own worker about to record the answer, or with nothing in hand. -/
theorem answer_cases {world : World} {response : Except String OperationResponse}
    (hpc : world.workers w = .calling site n id)
    (hstep : step cfg world (.answer w response.toOption) = some world') :
    world'.db = world.db ∧ (∀ w' ≠ w, world'.workers w' = world.workers w') ∧
      ((world'.workers w).inHand = none ∨
        ∃ answer, response = ok answer ∧ world'.workers w = .resolve site n id answer) := by
  obtain ⟨next, rfl, hnext⟩ : ∃ next, world' = world.move w (world.db, next) ∧
      (next.inHand = none ∨ ∃ answer, response = ok answer ∧ next = .resolve site n id answer) := by
    cases response with
    | error =>
      simp only [step, hpc, Except.toOption] at hstep
      exact ⟨site.failed, (Option.some.inj hstep).symm, .inl (loose_failed site).inHand⟩
    | ok answer =>
      simp only [step, hpc, Except.toOption] at hstep
      refine ⟨_, (Option.some.inj hstep).symm, ?_⟩
      unfold Flory.answered
      split
      · exact .inr ⟨answer, rfl, rfl⟩
      · exact .inl goesOn_afterAttempt.inHand
  refine ⟨rfl, fun w' hne => by simp [World.move, hne], ?_⟩
  simpa [World.move] using hnext

/-- An answered call keeps exchanges and evidence in agreement. -/
theorem Accounted.call (h : Accounted prims s) (hreach : Reachable cfg s.world)
    (hpc : s.world.workers w = .calling site n id) (circumstances : Circumstances prims)
    (request : OperationRequest)
    (hstep : step cfg s.world (.answer w (circumstances.execute request).response.toOption) =
      some world') :
    Accounted prims ⟨world', (id, circumstances.execute request) :: s.exchanges⟩ := by
  have hdis := dispatched_of_reachable hreach
  have hpen : ∀ {w : WorkerId} {site : Site} {n id : ℕ},
      s.world.workers w = .calling site n id → s.world.db.Pending w site n id := by
    intro w site n id hpc
    have hbac := hdis.backed w
    rw [hpc] at hbac
    exact hbac
  obtain ⟨hdb, hoth, hown⟩ := answer_cases hpc hstep
  -- the worker itself waits no longer, and no other waits for the same attempt
  have hwait : ∀ w' site' n' id', world'.workers w' = .calling site' n' id' →
      s.world.workers w' = .calling site' n' id' ∧ id' ≠ id := by
    intro w' site' n' id' hpc'
    have hne : w' ≠ w := by
      rintro rfl
      rcases hown with hnone | ⟨_, -, hres⟩
      · rw [hpc'] at hnone
        cases hnone
      · rw [hpc'] at hres
        cases hres
    have hsame := (hoth w' hne).symm.trans hpc'
    refine ⟨hsame, ?_⟩
    rintro rfl
    have hrow := Option.some.inj ((hpen hsame).symm.trans (hpen hpc))
    exact hne (congrArg AttemptRow.worker hrow)
  refine ⟨?_, ?_, ?_, ?_, ?_, ?_⟩
  · intro id' exchange hexc
    rw [hdb]
    rcases List.mem_cons.mp hexc with heq | hexc
    · obtain rfl := (Prod.mk.inj heq).1
      exact (hdis.fresh _ _ (hpen hpc)).2
    · exact h.recorded id' exchange hexc
  · exact List.nodup_cons.mpr ⟨h.waiting w site n id hpc, h.once⟩
  · intro w' site' n' id' hpc'
    obtain ⟨hsame, hne⟩ := hwait w' site' n' id' hpc'
    exact List.not_mem_cons_of_ne_of_not_mem hne (h.waiting w' site' n' id' hsame)
  · intro w' site' n' id' response hpc'
    by_cases hw : w' = w
    · subst hw
      rcases hown with hnone | ⟨answer, hans, hres⟩
      · rw [hpc'] at hnone
        cases hnone
      · obtain ⟨rfl, rfl, rfl, rfl⟩ := Pc.resolve.inj (hpc'.symm.trans hres)
        exact ⟨_, List.mem_cons_self, hans⟩
    · obtain ⟨exchange, hexc, hresp⟩ :=
        h.answered w' site' n' id' response ((hoth w' hw).symm.trans hpc')
      exact ⟨exchange, List.mem_cons_of_mem _ hexc, hresp⟩
  · intro id' row outcome hrow hout
    have hold := h.established id' row outcome (hdb ▸ hrow) hout
    exact hold.mono (fun _ hent => List.mem_cons_of_mem _ hent) rfl
  intro id' exchange hexc
  rcases List.mem_cons.mp hexc with heq | hexc
  · exact ⟨circumstances, request, (Prod.mk.inj heq).2⟩
  · exact h.real id' exchange hexc

/-- There is nothing to account for at the start. -/
theorem accounted_initial : Accounted prims Ledgered.initial where
  recorded _ _ h := absurd h List.not_mem_nil
  once := List.nodup_nil
  waiting w site n id hpc := by
    simp [Ledgered.initial, World.initial] at hpc
  answered w site n id response hpc := by
    simp [Ledgered.initial, World.initial] at hpc
  established id row outcome hrow := by
    simp [Ledgered.initial, World.initial] at hrow
  real _ _ h := absurd h List.not_mem_nil

/-- **Every outcome on record is accounted for**, in every run. -/
theorem accounted_of_reachable (h : LedgeredReachable prims cfg s) : Accounted prims s := by
  refine Transition.Reachable.invariant_of (K := fun s => Reachable cfg s.world)
    (I := Accounted prims) h (fun s hs => LedgeredReachable.world hs) accounted_initial ?_
  intro mid mid' a hreach _ hmid _ hstep
  cases a with
  | plain a =>
    simp only [ledgeredStep] at hstep
    split at hstep
    · cases hstep
    rename_i hans
    obtain ⟨world, hwor, rfl⟩ := Option.map_eq_some_iff.mp hstep
    exact hmid.plain hreach hwor (by simpa using hans)
  | call w circumstances =>
    simp only [ledgeredStep] at hstep
    split at hstep
    · rename_i hpc
      obtain ⟨world, hwor, rfl⟩ := Option.map_eq_some_iff.mp hstep
      exact hmid.call hreach hpc circumstances _ hwor
    · cases hstep

/-- **A definitive failure means it.** In every run of the system, whatever the gateway and the
network do to each call: an attempt on record as a permanent or retryable failure had an exchange
in which the tool service answered with that outcome, or in which no request was sent to any
instance. And an attempt whose request was sent without an outcome coming back is unresolved,
unless it is a pivot whose status query has established since whether it occurred. -/
theorem definitive_failures_mean_it {cfg : Config} {s : Ledgered}
    (h : LedgeredReachable prims cfg s) {id : ℕ} {row : AttemptRow}
    (hrow : s.world.db.attempts.lookup id = some row) :
    (∀ outcome, row.outcome = some outcome →
        outcome = .permanentFailure ∨ outcome = .retryableFailure →
      ∃ exchange, (id, exchange) ∈ s.exchanges ∧
        (exchange.evidence = some outcome ∨ exchange.sent = false)) ∧
    ∀ exchange, (id, exchange) ∈ s.exchanges → exchange.sent = true → exchange.evidence = none →
      row.outcome = none ∨ (row.operation = .pivot ∧
        (row.outcome = some .succeeded ∨ row.outcome = some .confirmedAbsent)) := by
  have hinv := accounted_of_reachable h
  -- what the exchange of an attempt brought, when it brought the outcome on record
  have hbroug : ∀ exchange response outcome, (id, exchange) ∈ s.exchanges →
      exchange.response = ok response → response.outcome.evidence = some outcome →
      exchange.sent = false ∨ exchange.evidence = some outcome := by
    intro exchange response outcome hexc hres hevid
    obtain ⟨circumstances, request, rfl⟩ := hinv.real id exchange hexc
    exact exchange_outcome circumstances request hres hevid
  constructor
  · intro outcome hout hfail
    rcases hinv.established id row outcome hrow hout with
      ⟨exchange, response, hexc, hres, hevid⟩ | ⟨-, hver⟩
    · exact ⟨exchange, hexc, (hbroug exchange response outcome hexc hres hevid).symm⟩
    · rcases hfail with rfl | rfl <;> simp at hver
  · intro exchange hexc hsent hnot
    cases hout : row.outcome with
    | none => exact .inl rfl
    | some outcome =>
      rcases hinv.established id row outcome hrow hout with
        ⟨other, response, hother, hres, hevid⟩ | ⟨hpivot, hver⟩
      · -- an attempt has one exchange only
        have hsame : other = exchange :=
          congrArg Prod.snd (List.inj_on_of_nodup_map hinv.once hother hexc rfl)
        subst hsame
        rcases hbroug other response outcome hother hres hevid with huns | hans
        · rw [hsent] at huns
          cases huns
        · rw [hnot] at hans
          cases hans
      · exact .inr ⟨hpivot, hver.imp (congrArg some) (congrArg some)⟩

end Run

/-- A gateway that has published no view yet. -/
def unpublished : Circumstances Authn.plainPrimitives where
  server := { sha256 := fun _ => "0" }
  upstream :=
    { pick := fun _ => none
      connect := fun _ => ok ()
      call := fun _ _ => ok { outcome := .unspecified } }
  fate := .delivered
  json := fun _ => .null
  input := fun _ => "\x7b\x7d"

/-- A try is called, refused before anything is sent, and its failure recorded. -/
def refusedCall : List (LedgeredAction Authn.plainPrimitives) :=
  ([Action.createRun 1, .freeze 1 [tccVertex 10 [] 5 "a"]] ++ callNext 1).map .plain ++
    [.call 1 unpublished] ++ (drive 1 1).map .plain

/-- What the run reaches. -/
def refusedState : Ledgered :=
  (Transition.run (ledgeredStep Config.standard) Ledgered.initial refusedCall).getD Ledgered.initial

/-- The run is one of the system. -/
theorem reachable_refusedState :
    LedgeredReachable Authn.plainPrimitives Config.standard refusedState := by
  have hsome : (Transition.run (ledgeredStep Config.standard) Ledgered.initial
      refusedCall).isSome = true := by
    decide +kernel
  obtain ⟨_, hlast⟩ := Option.isSome_iff_exists.mp hsome
  rw [refusedState, hlast, Option.getD_some]
  exact Transition.reachable_of_run hlast

/-- The refused call is on record as a permanent failure, and nothing was sent or its tool
answered so. -/
theorem definitive_failures_mean_it_refusedCall :
    ∃ row, refusedState.world.db.attempts.lookup 1 = some row ∧
      row.outcome = some .permanentFailure ∧ ∃ exchange, (1, exchange) ∈ refusedState.exchanges ∧
        (exchange.evidence = some .permanentFailure ∨ exchange.sent = false) := by
  have hout : (refusedState.world.db.attempts.lookup 1).map AttemptRow.outcome =
      some (some .permanentFailure) := by
    decide +kernel
  obtain ⟨row, hrow, hout⟩ := Option.map_eq_some_iff.mp hout
  exact ⟨row, hrow, hout, (definitive_failures_mean_it reachable_refusedState hrow).1 _ hout
    (.inl rfl)⟩

end Flory.Mcp
