import Mathlib.Algebra.Order.Ring.Unbundled.Rat
import Flory.ScopeFold
import Flory.Worklist

/-!
# The Recovery Ladder

The planning half of recovery: where a run resumes after a failure, what is discarded, and
which scopes have to be cancelled first. Everything that decides is a function of the run's
stream, of the policy, and of the scope rows as they stand under the lock the decision is
taken in.

## Contents

* `ancestorPlanners`, `replanEpisode`, `shadowSet`: the places a failure could resume at, the
  replans already used, and the vertices a replan discards.
* `selectBoundary`: the decision, one of record, request and wait.
* `decideRecovery`: the decision with the events it appends.
* `outstanding`: the failures no decision has answered yet.

## Conventions

* Prices are exact rationals, where the code rounds them to twelve digits.
* The text of a planner's prompt enters a price by its length alone, a parameter here.
-/

namespace Flory

/-! ### Reading the log -/

/-- `backtrackFloor`: the most recent `txn/pivot-passed`, below which no boundary may be
selected. -/
def backtrackFloor (events : List Event) : ℕ :=
  events.foldl (fun floor e =>
    match e.body with
    | .txnPivotPassed => max floor e.runSeq
    | _ => floor) 0

/-- The source of the proposal a freeze names: that of the last proposal at its sequence
number, and a submission where there is none. -/
def proposalSource (events : List Event) (proposedSeq : ℕ) : ProposalSource :=
  events.foldl (fun source e =>
    match e.body with
    | .subgraph (.proposed made) => if e.runSeq = proposedSeq then made else source
    | _ => source) .submitted

/-- The source of the freeze the first creation of a vertex belongs to. -/
def authorOf (stream : List Event) (v : VertexId) :
    ProposalSource → List Event → Option ProposalSource
  | _, [] => none
  | current, e :: rest =>
    match e.body with
    | .subgraph (.frozen proposedSeq) =>
      authorOf stream v (proposalSource stream proposedSeq) rest
    | .vertexCreated _ =>
      if e.vertexId = some v then some current else authorOf stream v current rest
    | _ => authorOf stream v current rest

/-- `ruleAuthored`: whether a rule authored this vertex, rather than a model. -/
def ruleAuthored (events : List Event) (v : VertexId) : Bool :=
  authorOf events v .submitted events == some .router

/-- The last creation of a vertex, as a map by vertex holds it. -/
def createdEvent (events : List Event) (v : VertexId) : Option Event :=
  (events.filter fun e => e.body.isCreated && e.vertexId == some v).getLast?

/-- The sequence number of the last success of a vertex. -/
def succeededAt (events : List Event) (v : VertexId) : Option ℕ :=
  ((events.filter fun e => e.body.isSucceeded && e.vertexId == some v).getLast?).map (·.runSeq)

/-- Whether an event creates a planner. -/
def EventBody.isPlanner : EventBody → Bool
  | .vertexCreated .planner => true
  | _ => false

/-- A succeeded planner a failure could resume at, and its distance from the failure. -/
structure AncestorPlanner where
  vertexId : VertexId
  seq : ℕ
  depth : ℕ
  deriving DecidableEq, Repr

/-- A vertex as a place to resume: it has to be a planner that succeeded. -/
def plannerAt (events : List Event) (depth : ℕ) (v : VertexId) : Option AncestorPlanner :=
  match createdEvent events v, succeededAt events v with
  | some e, some seq => if e.body.isPlanner then some ⟨v, seq, depth⟩ else none
  | _, _ => none

/-- The parents of a vertex. -/
def parentRefsOf (events : List Event) (v : VertexId) : List VertexId :=
  ((createdEvent events v).map (·.parentRefs)).getD []

/-- What the search for ancestor planners has seen and found, and the next level. -/
structure AncestorSearch where
  seen : List VertexId
  found : List AncestorPlanner
  next : List VertexId

/-- One vertex of a level. -/
def AncestorSearch.visit (events : List Event) (depth : ℕ) (search : AncestorSearch)
    (v : VertexId) : AncestorSearch :=
  if v ∈ search.seen then search
  else
    { seen := v :: search.seen
      found := search.found ++ (plannerAt events depth v).toList
      next := search.next ++ parentRefsOf events v }

/-- The search, level by level. A level that is not the last has a vertex no earlier level
had. -/
def AncestorSearch.levels (events : List Event) : ℕ → ℕ → AncestorSearch → List AncestorPlanner
  | 0, _, search => search.found
  | fuel + 1, depth, search =>
    if search.next = [] then search.found
    else
      AncestorSearch.levels events fuel (depth + 1)
        (search.next.foldl (AncestorSearch.visit events depth) { search with next := [] })

/-- Nearest first, and of two planners at the same distance the later one. -/
def AncestorPlanner.before (first second : AncestorPlanner) : Prop :=
  first.depth < second.depth ∨ (first.depth = second.depth ∧ second.seq ≤ first.seq)

instance : DecidableRel AncestorPlanner.before := fun first second =>
  inferInstanceAs (Decidable (first.depth < second.depth ∨
    (first.depth = second.depth ∧ second.seq ≤ first.seq)))

/-- `ancestorPlanners`: the succeeded planners a vertex could resume at, nearest first. The
vertex itself is one of them at distance zero. -/
def ancestorPlanners (events : List Event) (v : VertexId) : List AncestorPlanner :=
  (AncestorSearch.levels events (events.length + 2) 1
    { seen := [v], found := (plannerAt events 0 v).toList,
      next := parentRefsOf events v }).insertionSort AncestorPlanner.before

/-- Whether every vertex a freeze created, the creations directly after it, succeeded. -/
def freezeResolved (events rest : List Event) : Bool :=
  let created := (rest.takeWhile fun e => e.body.isCreated).filterMap (·.vertexId)
  !created.isEmpty && created.all fun v => (succeededAt events v).isSome

/-- The sequence number of the last freeze that was resolved. -/
def lastResolved (events : List Event) : ℕ → List Event → ℕ
  | last, [] => last
  | last, e :: rest =>
    match e.body with
    | .subgraph (.frozen _) =>
      lastResolved events (if freezeResolved events rest then e.runSeq else last) rest
    | _ => lastResolved events last rest

/-- The boundary an event records. -/
def EventBody.boundary? : EventBody → Option BoundaryPayload
  | .replanBoundary payload => some payload
  | _ => none

/-- `replanHistory`, its first half: the replans the failure episode has used. -/
def replanEpisode (events : List Event) : ℕ :=
  (events.filter fun e =>
    e.body.boundary?.isSome && decide (lastResolved events 0 events < e.runSeq)).length

/-- `replanHistory`, its second half: how often a planner was the boundary. -/
def replansAt (events : List Event) (planner : VertexId) : ℕ :=
  (events.filter fun e => (e.body.boundary?.bind (·.selected)) == some planner).length

/-- The children of a vertex, in the order they were created, once for each reference. -/
def childrenOf (events : List Event) (v : VertexId) : List VertexId :=
  events.flatMap fun e =>
    if e.body.isCreated then
      e.vertexId.toList.flatMap fun child =>
        (e.parentRefs.filter fun parent => parent == v).map fun _ => child
    else []

/-- `causalDescendants`: every vertex causally downstream of one vertex. -/
def causalDescendants (events : List Event) (v : VertexId) : List VertexId :=
  Worklist.reached (childrenOf events) (events.length + 1) v

/-- The vertices the shadowings of a stream have hidden. -/
def hiddenVertices (events : List Event) : List VertexId :=
  events.flatMap fun e =>
    match e.body with
    | .subgraphShadowed vertexIds => vertexIds
    | _ => []

/-- The sequence number of the last creation of a vertex, zero for one never created. -/
def createdSeq (events : List Event) (v : VertexId) : ℕ :=
  ((createdEvent events v).map (·.runSeq)).getD 0

/-- `shadowSet`: the vertices a replan at this boundary discards, in the order they were
created. -/
def shadowSet (events : List Event) (boundary : VertexId) : List VertexId :=
  ((causalDescendants events boundary).filter fun v => v ∉ hiddenVertices events).insertionSort
    fun first second => createdSeq events first < createdSeq events second ∨
      (createdSeq events first = createdSeq events second ∧ first ≤ second)

/-! ### The decision -/

/-- What the ladder does about a failure now. -/
inductive RecoveryAction
  | record
  | request
  | wait
  deriving DecidableEq, Repr

/-- What the engine decided about one failure, before anything is appended. -/
structure BoundaryDecision where
  action : RecoveryAction := .record
  level : RecoveryLevel := .L4
  reason : String := ""
  failedVertexId : VertexId
  candidates : List BoundaryCandidate := []
  selected : Option VertexId := none
  selectedSeq : Option ℕ := none
  intended : Option VertexId := none
  shadowed : List VertexId := []
  requestScopes : List ScopeId := []
  awaitedScopes : List ScopeId := []
  cancelledScopes : List ScopeId := []
  cancelRequestSeq : Option ℕ
  episode : ℕ
  estimatedCost : Option (ℚ × String) := none
  deriving DecidableEq, Repr

/-- What a million of a model's tokens cost. -/
structure LlmPricing where
  cacheMissInputPerMillion : ℚ
  outputPerMillion : ℚ
  currency : String
  deriving DecidableEq, Repr

/-- The knobs of the ladder. -/
structure RecoveryPolicy where
  maxReplansPerPlanner : ℕ := 2
  maxReplansPerEpisode : ℕ := 2
  riskPremium : ℚ := 2
  pricing : LlmPricing
  budgetRemaining : Option ℚ := none
  deriving DecidableEq, Repr

/-- Everything one decision reads. -/
structure DecisionContext where
  events : List Event
  failedVertexId : VertexId
  policy : RecoveryPolicy
  locked : Option (List LockedScope)
  /-- The length of the prompt a planner would be handed. -/
  promptLength : List Event → VertexId → ℕ

/-- Whether an event is a failure of a vertex, or an unreadable answer of it. -/
def isFailureOf (v : VertexId) (e : Event) : Bool :=
  match e.body with
  | .vertexFailed _ => e.vertexId == some v
  | .subgraph (.unreadable planner) => planner == v
  | _ => false

/-- The scope the first creation of a vertex names. -/
def createdScope (events : List Event) (v : VertexId) : Option ScopeId :=
  (events.find? fun e => e.body.isCreated && e.vertexId == some v).bind (·.scopeId)

namespace DecisionContext

variable (context : DecisionContext)

/-- The scopes of the run. -/
def scopes : OrderedMap ScopeId FoldedScope :=
  scopeCancellations context.events

/-- `failureSeq`: the sequence number of the failure being answered. -/
def failedAt : ℕ :=
  context.events.foldl (fun seq e =>
    if isFailureOf context.failedVertexId e then e.runSeq else seq) 0

/-- `scopeOf`: the failure's own scope. -/
def ownScope : Option FoldedScope :=
  (createdScope context.events context.failedVertexId).bind context.scopes.get?

/-- `cancelRequestFor`: the last request made for the failure. -/
def cancelRequestSeq : Option ℕ :=
  context.events.foldl (fun seq e =>
    match e.body with
    | .replanCancelRequested payload =>
      if payload.failedVertexId = context.failedVertexId then some e.runSeq else seq
    | _ => seq) none

/-- `reportedCancellations`: the scopes some boundary has reported cancelled. -/
def reported : List ScopeId :=
  context.events.flatMap fun e => (e.body.boundary?.map (·.cancelledScopes)).getD []

/-- `touchedScopes`: the materialized scopes that hold a vertex a replan at this boundary
would discard. -/
def touchedScopes (boundary : VertexId) : List FoldedScope :=
  (context.scopes.values.filter fun scope =>
    scope.phase != .unmaterialized &&
      scope.members.any fun member => member ∈ shadowSet context.events boundary).insertionSort
    fun first second => first.firstMemberSeq < second.firstMemberSeq ∨
      (first.firstMemberSeq = second.firstMemberSeq ∧ first.scopeId ≤ second.scopeId)

/-- `unresolvedRequests`: the scopes requested for this failure whose cancellation has neither
completed nor suspended. -/
def unresolvedRequests : List ScopeId :=
  (context.scopes.values.filter fun scope =>
    scope.requestedFor == some context.failedVertexId &&
      (scope.phase == .cancelRequested || scope.phase == .cancelling)).map (·.scopeId)

/-- `runBlocks`: the scopes that refuse every freeze in the run until they settle. An expired
try is the orphan sweep's to cancel; only the locked rows can see the clock. -/
def runBlocks : List ScopeId :=
  (OrderedSet.ofList ((context.scopes.values.filter (·.phase.transient)).map (·.scopeId) ++
      ((context.locked.getD []).filter fun row =>
        row.state == .opened && row.hasExpiredTry).map (·.scopeId))).insertionSort (· ≤ ·)

/-- `cancelledFor`: the scopes cancelled for this failure since it happened, less those a
boundary already reported. -/
def cancelledFor (relevant : List ScopeId) : List ScopeId :=
  ((context.scopes.values.filter fun scope =>
    scope.phase == .cancelled && decide (context.failedAt < scope.cancelledSeq.getD 0) &&
      scope.scopeId ∉ context.reported &&
      (scope.requestedFor == some context.failedVertexId || scope.scopeId ∈ relevant)).map
    (·.scopeId)).insertionSort (· ≤ ·)

/-- `verdictFor`: whether an ancestor planner is a legal boundary, and what must be cancelled
first if it is. -/
def verdictFor (planner : AncestorPlanner) : Except RejectionReason (List ScopeId) :=
  -- The floor is absolute: no cancellation makes a boundary below it legal.
  if planner.seq < backtrackFloor context.events then .error .belowFloor
  else
    let touched := context.touchedScopes planner.vertexId
    if touched.any (·.phase.unrecoverable) then .error .openBracket
    else
      let cancel := touched.filter (·.phase.cancellable)
      let undone := touched.filter fun scope =>
        scope.phase == .cancelled && decide (context.failedAt < scope.cancelledSeq.getD 0)
      if (cancel ++ undone).any fun scope => decide (scope.firstMemberSeq < planner.seq) then
        .error .savepointPrecedes
      else if context.policy.maxReplansPerPlanner ≤
          replansAt context.events planner.vertexId then
        .error .failureCounterExhausted
      else .ok ((cancel.map (·.scopeId)).insertionSort (· ≤ ·))

/-- `CHARS_PER_TOKEN`. -/
def charsPerToken : ℕ := 4

/-- `TOKENS_PER_REGENERATED_VERTEX`. -/
def tokensPerRegeneratedVertex : ℕ := 120

/-- `price`: what resuming at a planner costs. Only a planner on the active surface has a
prompt to price. -/
def price (planner : AncestorPlanner) (requiresCancel : List ScopeId) :
    Except String BoundaryCandidate :=
  if (createdEvent context.events planner.vertexId).isSome ∧
      planner.vertexId ∉ hiddenVertices context.events then
    let contextTokens :=
      (context.promptLength context.events planner.vertexId + (charsPerToken - 1)) / charsPerToken
    let contextCost :=
      (contextTokens : ℚ) * context.policy.pricing.cacheMissInputPerMillion / 1000000
    let reworkCost := ((shadowSet context.events planner.vertexId).length *
      tokensPerRegeneratedVertex : ℕ) * context.policy.pricing.outputPerMillion / 1000000
    .ok
      { plannerVertexId := planner.vertexId
        plannerSeq := planner.seq
        cost := some (contextCost + reworkCost)
        currency := some context.policy.pricing.currency
        terms := some ⟨contextCost, reworkCost, context.policy.riskPremium⟩
        requiresCancel := requiresCancel }
  else .error s!"planner {planner.vertexId} is not active"

end DecisionContext

/-- The first eight characters of an identifier. -/
def shortId (id : ℕ) : String :=
  String.ofList ((toString id).toList.take 8)

/-- `abbreviate`: identifiers as a message lists them. -/
def abbreviate (ids : List ℕ) : String :=
  ", ".intercalate (ids.map shortId)

/-- `assertReadable`: a stream with an event of an unknown type is read only if the event may
be ignored. -/
def assertReadable (events : List Event) : Except String Unit :=
  match events.find? fun e => match e.body with
      | .unknown _ => !e.ignorable
      | _ => false with
  | some e => .error s!"unknown non-ignorable event in stream: {e.body.eventType}"
  | none => .ok ()

/-- The candidates considered so far, and the first of the cheapest with its distance. -/
structure Comparison where
  candidates : List BoundaryCandidate := []
  best : Option (BoundaryCandidate × ℕ) := none

namespace DecisionContext

variable (context : DecisionContext)

/-- The decision every other one is a variation of. -/
def base : BoundaryDecision where
  failedVertexId := context.failedVertexId
  cancelRequestSeq := context.cancelRequestSeq
  episode := replanEpisode context.events

/-- `terminal`: the end of the ladder for a failure no planner will answer. The failure's own
scope is asked to cancel first, and the escalation waits for every scope asked about. -/
def terminal (base : BoundaryDecision) (level : RecoveryLevel) (reason : String) :
    BoundaryDecision :=
  let own := context.ownScope.toList
  let undone := own.filter fun scope => scope.phase == .opened || scope.phase == .fenced
  let awaited := context.unresolvedRequests ++ (own.filter fun scope =>
    scope.phase == .cancelRequested || scope.phase == .cancelling ||
      scope.phase == .pivotInflight).map (·.scopeId)
  if undone ≠ [] then
    { base with
      action := .request
      level := .L3
      requestScopes := undone.map (·.scopeId)
      reason := s!"cancelling {abbreviate (undone.map (·.scopeId))} before escalating: {reason}" }
  else if awaited ≠ [] then
    let scopes := (OrderedSet.ofList awaited).insertionSort (· ≤ ·)
    { base with
      action := .wait
      level := level
      awaitedScopes := scopes
      reason := s!"waiting for {abbreviate scopes} to settle before escalating: {reason}" }
  else
    { base with
      action := .record
      level := level
      reason := reason
      cancelledScopes := context.cancelledFor (own.map (·.scopeId)) }

/-- Whether a price is above what is left of the budget. -/
def overBudget (priced : BoundaryCandidate) : Bool :=
  match context.policy.budgetRemaining with
  | none => false
  | some remaining => decide (remaining < priced.cost.getD 0)

/-- One ancestor planner of the comparison. -/
def consider (comparison : Comparison) (planner : AncestorPlanner) : Except String Comparison :=
  let reject := fun reason : RejectionReason =>
    { comparison with
      candidates := comparison.candidates ++
        [{ plannerVertexId := planner.vertexId, plannerSeq := planner.seq,
           rejected := some reason }] }
  match context.verdictFor planner with
  | .error reason => .ok (reject reason)
  | .ok requiresCancel =>
    match context.price planner requiresCancel with
    | .error message => .error message
    | .ok priced =>
      if context.overBudget priced then .ok (reject .budgetExceeded)
      else
        .ok
          { candidates := comparison.candidates ++ [priced]
            best :=
              match comparison.best with
              | none => some (priced, planner.depth)
              | some best =>
                if priced.cost.getD 0 < best.1.cost.getD 0 then
                  some (priced, planner.depth)
                else some best }

/-- The comparison of all ancestor planners, nearest first. -/
def compare : Except String Comparison :=
  (ancestorPlanners context.events context.failedVertexId).foldlM context.consider {}

/-- `nearestDepth`: the distance of the nearest ancestor planner, legal or not. -/
def nearestDepth : Option ℕ :=
  (ancestorPlanners context.events context.failedVertexId).head?.map (·.depth)

/-- A rejected candidate as the escalation's reason lists it. -/
def rejection (candidate : BoundaryCandidate) : String :=
  shortId candidate.plannerVertexId ++ " " ++
    ((candidate.rejected.map (·.name)).getD "undefined")

/-- The phase of a scope the fold knows. -/
def phase (scopeId : ScopeId) : ScopePhase :=
  ((context.scopes.get? scopeId).map (·.phase)).getD .unmaterialized

/-- The decision for a failure no ancestor planner can answer. -/
def noBoundary (candidates : List BoundaryCandidate) : BoundaryDecision :=
  let own := context.ownScope
  context.terminal { context.base with candidates := candidates }
    (if own.any fun scope => scope.phase == .cancelled || scope.phase.cancellable then .L3 else .L4)
    (if candidates.isEmpty then "the failed vertex has no ancestor planner"
      else "no ancestor planner is a legal replan boundary: " ++
        ", ".intercalate (candidates.map rejection))

/-- The decision once a boundary is chosen: the cancellations it needs are requested, then
awaited, then everything that refuses a freeze, and then the boundary is recorded. -/
def atBoundary (candidates : List BoundaryCandidate) (best : BoundaryCandidate) (depth : ℕ) :
    BoundaryDecision :=
  let boundary := best.plannerVertexId
  let required := best.requiresCancel
  let base := { context.base with
    candidates := candidates
    level := if context.nearestDepth = some depth then .L1 else .L2
    intended := some boundary }
  let toRequest := required.filter fun scopeId =>
    context.phase scopeId == .opened || context.phase scopeId == .fenced
  let inFlight :=
    (OrderedSet.ofList (required ++ context.unresolvedRequests)).insertionSort (· ≤ ·)
  let blocking := context.runBlocks
  if toRequest ≠ [] then
    { base with
      action := .request
      requestScopes := toRequest
      reason := s!"cancelling {abbreviate toRequest} before resuming at {shortId boundary} " ++
        "(03 §2.4 rule 1)" }
  else if inFlight ≠ [] then
    { base with
      action := .wait
      awaitedScopes := inFlight
      reason := s!"waiting for {abbreviate inFlight} to finish cancelling before resuming at " ++
        shortId boundary }
  else if blocking ≠ [] then
    { base with
      action := .wait
      awaitedScopes := blocking
      reason := s!"waiting for {abbreviate blocking} to settle: the run admits no freeze " ++
        "until it does" }
  else
    { base with
      action := .record
      reason := s!"resuming at the cheapest legal boundary of " ++
        toString (candidates.filter fun entry => entry.rejected.isNone).length
      selected := some boundary
      selectedSeq := some best.plannerSeq
      shadowed := shadowSet context.events boundary
      cancelledScopes :=
        context.cancelledFor ((context.touchedScopes boundary).map (·.scopeId))
      estimatedCost := best.cost.map fun cost => (cost, context.policy.pricing.currency) }

/-- The scopes a person has to release. -/
def suspendedScopes : List ScopeId :=
  (context.scopes.values.filter fun scope => scope.phase == .suspended).map (·.scopeId)

/-- The decision on what the log shows. -/
def decideOnLog : Except String BoundaryDecision :=
  let episode := replanEpisode context.events
  if ruleAuthored context.events context.failedVertexId then
    .ok (context.terminal context.base .L4
      ("a rule authored this work, and no planner has the authority to propose a replacement " ++
        "for it"))
  else if context.policy.maxReplansPerEpisode ≤ episode then
    .ok (context.terminal context.base .L3
      s!"this failure episode has already used {episode} replans, the protocol bound")
  else if context.suspendedScopes ≠ [] then
    .ok (context.terminal context.base .L4
      (s!"scope {abbreviate context.suspendedScopes} is suspended, so no replan in this run " ++
        "can be admitted"))
  else
    match assertReadable context.events with
    | .error message => .error message
    | .ok () =>
      match context.compare with
      | .error message => .error message
      | .ok comparison =>
        match comparison.best with
        | none => .ok (context.noBoundary comparison.candidates)
        | some (best, depth) => .ok (context.atBoundary comparison.candidates best depth)

end DecisionContext

/-- `selectBoundary`: chooses where to resume planning after a failure. A decision is not
taken on rows the log does not show yet. -/
def selectBoundary (context : DecisionContext) : Except String BoundaryDecision :=
  let disagree := disagreeingScopes context.scopes (context.locked.getD [])
  if disagree ≠ [] then
    .ok
      { context.base with
        action := .wait
        awaitedScopes := disagree
        reason := "the log does not yet show what the scope rows hold for " ++
          abbreviate disagree }
  else context.decideOnLog

/-! ### The events of a decision -/

/-- `replanEvents`: the boundary, and the discard it authorises. -/
def replanEvents (decision : BoundaryDecision) : List EventDraft :=
  { body := .replanBoundary
      { failedVertexId := decision.failedVertexId
        level := decision.level
        reason := decision.reason
        episode := decision.episode + 1
        candidates := decision.candidates
        selected := decision.selected
        cancelledScopes := decision.cancelledScopes
        cancelRequestSeq := decision.cancelRequestSeq
        boundarySeq := decision.selectedSeq
        estimatedCost := decision.estimatedCost }
    vertexId := decision.selected } ::
  if decision.selected.isSome then [{ body := .subgraphShadowed decision.shadowed }] else []

/-- `cancelRequestEvent`: the request of a request decision. -/
def cancelRequestEvent (decision : BoundaryDecision) : Except String EventDraft :=
  if decision.action ≠ .request ∨ decision.requestScopes = [] then
    .error "only a request decision appends a cancellation request"
  else
    .ok
      { body := .replanCancelRequested
          { failedVertexId := decision.failedVertexId
            scopeIds := decision.requestScopes.insertionSort (· ≤ ·)
            level := if decision.level = .L4 then .L3 else decision.level
            reason := decision.reason
            intendedBoundaryVertexId := decision.intended
            candidates := decision.candidates } }

/-- `decideRecovery`: one failure's decision and exactly what it appends. -/
def decideRecovery (context : DecisionContext) :
    Except String (BoundaryDecision × List EventDraft) :=
  match selectBoundary context with
  | .error message => .error message
  | .ok decision =>
    match decision.action with
    | .wait => .ok (decision, [])
    | .request =>
      match cancelRequestEvent decision with
      | .error message => .error message
      | .ok request => .ok (decision, [request])
    | .record => .ok (decision, replanEvents decision)

/-! ### The failures to answer -/

/-- The vertices that were discarded, or whose failure was escalated. -/
def answeredFailures (events : List Event) : List VertexId :=
  events.flatMap fun e =>
    match e.body with
    | .subgraphShadowed vertexIds => vertexIds
    | .replanBoundary payload => if payload.selected.isNone then [payload.failedVertexId] else []
    | _ => []

/-- Whether the last outcome recorded of a vertex is a failure. -/
def lastFailed (events : List Event) (v : VertexId) : Bool :=
  events.foldl (fun failed e =>
    if e.vertexId = some v then
      match e.body with
      | .vertexFailed _ => true
      | .vertexSucceeded _ => false
      | .vertexRetried _ _ => false
      | _ => failed
    else failed) false

/-- Whether an event records the failure of a vertex. -/
def EventBody.isFailed : EventBody → Bool
  | .vertexFailed _ => true
  | _ => false

/-- `unrecoveredFailures`: the failed vertices no replan has answered yet, in the order they
failed. -/
def unrecoveredFailures (events : List Event) : List VertexId :=
  (events.filter fun e => e.body.isFailed).filterMap fun e =>
    e.vertexId.filter fun v => v ∉ answeredFailures events && lastFailed events v

/-- The failures some boundary names. -/
def boundaryFailures (events : List Event) : List VertexId :=
  events.filterMap fun e => e.body.boundary?.map (·.failedVertexId)

/-- The planner whose answer an event records unreadable. -/
def EventBody.unreadable? : EventBody → Option VertexId
  | .subgraph (.unreadable planner) => some planner
  | _ => none

/-- Whether a vertex was created with this parent after a point of the stream. -/
def childAfter (events : List Event) (seq : ℕ) (parent : VertexId) : Bool :=
  events.any fun later =>
    decide (seq < later.runSeq) && later.body.isCreated && decide (parent ∈ later.parentRefs)

/-- One event of `stalledPlanners`: an unreadable answer stalls its planner. -/
def noteStall (events : List Event) (stalled : List VertexId) (e : Event) : List VertexId :=
  match e.body.unreadable? with
  | none => stalled
  | some planner =>
    if planner ∈ boundaryFailures events ∨ childAfter events e.runSeq planner then stalled
    else OrderedSet.add stalled planner

/-- `stalledPlanners`: the planners whose turn produced no work, and which no replan has
answered since. -/
def stalledPlanners (events : List Event) : List VertexId :=
  events.foldl (noteStall events) []

/-- `outstanding`: the failures first, then the stalls. -/
def outstanding (events : List Event) : List VertexId :=
  unrecoveredFailures events ++ stalledPlanners events

end Flory
