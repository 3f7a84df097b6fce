import Flory.Service
import Flory.Transition

/-!
# The System

Any number of Coordinator workers over one database, together with the Engine and the
clock. A `World` is the database and the program point of every worker; an `Action` is one
database transaction of a worker, the answer to one tool call, the start of a pass of a
worker's loop, the crash of a worker, one transaction of the Engine, or the passing of
time. Actions interleave without restriction, so a worker can crash between any two
transactions, a lease can expire at any moment, and a response can arrive arbitrarily late.

The Engine is represented by the transactions it may commit. A freeze carries what the
submission path guarantees of the vertices it compiles (`FrozenVertex`, `freezable`), and
its other appends are those of its planner, router, read and recovery code
(`engineDraft`), subject to the triggers.
-/

namespace Flory

variable {cfg : Config}

/-! ### The Engine's transactions -/

/-- Whether the companions a transaction mode needs are declared: compensation for a saga,
confirm, cancel and a positive timeout for a try-confirm-cancel. -/
def TransactionSpec.declaresCompanions (txn : TransactionSpec) : Bool :=
  match txn.mode with
  | .plain => true
  | .saga => txn.compensateTool != ""
  | .tcc => txn.confirmTool != "" && txn.cancelTool != "" && decide (0 < txn.tryTimeoutS)

/-- Whether a vertex payload declares the companions its mode needs. -/
def VertexPayload.declaresCompanions : VertexPayload → Bool
  | .tool payload => payload.txn.declaresCompanions
  | _ => true

/-- A vertex as the Engine freezes it. Registry validation (R4, R6) is part of every
accepted submission, so a try without its companions is never frozen. -/
structure FrozenVertex where
  vertexId : VertexId
  parentRefs : List VertexId
  scopeId : Option ScopeId
  payload : VertexPayload
  companions : payload.declaresCompanions = true

/-- The `vertex/created` draft of a frozen vertex. -/
def FrozenVertex.draft (v : FrozenVertex) : EventDraft where
  body := .vertexCreated v.payload
  vertexId := some v.vertexId
  parentRefs := v.parentRefs
  scopeId := v.scopeId

/-- Whether some run already has a vertex of this id. -/
def vertexKnown (db : Db) (v : VertexId) : Bool :=
  db.log.any fun e => e.body.isCreated && e.vertexId == some v

/-- Whether some vertex or scope row already uses a scope id. -/
def scopeKnown (db : Db) (s : ScopeId) : Bool :=
  (db.scopes.lookup s).isSome || db.log.any fun e => e.scopeId == some s

/-- The vertices of a freeze, in order: every parent is a vertex of the run or one frozen
before. -/
def parentsKnown (db : Db) (runId : RunId) : List VertexId → List FrozenVertex → Bool
  | _, [] => true
  | earlier, v :: rest =>
    v.parentRefs.all (fun p => earlier.contains p || !(db.createdOf runId p).isEmpty) &&
      parentsKnown db runId (v.vertexId :: earlier) rest

/-- What the submission path guarantees of a freeze: fresh and distinct vertex ids, fresh
scope ids, and parents before their children. -/
def freezable (db : Db) (runId : RunId) (vertices : List FrozenVertex) : Bool :=
  decide (vertices.map FrozenVertex.vertexId).Nodup &&
    vertices.all (fun v => !vertexKnown db v.vertexId &&
      v.scopeId.all fun s => !scopeKnown db s) &&
    parentsKnown db runId [] vertices

/-- What the freeze of the proposal at a sequence number appends. -/
def freezeDrafts (vertices : List FrozenVertex) (proposedSeq : ℕ := 0) : List EventDraft :=
  { body := .subgraph (.frozen proposedSeq) } :: vertices.map FrozenVertex.draft

/-- The drafts of the Engine's other appends: the life cycle of the vertices it executes
itself, which name no scope, its planning and recovery events, and its charges, which name
their planner. -/
def engineDraft (draft : EventDraft) : Bool :=
  !draft.ignorable &&
    match draft.body with
    | .vertexStarted _ | .vertexSucceeded _ | .vertexFailed _ => draft.scopeId.isNone
    | .budgetCharged => draft.vertexId.isSome
    | .runStart | .runEnd | .replanBoundary _ | .replanCancelRequested _ => draft.scopeId.isNone
    | .subgraph _ | .subgraphShadowed _ => draft.scopeId.isNone
    | _ => false

/-- `create_run`. -/
def createRun (db : Db) (runId : RunId) : Except DbError Db :=
  if (db.runs.lookup runId).isSome then .error (.uniqueViolation "run_pkey")
  else .ok { db with runs := db.runs.insert runId {} }

/-! ### Worlds and actions -/

/-- The database and where every Coordinator worker stands. -/
structure World where
  db : Db
  workers : WorkerId → Pc

/-- The empty database, with every worker idle. -/
def World.initial : World where
  db := {}
  workers := fun _ => .idle

/-- The world after a worker moved. -/
def World.move (world : World) (w : WorkerId) (next : Db × Pc) : World where
  db := next.1
  workers := Function.update world.workers w next.2

/-- One step of the system. -/
inductive Action
  | poll (w : WorkerId)
  | sweep (w : WorkerId) (order : List (RunId × ScopeId))
  | advance (w : WorkerId)
  | answer (w : WorkerId) (response : Option OperationResponse)
  | crash (w : WorkerId)
  | tick (ms : ℕ)
  | createRun (runId : RunId)
  | freeze (runId : RunId) (vertices : List FrozenVertex) (proposedSeq : ℕ := 0)
  | engineAppend (runId : RunId) (drafts : List EventDraft)
  | claimRead (reader : WorkerId) (leaseMs : ℕ)
  | completeRead (reader : WorkerId) (v : VertexId)
  | releaseRead (reader : WorkerId) (v : VertexId) (delayMs : ℕ)

/-- A statement of the Engine: its database, when it is not refused. -/
def World.commit (world : World) (result : Except DbError Db) : Option World :=
  match result with
  | .ok db => some { world with db := db }
  | .error _ => none

/-- The state of the world after an action, when the action is enabled. -/
def step (cfg : Config) (world : World) : Action → Option World
  | .poll w =>
    match world.workers w with
    | .idle => some (world.move w (world.db, .requests (pendingCancelRequests world.db)))
    | _ => none
  | .sweep w order =>
    match world.workers w with
    | .idle =>
      if order.Perm (expiredScopes world.db) then some (world.move w (world.db, .expired order))
      else none
    | _ => none
  | .advance w => (advance cfg w world.db (world.workers w)).map (world.move w)
  | .answer w response =>
    match world.workers w, response with
    | .calling site attempt attemptId, some response =>
      some (world.move w (world.db, answered world.db.now site attempt attemptId response))
    | .calling site _ _, none => some (world.move w (world.db, site.failed))
    | _, _ => none
  | .crash w => some (world.move w (world.db, .idle))
  | .tick ms => some { world with db := { world.db with now := world.db.now + ms } }
  | .createRun runId => world.commit (createRun world.db runId)
  | .freeze runId vertices proposedSeq =>
    if freezable world.db runId vertices then
      world.commit (appendEvents engine runId (freezeDrafts vertices proposedSeq) world.db)
    else none
  | .engineAppend runId drafts =>
    if drafts.all engineDraft then
      world.commit (appendEvents engine runId drafts world.db)
    else none
  | .claimRead reader leaseMs =>
    (claimReadyRead world.db reader leaseMs).map fun claimed => { world with db := claimed.2 }
  | .completeRead reader v => world.commit (completeRead world.db reader v)
  | .releaseRead reader v delayMs =>
    some { world with db := releaseRead world.db reader v delayMs }

/-- A world some run of the system reaches. -/
def Reachable (cfg : Config) (world : World) : Prop :=
  Transition.Reachable (step cfg) Transition.anyStep World.initial world

/-- A world reached by a run whose steps all meet a condition on the world before them. -/
def ReachableUnder (cfg : Config) (allowed : World → Action → Prop) (world : World) : Prop :=
  Transition.Reachable (step cfg) allowed World.initial world

/-! ### Scripts

The pieces concrete runs are written with. -/

/-- The world after a script, and the same world when some action is not enabled. -/
def World.play (cfg : Config) (world : World) (script : List Action) : World :=
  (Transition.run (step cfg) world script).getD world

/-- The world after a script that starts with the empty database. -/
def World.after (cfg : Config) (script : List Action) : World :=
  World.initial.play cfg script

variable {script : List Action}

/-- A script that runs is a run. -/
theorem reachable_play {world : World}
    (h : (Transition.run (step cfg) world script).isSome = true) :
    Transition.Reachable (step cfg) Transition.anyStep world (world.play cfg script) :=
  Transition.reachable_getD h

/-- From the beginning, it reaches its last world. -/
theorem reachable_after (h : (Transition.run (step cfg) World.initial script).isSome = true) :
    Reachable cfg (World.after cfg script) :=
  reachable_play h

/-- The world after a script whose actions all pass a test, and the same world when some action
does not or is not enabled. -/
def World.playUnder (cfg : Config) (test : World → Action → Bool) (world : World)
    (script : List Action) : World :=
  (Transition.run (Transition.guarded test (step cfg)) world script).getD world

/-- A script whose actions are all enabled and pass a test reaches its last world under it. -/
theorem reachable_playUnder {test : World → Action → Bool} {world : World}
    (h : (Transition.run (Transition.guarded test (step cfg)) world script).isSome = true) :
    Transition.Reachable (step cfg) (fun world a => test world a = true) world
      (world.playUnder cfg test script) := by
  obtain ⟨_, hlast⟩ := Option.isSome_iff_exists.mp h
  rw [World.playUnder, hlast, Option.getD_some]
  exact Transition.reachable_of_guarded_run hlast

/-- The world after a script whose actions all pass a test. -/
def World.afterUnder (cfg : Config) (test : World → Action → Bool) (script : List Action) : World :=
  World.initial.playUnder cfg test script

/-- A script from the empty database whose actions are all enabled and pass a test. -/
theorem reachable_afterUnder {test : World → Action → Bool}
    (h : (Transition.run (Transition.guarded test (step cfg)) World.initial script).isSome = true) :
    ReachableUnder cfg (fun world a => test world a = true) (World.afterUnder cfg test script) :=
  reachable_playUnder h

/-- The transaction half of a try-confirm-cancel call. -/
def tccSpec (key : String) : TransactionSpec where
  effectClass := .reversible
  mode := .tcc
  idempotencyKey := key
  tryTimeoutS := 60
  confirmTool := "confirm"
  cancelTool := "release"

/-- The transaction half of an irreversible call. -/
def pivotSpec (key : String) : TransactionSpec where
  effectClass := .irreversible
  mode := .plain
  idempotencyKey := key

/-- A vertex that calls a try-confirm-cancel tool. -/
def tccVertex (v : VertexId) (parents : List VertexId) (s : ScopeId) (key : String) :
    FrozenVertex where
  vertexId := v
  parentRefs := parents
  scopeId := some s
  payload := .tool { tool := "reserve", txn := tccSpec key }
  companions := rfl

/-- A vertex that calls an irreversible tool, the pivot of its scope. -/
def pivotVertex (v : VertexId) (parents : List VertexId) (s : ScopeId) (key : String) :
    FrozenVertex where
  vertexId := v
  parentRefs := parents
  scopeId := some s
  payload := .tool { tool := "pay", txn := pivotSpec key }
  companions := rfl

/-- The next transactions of a worker. -/
def drive (w : WorkerId) (n : ℕ) : List Action :=
  List.replicate n (.advance w)

/-- The answer to a worker's tool call. -/
def reply (w : WorkerId) (outcome : OperationOutcome) : Action :=
  .answer w (some { outcome := outcome })

/-- A worker claims the next item and calls its tool, in a scope whose row exists or not. -/
def callNext (w : WorkerId) : List Action :=
  .poll w :: drive w 6

/-- The Engine requests the cancellation of a scope, after the failure of a vertex. -/
def requestCancel (runId : RunId) (s : ScopeId) (failed : VertexId := 0) : Action :=
  .engineAppend runId [{ body := .replanCancelRequested ⟨failed, [s], .L3, "", none, []⟩ }]

end Flory
