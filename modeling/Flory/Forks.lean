import Flory.System

/-!
# Counterfactual Runs and the Business Plane

A fork is a run with a seed floor: it inherits copies of a source run's events under their
own sequence numbers, at or below the floor, and numbers its own events above it. The
business plane orders the facts of one entity across runs in a stream, each fact stamped
with the event that caused it; a fork may write streams of the fork namespace only.

Which events of the source a fork inherits is decided from its pinned substitutions; here
that choice is the argument `inherits` of `fork`.
-/

namespace Flory

open Except (error ok)

/-! ### Forks -/

/-- `create_fork_run`: a run that starts numbering above its evaluation boundary. -/
def createForkRun (db : Db) (runId : RunId) (evalUpToSeq : ℕ) : Except DbError Db :=
  if evalUpToSeq < 1 then
    error (.raised "fork run requires a positive evaluation boundary")
  else if (db.runs.lookup runId).isSome then error (.uniqueViolation "run_pkey")
  else
    let row : RunRow := { nextSeq := evalUpToSeq + 1, seedFloor := some evalUpToSeq }
    ok { db with runs := db.runs.insert runId row }

/-- An event to be copied into a fork, with the sequence number it keeps. -/
structure InheritedCopy extends EventDraft where
  runSeq : ℕ

/-- The session in which inherited history is reproduced. -/
def inheriting : Session :=
  ⟨.engineRole, true⟩

/-- Whether a run already has a row at a sequence number. -/
def seqTaken (db : Db) (runId : RunId) (seq : ℕ) : Bool :=
  db.log.any fun e => e.runId == runId && e.runSeq == seq

/-- One turn of `copy_inherited_events`: within the floor, at a free position, and marked
as inherited. -/
def copyOne (runId : RunId) (floor : ℕ) (db : Db) (copy : InheritedCopy) : Except DbError Db :=
  if copy.runSeq < 1 ∨ floor < copy.runSeq then
    error (.raised ("inherited run_seq " ++ toString copy.runSeq ++
      " must lie within the seed floor " ++ toString floor))
  else do
    let e := copy.toEventDraft.at runId copy.runSeq true
    checkNoCancelAfterPivot inheriting db e
    checkEventOwnership inheriting db e
    if seqTaken db runId copy.runSeq then error (.uniqueViolation "run_event_log_pkey")
    else afterInsert inheriting { db with log := db.log ++ [e] } e

/-- `copy_inherited_events`: a non-empty batch of copies into a fork. -/
def copyInheritedEvents (runId : RunId) (copies : List InheritedCopy) (db : Db) :
    Except DbError Db :=
  match copies with
  | [] => error (.raised "copy_inherited_events requires a non-empty event array")
  | _ =>
    match db.runs.lookup runId with
    | none => error (.raised ("run " ++ toString runId ++ " does not exist"))
    | some row =>
      match row.seedFloor with
      | none => error (.raised ("run " ++ toString runId ++
          " is not a fork; inherited copies require a seed floor"))
      | some floor => copies.foldlM (copyOne runId floor) db

/-- `lock_fork_source`: the last position of the source run. -/
def lockForkSource (db : Db) (runId : RunId) : Except DbError ℕ :=
  match db.runs.lookup runId with
  | none => error (.raised ("source run " ++ toString runId ++ " does not exist"))
  | some row => ok (row.nextSeq - 1)

/-- `toInheritedCopy`. -/
def Event.toInheritedCopy (e : Event) : InheritedCopy :=
  { e.toEventDraft with runSeq := e.runSeq }

/-- What a fork request names. -/
structure ForkRequest where
  sourceRunId : RunId
  atVertexId : VertexId
  evalUpToSeq : ℕ

/-- `computeForkSlice`: the events of the source window a fork inherits, in order. -/
def computeForkSlice (source : List Event) (request : ForkRequest) (inherits : Event → Bool) :
    Except DbError (List Event) :=
  let window := source.filter fun e => decide (e.runSeq ≤ request.evalUpToSeq)
  if window.any fun e => e.body.isCreated && e.vertexId == some request.atVertexId then
    ok (window.filter inherits)
  else
    error (.raised ("divergence vertex " ++ toString request.atVertexId ++
      " is not created within eval_up_to_seq " ++ toString request.evalUpToSeq))

/-- `copyInheritedWith`: copying nothing is not a call. -/
def copyInheritedWith (runId : RunId) (copies : List InheritedCopy) (db : Db) :
    Except DbError Db :=
  match copies with
  | [] => ok db
  | _ => copyInheritedEvents runId copies db

/-- `fork`: one transaction that creates the child run, records the fork in the source,
copies what the child inherits, and ends the child's seed. -/
def fork (db : Db) (request : ForkRequest) (childRunId : RunId) (inherits : Event → Bool) :
    Except DbError Db := do
  let tailEnd ← lockForkSource db request.sourceRunId
  if request.evalUpToSeq < 1 ∨ tailEnd < request.evalUpToSeq then
    error (.raised "eval_up_to_seq must name a recorded source position")
  else
    let inherited ← computeForkSlice (readStream db request.sourceRunId) request inherits
    let db ← createForkRun db childRunId request.evalUpToSeq
    let db ← appendEvents engine request.sourceRunId [{ body := .forkCreated }] db
    let db ← copyInheritedWith childRunId (inherited.map Event.toInheritedCopy) db
    appendEvents engine childRunId [{ body := .runEndSeed }] db

/-- One step of the system in which runs are also forked. -/
inductive ForkAction
  | live (action : Action)
  | fork (request : ForkRequest) (childRunId : RunId) (inherits : Event → Bool)

/-- The state of the world after such an action, when it is enabled. -/
def forkStep (cfg : Config) (world : World) : ForkAction → Option World
  | .live action => step cfg world action
  | .fork request childRunId inherits => world.commit (fork world.db request childRunId inherits)

/-- The world after a script with forks, and the empty one when some action is not enabled. -/
def World.afterForks (cfg : Config) (script : List ForkAction) : World :=
  (Transition.run (forkStep cfg) World.initial script).getD World.initial

/-! ### The business plane -/

/-- A row of `stream`. -/
structure StreamRow where
  nextSeq : ℕ := 1
  deriving DecidableEq, Repr

/-- A fact before it has a position. -/
structure BusinessFactDraft where
  eventType : String
  payload : Json := .obj []

/-- A row of `business_event_stream`. -/
structure BusinessEvent where
  streamId : String
  streamSeq : ℕ
  runId : Option RunId := none
  runSeq : Option ℕ := none
  eventType : String
  isCounterfactual : Bool := false
  payload : Json := .obj []

/-- Both planes. -/
structure Store where
  db : Db := {}
  streams : Table String StreamRow := ∅
  facts : List BusinessEvent := []

/-- Whether a stream id starts with a namespace. -/
def inNamespace (namespaceId streamId : String) : Bool :=
  namespaceId.toList.isPrefixOf streamId.toList

/-- The namespace of counterfactual streams. -/
def isForkStream (streamId : String) : Bool :=
  inNamespace "fork:" streamId

/-- The namespace of configuration streams. -/
def isConfigStream (streamId : String) : Bool :=
  inNamespace "config:" streamId

/-- The store with a stream that is there from now on; one already there is kept. -/
def Store.ensureStream (store : Store) (streamId : String) : Store :=
  { store with streams := store.streams.insertNew streamId {} }

/-- `create_stream`. -/
def createStream (store : Store) (streamId : String) : Except DbError Store :=
  if streamId = "" then error (.raised "stream id must be non-empty")
  else ok (store.ensureStream streamId)

/-- `check_business_event_ownership`. -/
def checkBusinessEventOwnership (user : SessionUser) (fact : BusinessEvent) :
    Except DbError Unit :=
  if isConfigStream fact.streamId then
    if fact.eventType ≠ "rule_template/published" then
      error (.raised ("the configuration stream carries only rule_template/published, not " ++
        fact.eventType))
    else if user ≠ .engineRole then
      error (.raised "only engine_role may publish to the configuration stream")
    else ok ()
  else if fact.eventType = "rule_template/published" then
    error (.raised ("rule_template/published belongs to the configuration stream, not " ++
      fact.streamId))
  else ok ()

/-- One insertion into `business_event_stream`: a configuration row has no run, every other
row has one. -/
def insertFact (user : SessionUser) (store : Store) (fact : BusinessEvent) :
    Except DbError Store := do
  checkBusinessEventOwnership user fact
  if isConfigStream fact.streamId = (fact.runId.isNone && fact.runSeq.isNone) then
    ok { store with facts := store.facts ++ [fact] }
  else error (.checkViolation "business_event_stream_provenance_chk")

/-- The allocation of a stream position from the stream's counter. -/
def allocateStreamSeq (store : Store) (streamId : String) : Except DbError (ℕ × Store) :=
  match store.streams.lookup streamId with
  | none => error (.notNullViolation "business_event_stream.stream_seq")
  | some row => ok (row.nextSeq,
      { store with streams := store.streams.insert streamId { nextSeq := row.nextSeq + 1 } })

/-- One turn of `append_domain_events`. -/
def appendFact (user : SessionUser) (runId : RunId) (causedBy : ℕ) (forkRun : Bool)
    (streamId : String) (store : Store) (fact : BusinessFactDraft) : Except DbError Store :=
  if fact.eventType = "" then error (.raised "every business fact requires an event_type")
  else do
    let (allocated, store) ← allocateStreamSeq store streamId
    insertFact user store
      { streamId := streamId, streamSeq := allocated, runId := some runId
        runSeq := some causedBy, eventType := fact.eventType, isCounterfactual := forkRun
        payload := fact.payload }

/-- `append_domain_events`: one event and the facts it caused. Whether the facts are
counterfactual is read off the run, and decides the namespace. -/
def appendDomainEvents (user : SessionUser) (store : Store) (runId : RunId) (streamId : String)
    (event : EventDraft) (facts : List BusinessFactDraft) : Except DbError Store :=
  if streamId = "" then error (.raised "append_domain_events requires a stream id")
  else if facts.isEmpty then error (.raised ("append_domain_events requires at least one " ++
    "business fact; use append_events for orchestration-only appends"))
  else
    match store.db.runs.lookup runId with
    | none => error (.raised ("run " ++ toString runId ++ " does not exist"))
    | some run =>
      let forkRun := run.seedFloor.isSome
      if forkRun ∧ isForkStream streamId = false then
        error (.raised ("fork run " ++ toString runId ++
          " may only write a fork: stream, not " ++ streamId))
      else if forkRun = false ∧ isForkStream streamId then
        error (.raised "only a fork run may write the fork: namespace")
      else do
        let db ← appendEvents ⟨user, false⟩ runId [event] store.db
        facts.foldlM (appendFact user runId run.nextSeq forkRun streamId)
          ({ store with db := db }.ensureStream streamId)

/-- `append_config_event`. -/
def appendConfigEvent (store : Store) (streamId eventType : String) (payload : Json) :
    Except DbError Store :=
  if isConfigStream streamId = false then
    error (.raised ("append_config_event requires a config: stream, not " ++ streamId))
  else do
    let (allocated, store) ← allocateStreamSeq (store.ensureStream streamId) streamId
    insertFact .engineRole store
      { streamId := streamId, streamSeq := allocated, eventType := eventType
        payload := payload }

/-! ### A planner -/

/-- A planner with nothing before it, the vertex a forked run starts from. -/
def plannerVertex (v : VertexId) : FrozenVertex where
  vertexId := v
  parentRefs := []
  scopeId := none
  payload := .planner
  companions := rfl

end Flory
