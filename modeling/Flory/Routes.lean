import Flory.Table
import Flory.Transition
import Mathlib.Data.List.Rotate
import Mathlib.Data.List.Sort

/-!
# Routes and Health Probes

`route.Table` holds the running instances of every route, and `Pick` hands out the next of those
whose lease is live, whose last gateway probe passed and who report that they serve. A probe is
a network call: `ProbeInstance` and `ProbeOnce` read the target first, call it without holding
the table's lock, and record the outcome under the instance's id afterwards. The state therefore
carries the probes under way beside the table, and a history of the targets set and of the
outcomes of the calls, in the order of their happening.

Every method holds the lock of the table for its whole body and is one step. A probe takes two
steps after it has begun: `check` is the return of the call, with the outcome the network gives
it, and `record` is `SetProbed`. `ProbeOnce` calls its targets one after the other, as they were
when it began. Its `OnChange` asks the registry to resolve again, which only reads the table.

Registration is `upsert` followed by `probeInstance` of the same instance and target.

## Main results

* `Truthful.step`: what relates the table, the probes under way and the history is kept by every
  orderly step.
* `pick_confirmed`: in an orderly run an attempt goes to a target that passed a probe since it
  was set and that failed none after.
* `rounds_fair`: while the usable instances of a route stay the same, attempts go to each in turn.
-/

namespace Flory

open Except (error ok)

variable {instanceId id : String} {healthy : Bool} {routeId target : String}

/-! ### The instance table -/

/-- `gatewayv1.ServingStatus`. -/
inductive ServingStatus
  | unspecified
  | serving
  | notServing
  deriving DecidableEq, Repr

/-- `gatewayv1.InstanceInfo`: an instance as it registers. -/
structure InstanceInfo where
  instanceId : String
  routeId : String
  target : String
  leaseTtlMs : ℕ := 0
  deriving DecidableEq, Repr

/-- `Instance`: one running tool-service process. Times are in milliseconds. -/
structure Instance where
  instanceId : String
  routeId : String
  target : String
  leaseExpiry : ℤ
  probed : Bool
  reported : ServingStatus
  deriving DecidableEq, Repr

/-- `Table`: the instances of every route, and where each route's round stands. -/
structure RouteTable where
  instances : Table String Instance := ∅
  cursor : Table String ℕ := ∅

/-- `DefaultLeaseTTL`, thirty seconds. -/
def defaultLeaseTtl : ℤ :=
  30000

/-- The time for which a lease is granted. -/
def leaseTtl (ttl : ℤ) : ℤ :=
  if ttl ≤ 0 then defaultLeaseTtl else ttl

/-- `reportedStatus`: no report, or one that says nothing, counts as not serving. -/
def reportedStatus : Option ServingStatus → ServingStatus
  | none => .notServing
  | some .unspecified => .notServing
  | some status => status

/-- Where attempts for an instance go: its id, its route and its target. -/
def Instance.endpoint (inst : Instance) : String × String × String :=
  (inst.instanceId, inst.routeId, inst.target)

namespace RouteTable

/-- The row `Upsert` writes. A new instance starts unprobed; a known one keeps the flag it has. -/
def upserted (table : RouteTable) (now : ℤ) (info : InstanceInfo)
    (report : Option ServingStatus) : Instance where
  instanceId := info.instanceId
  routeId := info.routeId
  target := info.target
  leaseExpiry := now + leaseTtl info.leaseTtlMs
  probed := ((table.instances.lookup info.instanceId).map Instance.probed).getD false
  reported := reportedStatus report

/-- `Upsert`. -/
def upsert (table : RouteTable) (now : ℤ) (info : InstanceInfo) (report : Option ServingStatus) :
    Except String RouteTable :=
  if info.instanceId = "" ∨ info.routeId = "" ∨ info.target = "" then
    error "route: instance_id, route_id, and target are all required"
  else
    ok { table with
      instances := table.instances.insert info.instanceId (table.upserted now info report) }

/-- `Heartbeat`: the lease of a known instance is refreshed; whether it was known. -/
def heartbeat (table : RouteTable) (now : ℤ) (instanceId : String)
    (report : Option ServingStatus) (ttl : ℤ) : RouteTable × Bool :=
  match table.instances.lookup instanceId with
  | none => (table, false)
  | some existing =>
    ({ table with
        instances := table.instances.insert instanceId
          { existing with
            leaseExpiry := now + leaseTtl ttl
            reported := reportedStatus report } }, true)

/-- `Remove`. -/
def remove (table : RouteTable) (instanceId : String) : RouteTable :=
  { table with instances := table.instances.filterRows fun id _ => id ≠ instanceId }

/-- `SetProbed`: the outcome of a probe, if the instance is still known. -/
def setProbed (table : RouteTable) (instanceId : String) (healthy : Bool) : RouteTable :=
  match table.instances.lookup instanceId with
  | none => table
  | some existing =>
    { table with
      instances := table.instances.insert instanceId { existing with probed := healthy } }

/-- The instances meeting a test, sorted by id. -/
def sorted (table : RouteTable) (test : Instance → Bool) : List Instance :=
  ((table.instances.rowsWhere fun _ inst => test inst).map Prod.snd).insertionSort
    fun first second => first.instanceId ≤ second.instanceId

/-- `Targets`: what a prober checks, live lease or not. -/
def targets (table : RouteTable) : List Instance :=
  table.sorted fun _ => true

/-- `routableLocked`: the usable instances of a route. -/
def routableLocked (table : RouteTable) (now : ℤ) (routeId : String) : List Instance :=
  table.sorted fun inst =>
    inst.routeId = routeId && decide (now < inst.leaseExpiry) && inst.probed &&
      inst.reported = .serving

/-- `Routable`. -/
def routable (table : RouteTable) (now : ℤ) (routeId : String) : Bool :=
  !(table.routableLocked now routeId).isEmpty

/-- `Pick`: the next usable instance of a route, round by round. -/
def pick (table : RouteTable) (now : ℤ) (routeId : String) :
    Except String (Instance × RouteTable) :=
  match table.routableLocked now routeId with
  | [] => error ("route " ++ routeId ++ " has no healthy instance")
  | first :: rest =>
    let candidates := first :: rest
    let cursor := (table.cursor.lookup routeId).getD 0
    ok (candidates.getD (cursor % candidates.length) first,
      { table with cursor := table.cursor.insert routeId ((cursor + 1) % candidates.length) })

end RouteTable

/-! ### Probes under way -/

/-- A call of `ProbeInstance` or `ProbeOnce`: the instances it has still to probe, each with the
target it read, and the outcome of the first one's check once that has returned. -/
structure Probing where
  pending : List (String × String)
  checked : Option Bool := none
  deriving DecidableEq, Repr

/-- What the history of the gateway remembers. -/
inductive RouteEvent
  | set (instanceId routeId target : String)
  | checked (instanceId target : String) (healthy : Bool)
  deriving DecidableEq, Repr

/-- The gateway's side of routing. -/
structure Routing where
  table : RouteTable := {}
  now : ℤ
  probings : List Probing := []
  history : List RouteEvent := []

/-- What can happen: a call of a method of the table or the prober, the return of a check or its
recording by the probe that made it, or the passing of time. -/
inductive RouteAction
  | upsert (info : InstanceInfo) (report : Option ServingStatus)
  | heartbeat (instanceId : String) (report : Option ServingStatus) (ttl : ℤ)
  | remove (instanceId : String)
  | probeInstance (instanceId target : String)
  | probeOnce
  | check (handle : ℕ) (healthy : Bool)
  | record (handle : ℕ)
  | pick (routeId : String)
  | advance (elapsed : ℕ)
  deriving DecidableEq, Repr

namespace Routing

/-- The state after a method of the table has returned. -/
def afterUpsert (s : Routing) (info : InstanceInfo) (report : Option ServingStatus) : Routing :=
  match s.table.upsert s.now info report with
  | error _ => s
  | ok table =>
    { s with
      table := table
      history := s.history ++ [.set info.instanceId info.routeId info.target] }

/-- One step. A `check` or `record` of a probe that is not at that point does not exist. -/
def step (s : Routing) : RouteAction → Option Routing
  | .upsert info report => some (s.afterUpsert info report)
  | .heartbeat instanceId report ttl =>
    some { s with table := (s.table.heartbeat s.now instanceId report ttl).1 }
  | .remove instanceId => some { s with table := s.table.remove instanceId }
  | .probeInstance instanceId target =>
    some { s with probings := s.probings ++ [⟨[(instanceId, target)], none⟩] }
  | .probeOnce =>
    let read := s.table.targets.map fun inst => (inst.instanceId, inst.target)
    some { s with probings := s.probings ++ [⟨read, none⟩] }
  | .check handle healthy =>
    match s.probings[handle]? with
    | some ⟨(instanceId, target) :: rest, none⟩ =>
      some { s with
        probings := s.probings.set handle ⟨(instanceId, target) :: rest, some healthy⟩
        history := s.history ++ [.checked instanceId target healthy] }
    | _ => none
  | .record handle =>
    match s.probings[handle]? with
    | some ⟨(instanceId, _) :: rest, some healthy⟩ =>
      some { s with
        table := s.table.setProbed instanceId healthy
        probings := s.probings.set handle ⟨rest, none⟩ }
    | _ => none
  | .pick routeId =>
    match s.table.pick s.now routeId with
    | error _ => some s
    | ok (_, table) => some { s with table := table }
  | .advance elapsed => some { s with now := s.now + elapsed }

end Routing

/-- States of the gateway reached from an empty table by steps that meet a condition. -/
def RoutingReachable (allowed : Routing → RouteAction → Prop) (s : Routing) : Prop :=
  ∃ start, Transition.Reachable Routing.step allowed { now := start } s

/-! ### Rows of the table -/

variable {inst : Instance}

namespace RouteTable

variable {table : RouteTable} {now : ℤ} {report : Option ServingStatus} {table' : RouteTable}

/-- An accepted `Upsert` writes its own row and no other. -/
theorem lookup_upsert {info : InstanceInfo}
    (h : table.upsert now info report = ok table') (id : String) :
    table'.instances.lookup id =
      if id = info.instanceId then some (table.upserted now info report)
      else table.instances.lookup id := by
  unfold upsert at h
  split at h
  · cases h
  · cases h
    exact Table.lookup_insert_eq

/-- A heartbeat leaves every instance its endpoint and its probe. -/
theorem lookup_heartbeat {ttl : ℤ}
    (h : (table.heartbeat now instanceId report ttl).1.instances.lookup id = some inst) :
    ∃ old, table.instances.lookup id = some old ∧ inst.endpoint = old.endpoint ∧
      inst.probed = old.probed := by
  unfold heartbeat at h
  split at h
  · exact ⟨inst, h, rfl, rfl⟩
  rename_i existing hknown
  rw [Table.lookup_insert_eq] at h
  split at h
  · rename_i hid
    cases h
    exact ⟨existing, hid ▸ hknown, rfl, rfl⟩
  · exact ⟨inst, h, rfl, rfl⟩

/-- `SetProbed` changes the flag of one instance. -/
theorem lookup_setProbed
    (h : (table.setProbed instanceId healthy).instances.lookup id = some inst) :
    ∃ old, table.instances.lookup id = some old ∧ inst.endpoint = old.endpoint ∧
      inst.probed = if id = instanceId then healthy else old.probed := by
  unfold setProbed at h
  split at h
  · rename_i hunk
    refine ⟨inst, h, rfl, ?_⟩
    rw [if_neg]
    rintro rfl
    rw [hunk] at h
    cases h
  · rename_i existing hknown
    rw [Table.lookup_insert_eq] at h
    split at h
    · rename_i hid
      cases h
      exact ⟨existing, hid ▸ hknown, rfl, by rw [if_pos hid]⟩
    · rename_i hid
      exact ⟨inst, h, rfl, by rw [if_neg hid]⟩

theorem lookup_remove (h : (table.remove instanceId).instances.lookup id = some inst) :
    table.instances.lookup id = some inst := by
  rw [remove, Table.lookup_filterRows, Option.filter_eq_some_iff] at h
  exact h.1

/-- The sorted instances are the rows that meet the test. -/
theorem mem_sorted {test : Instance → Bool} :
    inst ∈ table.sorted test ↔
      ∃ id, table.instances.lookup id = some inst ∧ test inst = true := by
  rw [sorted, List.mem_insertionSort, List.mem_map]
  constructor
  · rintro ⟨⟨id, _⟩, hrow, rfl⟩
    exact ⟨id, Table.mem_rowsWhere.mp hrow⟩
  · rintro ⟨id, hrow⟩
    exact ⟨(id, inst), Table.mem_rowsWhere.mpr hrow, rfl⟩

/-- **What `Pick` does**: it returns the usable instance at the cursor, and moves the cursor on. -/
theorem pick_eq_ok : table.pick now routeId = ok (inst, table') ↔
    ((table.routableLocked now routeId).rotate ((table.cursor.lookup routeId).getD 0)).head? =
      some inst ∧
    { table with cursor := table.cursor.insert routeId (((table.cursor.lookup routeId).getD 0 + 1) %
      (table.routableLocked now routeId).length) } = table' := by
  unfold pick
  split
  · rename_i hnil
    simp [hnil]
  · rename_i first rest hcan
    have hlt := Nat.mod_lt ((table.cursor.lookup routeId).getD 0) (Nat.zero_lt_succ rest.length)
    rw [hcan, ← List.rotate_mod, List.head?_rotate hlt, Except.ok.injEq, Prod.mk.injEq,
      List.getD_eq_getElem?_getD, List.getElem?_eq_getElem hlt, Option.getD_some, Option.some.injEq]

/-- **What `Pick` returns** is a row of the table whose probe passed. -/
theorem probed_of_pick (h : table.pick now routeId = ok (inst, table')) :
    (∃ id, table.instances.lookup id = some inst) ∧ inst.probed = true ∧
      inst.routeId = routeId := by
  have hmem : inst ∈ table.routableLocked now routeId :=
    List.mem_rotate.mp (List.mem_of_head? (pick_eq_ok.mp h).1)
  obtain ⟨id, hrow, htest⟩ := mem_sorted.mp hmem
  simp only [Bool.and_eq_true, decide_eq_true_eq] at htest
  exact ⟨⟨id, hrow⟩, htest.1.2, htest.1.1.1⟩

end RouteTable

/-! ### The history of a target -/

/-- The event that gives an instance its target. -/
def RouteEvent.sets (event : RouteEvent) (instanceId : String) : Prop :=
  ∃ routeId target, event = .set instanceId routeId target

/-- The event of a probe of a target that fails. -/
def RouteEvent.fails (event : RouteEvent) (target : String) : Prop :=
  ∃ instanceId, event = .checked instanceId target false

/-- The history in which an instance was last given the route and target it has. -/
def LastSet (history : List RouteEvent) (inst : Instance) : Prop :=
  ∃ before after, history = before ++ .set inst.instanceId inst.routeId inst.target :: after ∧
    ∀ event ∈ after, ¬ event.sets inst.instanceId

/-- **A confirmed instance.** Since the instance was last given the route and target it has, a
probe of the target has passed, and no probe of it has failed after that one. -/
def Confirmed (history : List RouteEvent) (inst : Instance) : Prop :=
  ∃ before between after,
    history = before ++ .set inst.instanceId inst.routeId inst.target ::
      (between ++ .checked inst.instanceId inst.target true :: after) ∧
    (∀ event ∈ between ++ after, ¬ event.sets inst.instanceId) ∧
    ∀ event ∈ after, ¬ event.fails inst.target

variable {history : List RouteEvent}

/-- The last setting is that of the endpoint. -/
theorem LastSet.congr {inst' : Instance} (h : LastSet history inst)
    (hsame : inst'.endpoint = inst.endpoint) : LastSet history inst' := by
  simp only [Instance.endpoint, Prod.mk.injEq] at hsame
  unfold LastSet
  rw [hsame.1, hsame.2.1, hsame.2.2]
  exact h

/-- What is confirmed is the endpoint. -/
theorem Confirmed.congr {inst' : Instance} (h : Confirmed history inst)
    (hsame : inst'.endpoint = inst.endpoint) : Confirmed history inst' := by
  simp only [Instance.endpoint, Prod.mk.injEq] at hsame
  unfold Confirmed
  rw [hsame.1, hsame.2.1, hsame.2.2]
  exact h

/-- What happens to other instances leaves the last setting of this one. -/
theorem LastSet.append (h : LastSet history inst) {event : RouteEvent}
    (hevent : ¬ event.sets inst.instanceId) : LastSet (history ++ [event]) inst := by
  obtain ⟨before, after, rfl, haft⟩ := h
  exact ⟨before, after ++ [event], by simp,
    List.forall_mem_append.mpr ⟨haft, List.forall_mem_singleton.mpr hevent⟩⟩

/-- What does not set the instance or fail its target leaves it confirmed. -/
theorem Confirmed.append (h : Confirmed history inst) {event : RouteEvent}
    (hset : ¬ event.sets inst.instanceId) (hfail : ¬ event.fails inst.target) :
    Confirmed (history ++ [event]) inst := by
  obtain ⟨before, between, after, rfl, hsets, hfails⟩ := h
  refine ⟨before, between, after ++ [event], by simp, ?_,
    List.forall_mem_append.mpr ⟨hfails, List.forall_mem_singleton.mpr hfail⟩⟩
  rw [← List.append_assoc]
  exact List.forall_mem_append.mpr ⟨hsets, List.forall_mem_singleton.mpr hset⟩

/-- A probe that passes confirms the instance. -/
theorem LastSet.confirmed (h : LastSet history inst) :
    Confirmed (history ++ [.checked inst.instanceId inst.target true]) inst := by
  obtain ⟨before, after, rfl, _⟩ := h
  exact ⟨before, after, [], by simp, by rwa [List.append_nil], List.forall_mem_nil _⟩

theorem Confirmed.checked (h : Confirmed history inst) :
    .checked inst.instanceId inst.target true ∈ history := by
  obtain ⟨_, _, _, rfl, -⟩ := h
  simp

theorem not_sets_set (h : id ≠ instanceId) :
    ¬ (RouteEvent.set instanceId routeId target).sets id := by
  rintro ⟨_, _, ⟨⟩⟩
  exact h rfl

theorem not_fails_set {other : String} :
    ¬ (RouteEvent.set instanceId routeId target).fails other := by
  rintro ⟨_, ⟨⟩⟩

theorem not_sets_checked : ¬ (RouteEvent.checked instanceId target healthy).sets id := by
  rintro ⟨_, _, ⟨⟩⟩

theorem not_fails_checked {other : String} (h : other ≠ target) :
    ¬ (RouteEvent.checked instanceId target healthy).fails other := by
  rintro ⟨_, ⟨⟩⟩
  exact h rfl

/-! ### Orderly runs -/

/-- The outcome a probe has to record: the instance, the target it called, and whether it is
healthy. -/
def Probing.outcome : Probing → Option (String × String × Bool)
  | ⟨(instanceId, target) :: _, some healthy⟩ => some (instanceId, target, healthy)
  | _ => none

/-- No outcome of a check of an instance waits for being recorded. -/
def Routing.quiet (s : Routing) (instanceId : String) : Bool :=
  s.probings.all fun probing => probing.outcome.all fun waiting => waiting.1 ≠ instanceId

/-- Two pairs of an instance and a target share both or neither. -/
def agrees (one other : String × String) : Bool :=
  decide (one.1 = other.1 ↔ one.2 = other.2)

/-- **Orderly steps.** The outcome of a check is recorded before the next check of the same instance
returns, before the instance registers again and before an attempt goes to it. A registration names
a new instance or one whose probe has not passed, its target is not that of another instance, and
the probes under way are of this instance and target or of neither. A probe is begun of an
instance with its own target. -/
def orderly (s : Routing) : RouteAction → Bool
  | .upsert info _ =>
    s.quiet info.instanceId && ((s.table.instances.lookup info.instanceId).all fun inst => !inst.probed) &&
      !(s.table.instances.anyRow fun id inst =>
        id ≠ info.instanceId && inst.target = info.target) &&
      s.probings.all fun probing => probing.pending.all (agrees (info.instanceId, info.target))
  | .probeInstance instanceId target =>
    !(s.table.instances.anyRow fun id inst => !agrees (id, inst.target) (instanceId, target))
  | .check handle _ =>
    (s.probings[handle]?.bind (·.pending.head?)).all fun pair => s.quiet pair.1
  | .pick routeId =>
    (s.table.pick s.now routeId).toOption.all fun picked => s.quiet picked.1.instanceId
  | _ => true

/-- A probe has an outcome for an instance and target that is not recorded yet. -/
def Routing.Awaits (s : Routing) (instanceId target : String) (healthy : Bool) : Prop :=
  ∃ probing ∈ s.probings, probing.outcome = some (instanceId, target, healthy)

variable {s : Routing}

theorem Routing.not_awaits (h : s.quiet instanceId = true) :
    ¬ s.Awaits instanceId target healthy := by
  rintro ⟨probing, hprob, hout⟩
  have hother := List.all_eq_true.mp h probing hprob
  rw [hout, Option.all_some] at hother
  exact of_decide_eq_true hother rfl

/-- What the table and the probes under way say of endpoints. -/
structure Located (s : Routing) : Prop where
  /-- Instances are stored under their ids. -/
  keyed : ∀ id inst, s.table.instances.lookup id = some inst → inst.instanceId = id
  /-- No two instances have one target. -/
  targets : ∀ id inst id' inst', s.table.instances.lookup id = some inst →
    s.table.instances.lookup id' = some inst' → inst.target = inst'.target → id = id'
  /-- A probe under way is of an instance with its own target, as far as it is known. -/
  matched : ∀ probing ∈ s.probings, ∀ pair ∈ probing.pending, ∀ id inst,
    s.table.instances.lookup id = some inst → (id = pair.1 ↔ inst.target = pair.2)
  /-- The history knows when an instance was given its target. -/
  lastSet : ∀ id inst, s.table.instances.lookup id = some inst → LastSet s.history inst

/-- What relates the table, the probes under way and the history. -/
structure Truthful (s : Routing) : Prop extends Located s where
  /-- The flag of an instance tells the truth unless a failure waits. -/
  confirmed : ∀ id inst, s.table.instances.lookup id = some inst → inst.probed = true →
    (∀ target, ¬ s.Awaits id target false) → Confirmed s.history inst
  /-- A success that waits tells the truth. -/
  passed : ∀ id target inst, s.Awaits id target true →
    s.table.instances.lookup id = some inst → Confirmed s.history inst

/-! ### What every step keeps -/

/-- An entry is still there after another place of the list is rewritten. -/
theorem mem_set_or_eq {α : Type} {items : List α} {place : ℕ} {old new item : α}
    (hold : items[place]? = some old) (hitem : item ∈ items) :
    item ∈ items.set place new ∨ item = old := by
  obtain ⟨index, hlt, rfl⟩ := List.getElem_of_mem hitem
  by_cases hplace : place = index
  · subst hplace
    rw [List.getElem?_eq_getElem hlt] at hold
    exact .inr (Option.some.inj hold)
  · refine .inl (List.mem_of_getElem? (i := index) ?_)
    rw [List.getElem?_set_ne hplace, List.getElem?_eq_getElem hlt]

/-- A row with its endpoint known from an earlier row has that row's target. -/
theorem Instance.target_of_endpoint {old : Instance} (h : inst.endpoint = old.endpoint) :
    inst.target = old.target :=
  congrArg (fun endpoint => endpoint.2.2) h

/-- Steps that leave the endpoints of the rows they keep, and begin no probe. -/
theorem Located.frame {s' : Routing} (h : Located s) (hhis : s'.history = s.history)
    (hpen : ∀ probing' ∈ s'.probings, ∀ pair ∈ probing'.pending,
      ∃ probing ∈ s.probings, pair ∈ probing.pending)
    (hrows : ∀ id inst, s'.table.instances.lookup id = some inst →
      ∃ old, s.table.instances.lookup id = some old ∧ inst.endpoint = old.endpoint) :
    Located s' := by
  constructor
  case keyed =>
    intro id inst hrow
    obtain ⟨old, hold, hsame⟩ := hrows id inst hrow
    exact (congrArg Prod.fst hsame).trans (h.keyed id old hold)
  case targets =>
    intro id inst id' inst' hrow hrow' htar
    obtain ⟨old, hold, hsame⟩ := hrows id inst hrow
    obtain ⟨old', hold', hsame'⟩ := hrows id' inst' hrow'
    rw [Instance.target_of_endpoint hsame, Instance.target_of_endpoint hsame'] at htar
    exact h.targets id old id' old' hold hold' htar
  case matched =>
    intro probing' hprob' pair hpair' id inst hrow
    obtain ⟨old, hold, hsame⟩ := hrows id inst hrow
    obtain ⟨probing, hprob, hpair⟩ := hpen probing' hprob' pair hpair'
    rw [Instance.target_of_endpoint hsame]
    exact h.matched probing hprob pair hpair id old hold
  case lastSet =>
    intro id inst hrow
    obtain ⟨old, hold, hsame⟩ := hrows id inst hrow
    rw [hhis]
    exact (h.lastSet id old hold).congr hsame

namespace Truthful

variable {s s' : Routing}

/-- The empty table is truthful. -/
theorem init (start : ℤ) : Truthful { now := start } :=
  ⟨⟨nofun, nofun, nofun, nofun⟩, nofun, nofun⟩

/-- **Frame.** Steps that keep the endpoints and probes of the rows they leave. -/
theorem frame (h : Truthful s) (hprob : s'.probings = s.probings)
    (hhis : s'.history = s.history)
    (hrows : ∀ id inst, s'.table.instances.lookup id = some inst →
      ∃ old, s.table.instances.lookup id = some old ∧ inst.endpoint = old.endpoint ∧
        inst.probed = old.probed) : Truthful s' := by
  have hloc : Located s' := by
    refine h.toLocated.frame hhis (fun probing hprobing pair hpair => ?_) ?_
    · exact ⟨probing, hprob ▸ hprobing, hpair⟩
    intro id inst hrow
    obtain ⟨old, hold, hsame, -⟩ := hrows id inst hrow
    exact ⟨old, hold, hsame⟩
  refine { hloc with confirmed := ?_, passed := ?_ }
  · intro id inst hrow hprobed hno
    obtain ⟨old, hold, hsame, hflag⟩ := hrows id inst hrow
    rw [hhis]
    refine (h.confirmed id old hold (hflag ▸ hprobed) ?_).congr hsame
    simpa only [Routing.Awaits, hprob] using hno
  · intro id target inst hwait hrow
    obtain ⟨old, hold, hsame, -⟩ := hrows id inst hrow
    rw [Routing.Awaits, hprob] at hwait
    rw [hhis]
    exact (h.passed id target old hwait hold).congr hsame

/-- A probe begins with no outcome. -/
theorem begin (h : Truthful s) {pending : List (String × String)}
    (hmat : ∀ pair ∈ pending, ∀ id inst, s.table.instances.lookup id = some inst →
      (id = pair.1 ↔ inst.target = pair.2)) :
    Truthful { s with probings := s.probings ++ [⟨pending, none⟩] } := by
  have hawait : ∀ id target healthy,
      Routing.Awaits { s with probings := s.probings ++ [⟨pending, none⟩] } id target healthy ↔
        s.Awaits id target healthy := by
    intro id target healthy
    simp only [Routing.Awaits, List.mem_append, List.mem_singleton, or_and_right, exists_or,
      exists_eq_left]
    have hnone : Probing.outcome ⟨pending, none⟩ ≠ some (id, target, healthy) := by
      cases pending <;> simp [Probing.outcome]
    exact or_iff_left hnone
  refine ⟨⟨h.keyed, h.targets, ?_, h.lastSet⟩, ?_, ?_⟩
  · exact List.forall_mem_append.mpr ⟨h.matched, List.forall_mem_singleton.mpr hmat⟩
  · intro id inst hrow hprob hno
    exact h.confirmed id inst hrow hprob fun target hwait =>
      hno target ((hawait ..).mpr hwait)
  · intro id target inst hwait hrow
    exact h.passed id target inst ((hawait ..).mp hwait) hrow

/-- A registration in an orderly step gives an unprobed instance its target. -/
theorem upsert (h : Truthful s) {info : InstanceInfo}
    (hord : orderly s (.upsert info report) = true) : Truthful (s.afterUpsert info report) := by
  unfold Routing.afterUpsert
  cases htab : s.table.upsert s.now info report with
  | error => exact h
  | ok table =>
  simp only [orderly, Bool.and_eq_true, Option.all_eq_true, Bool.not_eq_true',
    Table.anyRow_eq_false_iff, List.all_eq_true, agrees, decide_eq_true_eq] at hord
  obtain ⟨⟨⟨hquiet, hunp⟩, hfree⟩, hagr⟩ := hord
  have hrows : ∀ {id inst}, table.instances.lookup id = some inst →
      (id = info.instanceId ∧ inst = s.table.upserted s.now info report) ∨
        (id ≠ info.instanceId ∧ s.table.instances.lookup id = some inst) := by
    intro id inst hrow
    rw [RouteTable.lookup_upsert htab] at hrow
    split at hrow
    · exact .inl ⟨‹_›, (Option.some.inj hrow).symm⟩
    · exact .inr ⟨‹_›, hrow⟩
  have hflag : (s.table.upserted s.now info report).probed = false := by
    cases hknown : s.table.instances.lookup info.instanceId with
    | none => simp [RouteTable.upserted, hknown]
    | some inst =>
      have := hunp inst hknown
      simp [RouteTable.upserted, hknown, this]
  have hoth : ∀ id inst, id ≠ info.instanceId → s.table.instances.lookup id = some inst →
      inst.target ≠ info.target := by
    intro id inst hid hrow htar
    have := hfree id inst hrow
    simp [hid, htar] at this
  refine ⟨⟨?keyed, ?targets, ?matched, ?lastSet⟩, ?confirmed, ?passed⟩
  case keyed =>
    intro id inst hrow
    rcases hrows hrow with ⟨rfl, rfl⟩ | ⟨-, hold⟩
    · rfl
    · exact h.keyed id inst hold
  case targets =>
    intro id inst id' inst' hrow hrow' htar
    rcases hrows hrow with ⟨rfl, rfl⟩ | ⟨hid, hold⟩ <;>
      rcases hrows hrow' with ⟨rfl, rfl⟩ | ⟨hid', hold'⟩
    · rfl
    · exact absurd htar.symm (hoth id' inst' hid' hold')
    · exact absurd htar (hoth id inst hid hold)
    · exact h.targets id inst id' inst' hold hold' htar
  case matched =>
    intro probing hprobing pair hpair id inst hrow
    rcases hrows hrow with ⟨rfl, rfl⟩ | ⟨-, hold⟩
    · exact hagr probing hprobing pair hpair
    · exact h.matched probing hprobing pair hpair id inst hold
  case lastSet =>
    intro id inst hrow
    rcases hrows hrow with ⟨rfl, rfl⟩ | ⟨hid, hold⟩
    · exact ⟨s.history, [], rfl, List.forall_mem_nil _⟩
    · exact (h.lastSet id inst hold).append (not_sets_set (h.keyed id inst hold ▸ hid))
  case confirmed =>
    intro id inst hrow hprob hno
    rcases hrows hrow with ⟨rfl, rfl⟩ | ⟨hid, hold⟩
    · rw [hflag] at hprob
      cases hprob
    · exact (h.confirmed id inst hold hprob hno).append
        (not_sets_set (h.keyed id inst hold ▸ hid)) not_fails_set
  case passed =>
    intro id target inst hwait hrow
    rcases hrows hrow with ⟨rfl, rfl⟩ | ⟨hid, hold⟩
    · exact absurd hwait (Routing.not_awaits (s := s) hquiet)
    · exact (h.passed id target inst hwait hold).append
        (not_sets_set (h.keyed id inst hold ▸ hid)) not_fails_set

/-- **A check returns** while none of the instance waits: a success confirms the instance whose
target was called, a failure waits for being recorded, and other instances have other targets. -/
theorem check (h : Truthful s) (hquiet : s.quiet instanceId = true) {handle : ℕ}
    {rest : List (String × String)}
    (hprob : s.probings[handle]? = some ⟨(instanceId, target) :: rest, none⟩) :
    Truthful { s with
      probings := s.probings.set handle ⟨(instanceId, target) :: rest, some healthy⟩
      history := s.history ++ [.checked instanceId target healthy] } := by
  have hmat := h.matched _ (List.mem_of_getElem? hprob)
  have hcal : ∀ id inst, s.table.instances.lookup id = some inst →
      (id = instanceId ↔ inst.target = target) := hmat (instanceId, target) List.mem_cons_self
  have hawait : ∀ {id called : String} {result : Bool}, Routing.Awaits { s with
      probings := s.probings.set handle ⟨(instanceId, target) :: rest, some healthy⟩
      history := s.history ++ [.checked instanceId target healthy] } id called result →
      (id = instanceId ∧ result = healthy) ∨ s.Awaits id called result := by
    rintro id called result ⟨probing, hmem, hout⟩
    rcases List.mem_or_eq_of_mem_set hmem with hold | rfl
    · exact .inr ⟨probing, hold, hout⟩
    · simp only [Probing.outcome, Option.some.injEq, Prod.mk.injEq] at hout
      exact .inl ⟨hout.1.symm, hout.2.2.symm⟩
  -- The instance that was called is confirmed by a success, whatever its flag says.
  have hsuc : ∀ inst, s.table.instances.lookup instanceId = some inst → healthy = true →
      Confirmed (s.history ++ [.checked instanceId target healthy]) inst := by
    rintro inst hrow rfl
    have hcon := (h.lastSet instanceId inst hrow).confirmed
    rwa [h.keyed instanceId inst hrow, (hcal instanceId inst hrow).mp rfl] at hcon
  refine ⟨⟨h.keyed, h.targets, ?_, ?_⟩, ?_, ?_⟩
  · intro probing hmem
    rcases List.mem_or_eq_of_mem_set hmem with hold | rfl
    · exact h.matched probing hold
    · exact hmat
  · intro id inst hrow
    exact (h.lastSet id inst hrow).append not_sets_checked
  · intro id inst hrow hprobed hno
    by_cases hid : id = instanceId
    · subst hid
      refine hsuc inst hrow ?_
      cases healthy with
      | true => rfl
      | false =>
        exact absurd ⟨_, List.mem_set (List.getElem?_eq_some_iff.mp hprob).1 _, rfl⟩ (hno target)
    · refine (h.confirmed id inst hrow hprobed ?_).append not_sets_checked
        (not_fails_checked (mt (hcal id inst hrow).mpr hid))
      rintro called ⟨probing, hprev, hout⟩
      rcases mem_set_or_eq hprob hprev with hkept | rfl
      · exact hno called ⟨probing, hkept, hout⟩
      · cases hout
  · intro id called inst hwait hrow
    rcases hawait hwait with ⟨rfl, hres⟩ | hold
    · exact hsuc inst hrow hres.symm
    · have hid : id ≠ instanceId := by
        rintro rfl
        exact Routing.not_awaits hquiet hold
      exact (h.passed id called inst hold hrow).append not_sets_checked
        (not_fails_checked (mt (hcal id inst hrow).mpr hid))

/-- **An outcome is recorded**: a success was the truth, a failure clears the flag. -/
theorem record (h : Truthful s) {handle : ℕ} {rest : List (String × String)}
    (hprob : s.probings[handle]? = some ⟨(instanceId, target) :: rest, some healthy⟩) :
    Truthful { s with
      table := s.table.setProbed instanceId healthy
      probings := s.probings.set handle ⟨rest, none⟩ } := by
  have hmem := List.mem_of_getElem? hprob
  have hnone : (Probing.mk rest none).outcome = none := by
    cases rest <;> rfl
  have hloc : Located { s with
      table := s.table.setProbed instanceId healthy
      probings := s.probings.set handle ⟨rest, none⟩ } := by
    refine h.toLocated.frame rfl ?_ ?_
    · intro probing hprob pair hpair
      rcases List.mem_or_eq_of_mem_set hprob with hprev | rfl
      · exact ⟨probing, hprev, hpair⟩
      · exact ⟨_, hmem, List.mem_cons_of_mem _ hpair⟩
    · intro id inst hrow
      obtain ⟨old, hold, hsame, -⟩ := RouteTable.lookup_setProbed hrow
      exact ⟨old, hold, hsame⟩
  refine { hloc with confirmed := ?_, passed := ?_ }
  · intro id inst hrow hprobed hno
    obtain ⟨old, hold, hsame, hflag⟩ := RouteTable.lookup_setProbed hrow
    rw [hflag] at hprobed
    split at hprobed
    · rename_i hid
      subst hid hprobed
      exact (h.passed id target old ⟨_, hmem, rfl⟩ hold).congr hsame
    rename_i hid
    refine (h.confirmed id old hold hprobed ?_).congr hsame
    rintro called ⟨probing, hprev, hout⟩
    rcases mem_set_or_eq hprob hprev with hkept | rfl
    · exact hno called ⟨probing, hkept, hout⟩
    · simp only [Probing.outcome, Option.some.injEq, Prod.mk.injEq] at hout
      exact hid hout.1.symm
  · rintro id called inst ⟨probing, hkept, hout⟩ hrow
    obtain ⟨old, hold, hsame, -⟩ := RouteTable.lookup_setProbed hrow
    rcases List.mem_or_eq_of_mem_set hkept with hprev | rfl
    · exact (h.passed id called old ⟨probing, hprev, hout⟩ hold).congr hsame
    · rw [hnone] at hout
      cases hout

/-- **Every orderly step** leaves a truthful state. -/
theorem step (h : Truthful s) {action : RouteAction} (hord : orderly s action = true)
    (hstep : s.step action = some s') : Truthful s' := by
  cases action with
  | upsert =>
    cases hstep
    exact h.upsert hord
  | heartbeat =>
    cases hstep
    exact h.frame rfl rfl fun _ _ hrow => RouteTable.lookup_heartbeat hrow
  | remove =>
    cases hstep
    exact h.frame rfl rfl fun _ inst hrow => ⟨inst, RouteTable.lookup_remove hrow, rfl, rfl⟩
  | probeInstance =>
    cases hstep
    refine h.begin fun pair hpair id inst hrow => ?_
    obtain rfl := List.mem_singleton.mp hpair
    simp only [orderly, Bool.not_eq_true', Table.anyRow_eq_false_iff] at hord
    simpa [agrees] using hord id inst hrow
  | probeOnce =>
    cases hstep
    refine h.begin fun pair hpair id inst hrow => ?_
    obtain ⟨read, hread, rfl⟩ := List.mem_map.mp hpair
    obtain ⟨id', hrow', -⟩ := RouteTable.mem_sorted.mp hread
    rw [h.keyed id' read hrow']
    constructor
    · rintro rfl
      rw [hrow] at hrow'
      cases hrow'
      rfl
    · exact h.targets id inst id' read hrow hrow'
  | check handle healthy =>
    simp only [Routing.step] at hstep
    split at hstep
    · rename_i hprob
      cases hstep
      simp only [orderly, hprob] at hord
      exact h.check hord hprob
    · cases hstep
  | record handle =>
    simp only [Routing.step] at hstep
    split at hstep
    · rename_i hprob
      cases hstep
      exact h.record hprob
    · cases hstep
  | pick routeId =>
    simp only [Routing.step] at hstep
    split at hstep
    · cases hstep
      exact h
    rename_i hpick
    cases hstep
    obtain ⟨-, rfl⟩ := RouteTable.pick_eq_ok.mp hpick
    exact h.frame rfl rfl fun _ inst hrow => ⟨inst, hrow, rfl, rfl⟩
  | advance =>
    cases hstep
    exact h.frame rfl rfl fun _ inst hrow => ⟨inst, hrow, rfl, rfl⟩

end Truthful

/-- Every state of an orderly run is truthful. -/
theorem truthful_of_reachable (h : RoutingReachable (fun s action => orderly s action = true) s) :
    Truthful s := by
  obtain ⟨start, hreach⟩ := h
  exact hreach.invariant (Truthful.init start) fun _ _ _ htrut hord hstep =>
    htrut.step hord hstep

/-! ### Attempts go to probed targets -/

/-- **Attempts go only to probed targets.** In an orderly run, whenever `Pick` returns an
instance, a probe of the target it has passed after the instance was last given its route and
target, and no probe of that target failed later. -/
theorem pick_confirmed {s : Routing} {routeId : String} {inst : Instance} {table : RouteTable}
    (h : RoutingReachable (fun s action => orderly s action = true) s)
    (horderly : orderly s (.pick routeId) = true)
    (hpick : s.table.pick s.now routeId = ok (inst, table)) : Confirmed s.history inst := by
  have htrut := truthful_of_reachable h
  obtain ⟨⟨id, hrow⟩, hprob, -⟩ := RouteTable.probed_of_pick hpick
  simp only [orderly, hpick] at horderly
  obtain rfl := htrut.keyed id inst hrow
  exact htrut.confirmed _ inst hrow hprob fun _ => Routing.not_awaits horderly

/-- A registration: the instance is recorded and then probed. -/
def registration (instanceId target : String) : List RouteAction :=
  [.upsert ⟨instanceId, "pay", target, 0⟩ (some .serving), .probeInstance instanceId target]

/-- An instance registers and answers its probe. -/
def registered : List RouteAction :=
  registration "a" "host:1" ++ [.check 0 true, .record 0]

/-- The instance `Pick` returns after a run, with the history of the run. -/
def pickedAfter (test : Routing → RouteAction → Bool) (actions : List RouteAction) :
    Option (Routing × Instance) :=
  (Transition.run (Transition.guarded test Routing.step) { now := 0 } actions).bind fun s =>
    match s.table.pick s.now "pay" with
    | ok (inst, _) => some (s, inst)
    | error _ => none

/-- What a run picks, as a state the run reaches. -/
theorem reachable_of_pickedAfter {test : Routing → RouteAction → Bool}
    {actions : List RouteAction} (h : pickedAfter test actions = some (s, inst)) :
    RoutingReachable (fun s action => test s action = true) s ∧
      ∃ table, s.table.pick s.now "pay" = ok (inst, table) := by
  obtain ⟨_, hrun, hpic⟩ := Option.bind_eq_some_iff.mp h
  split at hpic
  · rename_i picked table hpick
    cases hpic
    exact ⟨⟨0, Transition.reachable_of_guarded_run hrun⟩, table, hpick⟩
  · cases hpic

/-- The registered instance is picked and confirmed. -/
theorem pick_confirmed_registered : ∃ s inst table,
    RoutingReachable (fun s action => orderly s action = true) s ∧
      orderly s (.pick "pay") = true ∧ s.table.pick s.now "pay" = ok (inst, table) ∧
      inst.target = "host:1" ∧ Confirmed s.history inst := by
  have hsome : ((pickedAfter orderly registered).map fun picked =>
      (orderly picked.1 (.pick "pay"), picked.2.target)) = some (true, "host:1") := by
    decide +kernel
  obtain ⟨⟨s, inst⟩, hpic, hfacts⟩ := Option.map_eq_some_iff.mp hsome
  obtain ⟨hord, htar⟩ := Prod.mk.inj hfacts
  obtain ⟨hreach, table, hpick⟩ := reachable_of_pickedAfter hpic
  exact ⟨s, inst, table, hreach, hord, hpick, htar, pick_confirmed hreach hord hpick⟩

/-- The instance registers again, now at another target, and has not been probed there. -/
def movedTarget : List RouteAction :=
  registered ++ registration "a" "host:2"

/-- **The flag outlives the target it was set for.** An instance that registers again at another
target keeps the probe of the old one: `Pick` returns the new target, which no probe has ever
called. -/
theorem pick_unprobed_target : ∃ s inst table, RoutingReachable Transition.anyStep s ∧
    s.table.pick s.now "pay" = ok (inst, table) ∧ inst.target = "host:2" ∧
    (∀ instanceId healthy, .checked instanceId "host:2" healthy ∉ s.history) ∧
    ¬ Confirmed s.history inst := by
  have hsome : ((pickedAfter (fun _ _ => true) movedTarget).map fun picked =>
      (picked.2.target, picked.1.history)) = some ("host:2",
        [.set "a" "pay" "host:1", .checked "a" "host:1" true, .set "a" "pay" "host:2"]) := by
    decide +kernel
  obtain ⟨⟨s, inst⟩, hpic, hfacts⟩ := Option.map_eq_some_iff.mp hsome
  obtain ⟨htar, hhis⟩ := Prod.mk.inj hfacts
  obtain ⟨⟨start, hreach⟩, table, hpick⟩ := reachable_of_pickedAfter hpic
  have hnever : ∀ instanceId healthy, RouteEvent.checked instanceId "host:2" healthy ∉ s.history := by
    intro instanceId healthy hchec
    rw [hhis] at hchec
    simp at hchec
  refine ⟨s, inst, table, ⟨start, hreach.any⟩, hpick, htar, hnever, fun hcon => ?_⟩
  have hchec := hcon.checked
  rw [htar] at hchec
  exact hnever _ _ hchec

/-! ### Rounds -/

namespace Routing

/-- The ids of the usable instances of a route. -/
def usable (s : Routing) (routeId : String) : List String :=
  (s.table.routableLocked s.now routeId).map Instance.instanceId

/-- Where the round of a route stands. -/
def cursor (s : Routing) (routeId : String) : ℕ :=
  (s.table.cursor.lookup routeId).getD 0

/-- The states along a run in which `Pick` is called for a route. -/
def calls (routeId : String) : Routing → List RouteAction → List Routing
  | _, [] => []
  | s, action :: rest =>
    let later := (s.step action).elim [] (calls routeId · rest)
    if action = .pick routeId then s :: later else later

/-- What such a call returns. -/
def picked (routeId : String) (s : Routing) : Except String String :=
  (s.table.pick s.now routeId).map (·.1.instanceId)

variable {s' : Routing} {ids : List String} {actions : List RouteAction}

/-- The usable instances are listed in the order of their ids. -/
theorem usable_eq (h : (s.usable routeId).Perm ids) :
    s.usable routeId = ids.insertionSort (· ≤ ·) := by
  refine (h.trans (List.perm_insertionSort _ _).symm).eq_of_pairwise
    (fun _ _ _ _ => String.le_antisymm) ?_ (List.pairwise_insertionSort _ _)
  rw [usable, List.pairwise_map]
  exact List.pairwise_insertionSort _ _

/-- **A call takes the next of the usable instances**, and moves the cursor behind it. -/
theorem step_pick {first : String} {rest : List String}
    (h : (s.usable routeId).rotate (s.cursor routeId) = first :: rest) :
    s.picked routeId = ok first ∧ ∃ s', s.step (.pick routeId) = some s' ∧
      (s.usable routeId).rotate (s'.cursor routeId) = rest ++ [first] := by
  have hmap := (List.map_rotate Instance.instanceId _ _).trans h
  obtain ⟨inst, others, hrot, rfl, rfl⟩ := List.map_eq_cons_iff.mp hmap
  have hpick := RouteTable.pick_eq_ok.mpr ⟨by rw [← cursor, hrot]; rfl, rfl⟩
  refine ⟨by rw [picked, hpick]; rfl, _, by rw [step, hpick], ?_⟩
  rw [cursor, Table.lookup_insert_eq, if_pos rfl, Option.getD_some,
    ← List.length_map Instance.instanceId, ← usable, List.rotate_mod, ← List.rotate_rotate, ← cursor,
    h, List.rotate_cons_succ, List.rotate_zero]

/-- Nothing but a call moves the cursor of a route. -/
theorem cursor_of_step {action : RouteAction} (hne : action ≠ .pick routeId)
    (h : s.step action = some s') : s'.cursor routeId = s.cursor routeId := by
  cases action with
  | upsert | heartbeat | remove | probeInstance | probeOnce | check | record | advance =>
    grind [step, afterUpsert, RouteTable.upsert, RouteTable.heartbeat, RouteTable.remove,
      RouteTable.setProbed, cursor]
  | pick other =>
    simp only [step] at h
    split at h <;> cases h
    · rfl
    · obtain ⟨-, rfl⟩ := RouteTable.pick_eq_ok.mp ‹_›
      rw [cursor, Table.lookup_insert_eq, if_neg (by rintro rfl; exact hne rfl)]
      rfl

/-- While the usable instances stay, the calls return them in turn. -/
theorem calls_rotate (hset : ∀ s' ∈ calls routeId s actions, s'.usable routeId = ids)
    (hlen : (calls routeId s actions).length ≤ ids.length) :
    (calls routeId s actions).map (picked routeId) =
      ((ids.rotate (s.cursor routeId)).take (calls routeId s actions).length).map ok := by
  induction actions generalizing s with
  | nil => rfl
  | cons action actions ih =>
    by_cases hpick : action = .pick routeId
    · subst hpick
      have hsame : s.usable routeId = ids := hset s (by simp [calls])
      have hrot := ids.length_rotate (s.cursor routeId)
      cases hcase : ids.rotate (s.cursor routeId) with
      | nil => simp [calls, ← hrot, hcase] at hlen
      | cons first rest =>
        obtain ⟨hfirst, s', hstep, hnext⟩ := step_pick (hsame ▸ hcase)
        simp only [calls, hstep, if_true, Option.elim_some, List.forall_mem_cons,
          List.length_cons] at hset hlen ⊢
        rw [hcase, List.length_cons] at hrot
        rw [List.map_cons, hfirst, ih hset.2 (by omega), ← hsame, hnext,
          List.take_append_of_le_length (by omega), List.take_succ_cons, List.map_cons]
    · cases hstep : s.step action with
      | none => simp [calls, hpick, hstep]
      | some s' =>
        simp only [calls, hpick, hstep, if_false, Option.elim_some] at hset hlen ⊢
        rw [ih hset hlen, cursor_of_step hpick hstep]

end Routing

/-- **Round-robin is fair on a stable set.** From any state on, as many calls of `Pick` for a route
as it has usable instances return each of them once, if these are the same at every call. -/
theorem rounds_fair {actions : List RouteAction} {ids : List String}
    (hset : ∀ s' ∈ Routing.calls routeId s actions, (s'.usable routeId).Perm ids)
    (hlen : (Routing.calls routeId s actions).length = ids.length) :
    ((Routing.calls routeId s actions).map (Routing.picked routeId)).Perm (ids.map ok) := by
  have hsort := List.perm_insertionSort (· ≤ ·) ids
  rw [Routing.calls_rotate (fun s' hs' => Routing.usable_eq (hset s' hs'))
    (hlen.trans hsort.length_eq.symm).le, List.take_of_length_le (by simp [hlen])]
  exact ((List.rotate_perm _ _).trans hsort).map ok

/-- Two instances, in the round after their registrations. -/
theorem rounds_fair_two : ((Routing.calls "pay" { now := 0 } (registered ++
    registration "b" "host:2" ++ [.check 1 true, .record 1, .pick "pay", .pick "pay"])).map
      (Routing.picked "pay")).Perm (["a", "b"].map ok) :=
  rounds_fair (by decide +kernel) (by decide +kernel)

end Flory
