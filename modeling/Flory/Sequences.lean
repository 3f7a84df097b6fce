import Flory.Locking
import Flory.Numbering

/-!
# Sequence Integrity

The counters of the two planes under concurrent transactions. Every function that numbers
rows takes the counter row of its run or stream first and holds it to the end of its
transaction, so the transactions are those of the library `Locking` over one cell for each
run and one for each stream. A call acts on a cell through some store that shows, in the
cells it has locked, what its transaction sees; whatever the rest of that store holds is
left open, so every answer the triggers could give is covered.

## Main results

* `StoreCall.effect`: what a call does to the cells it locks, and that it changes no other.
* `Sequenced.statement`: one statement keeps every run and every stream numbered.
* `sequence_integrity`: under any interleaving of transactions that commit or roll back,
  every run and every stream is numbered without a gap or a collision, in commit order.
-/

namespace Flory

open Except (error ok)
open Fallible (bind_eq_ok map_eq_ok)

variable {runId : RunId} {new : List Event}

/-! ### Cells -/

/-- What is locked: the counter row of a run, or of a stream. -/
inductive Key
  | run (runId : RunId)
  | stream (streamId : String)
  deriving DecidableEq

/-- A run's counter row and its events. -/
structure RunCell where
  row : Option RunRow
  events : List Event

/-- A stream's counter row and its facts. -/
structure StreamCell where
  row : Option StreamRow
  facts : List BusinessEvent

/-- What a lock protects. -/
def Cell : Key → Type
  | .run _ => RunCell
  | .stream _ => StreamCell

/-- The cell of a run. -/
def Store.runCell (store : Store) (runId : RunId) : RunCell where
  row := store.db.runs.lookup runId
  events := store.db.log.filter fun e => e.runId == runId

/-- The cell of a stream. -/
def Store.streamCell (store : Store) (streamId : String) : StreamCell where
  row := store.streams.lookup streamId
  facts := store.facts.filter fun f => f.streamId == streamId

/-- A store, cell by cell. -/
def Store.cells (store : Store) : ∀ k, Cell k
  | .run runId => store.runCell runId
  | .stream streamId => store.streamCell streamId

/-- The run cell of a family of cells. -/
def runOf (σ : ∀ k, Cell k) (runId : RunId) : RunCell :=
  σ (.run runId)

/-- The stream cell of a family of cells. -/
def streamOf (σ : ∀ k, Cell k) (streamId : String) : StreamCell :=
  σ (.stream streamId)

/-- A row of either plane. -/
inductive Row
  | event (e : Event)
  | fact (f : BusinessEvent)

/-- The events of a run among some rows. -/
def eventsOf (runId : RunId) (rows : List Row) : List Event :=
  rows.filterMap fun
    | .event e => if e.runId = runId then some e else none
    | .fact _ => none

/-- The facts of a stream among some rows. -/
def factsOf (streamId : String) (rows : List Row) : List BusinessEvent :=
  rows.filterMap fun
    | .event _ => none
    | .fact f => if f.streamId = streamId then some f else none

/-- The rows a call stored: its events, then its facts. -/
def stored (events : List Event) (facts : List BusinessEvent) : List Row :=
  events.map .event ++ facts.map .fact

/-- The events of a run among stored rows. -/
theorem eventsOf_stored (events : List Event) (facts : List BusinessEvent) :
    eventsOf runId (stored events facts) = events.filter fun e => e.runId == runId := by
  simp [eventsOf, stored, List.filterMap_map, ← List.filterMap_eq_filter, Option.guard]

/-- The facts of a stream among stored rows. -/
theorem factsOf_stored (streamId : String) (events : List Event) (facts : List BusinessEvent) :
    factsOf streamId (stored events facts) = facts.filter fun f => f.streamId == streamId := by
  simp [factsOf, stored, List.filterMap_map, ← List.filterMap_eq_filter, Option.guard]

/-! ### What one call does to a cell -/

/-- The position above which a run numbers its own events. -/
def RunRow.floor (row : RunRow) : ℕ :=
  row.seedFloor.getD 0

/-- What a call does to a run's cell while it stores the events `new` in it. -/
inductive RunCell.Step : RunCell → List Event → RunCell → Prop
  | kept (cell : RunCell) : RunCell.Step cell [] cell
  | created {events : List Event} (seedFloor : Option ℕ) :
      RunCell.Step ⟨none, events⟩ []
        ⟨some { nextSeq := seedFloor.getD 0 + 1, seedFloor := seedFloor }, events⟩
  | appended {row : RunRow} {events new : List Event} (hown : ∀ e ∈ new, e.inherited = false)
      (hseq : new.map Event.runSeq = List.range' row.nextSeq new.length) :
      RunCell.Step ⟨some row, events⟩ new
        ⟨some { row with nextSeq := row.nextSeq + new.length }, events ++ new⟩
  | copied {row : RunRow} {events new : List Event}
      (hnew : ∀ e ∈ new, e.inherited = true ∧ 1 ≤ e.runSeq ∧ e.runSeq ≤ row.floor)
      (hfree : ∀ e ∈ new, ∀ e' ∈ events, e'.runSeq ≠ e.runSeq)
      (hdistinct : (new.map Event.runSeq).Nodup) :
      RunCell.Step ⟨some row, events⟩ new ⟨some row, events ++ new⟩

/-- What a call does to a stream's cell while it stores the facts `new` in it. A stream
that is not there yet is created with the first position free. -/
inductive StreamCell.Step : StreamCell → List BusinessEvent → StreamCell → Prop
  | kept (cell : StreamCell) : StreamCell.Step cell [] cell
  | placed {row : Option StreamRow} {facts new : List BusinessEvent}
      (hseq : new.map BusinessEvent.streamSeq = List.range' (row.getD {}).nextSeq new.length) :
      StreamCell.Step ⟨row, facts⟩ new
        ⟨some { nextSeq := (row.getD {}).nextSeq + new.length }, facts ++ new⟩

variable {store store' : Store}

/-- An own append, seen from the run's cell. -/
theorem Numbered.runCell (h : Numbered runId store.db store'.db new) :
    RunCell.Step (store.runCell runId) new (store'.runCell runId) := by
  obtain ⟨row, hrow, hrow', hseq⟩ := h.run
  have hnew : new.filter (fun e => e.runId == runId) = new :=
    List.filter_eq_self.mpr fun e he => by simp [(h.own e he).1]
  rw [Store.runCell, Store.runCell, hrow, hrow', h.log, List.filter_append, hnew]
  exact .appended (fun e he => (h.own e he).2) hseq

variable {row : RunRow}

/-- A copy, seen from the fork's cell. -/
theorem Copied.runCell {floor : ℕ} (h : Copied runId floor store.db store'.db new)
    (hrow : store.db.runs.lookup runId = some row) (hfloor : row.seedFloor = some floor) :
    RunCell.Step (store.runCell runId) new (store'.runCell runId) := by
  have hnew : new.filter (fun e => e.runId == runId) = new :=
    List.filter_eq_self.mpr fun e he => by simp [(h.inherited e he).1]
  have hfloor' : row.floor = floor := by simp [RunRow.floor, hfloor]
  rw [Store.runCell, Store.runCell, h.runs, hrow, h.log, List.filter_append, hnew]
  refine .copied (fun e he => hfloor' ▸ (h.inherited e he).2) (fun e he e' he' => ?_) h.distinct
  obtain ⟨hmem, hrun⟩ := List.mem_filter.mp he'
  exact h.free e he e' hmem (beq_iff_eq.mp hrun)

/-- Facts placed in a stream just made sure of, seen from the stream's cell. -/
theorem Placed.streamCell {streamId : String} {new : List BusinessEvent}
    (h : Placed streamId (store.ensureStream streamId) store' new) :
    StreamCell.Step (store.streamCell streamId) new (store'.streamCell streamId) := by
  obtain ⟨_, hrow, hrow', hseq⟩ := h.stream
  rw [lookup_ensured] at hrow
  cases hrow
  have hnew : new.filter (fun f => f.streamId == streamId) = new :=
    List.filter_eq_self.mpr fun f hf => by simp [h.named f hf]
  have hfac : store'.facts = store.facts ++ new := h.facts
  rw [Store.streamCell, Store.streamCell, hrow', hfac, List.filter_append, hnew]
  exact .placed hseq

/-! ### Calls as statements -/

/-- The calls that number rows, or take a counter row. -/
inductive StoreCall
  | createRun (runId : RunId)
  | createForkRun (runId : RunId) (evalUpToSeq : ℕ)
  | lockForkSource (runId : RunId)
  | appendEvents (user : SessionUser) (runId : RunId) (drafts : List EventDraft)
  | copyInheritedEvents (runId : RunId) (copies : List InheritedCopy)
  | createStream (streamId : String)
  | appendDomainEvents (user : SessionUser) (runId : RunId) (streamId : String)
      (event : EventDraft) (facts : List BusinessFactDraft)
  | appendConfigEvent (streamId eventType : String) (payload : Json)

/-- The store with its orchestration plane replaced. -/
def Store.withDb (store : Store) (db : Db) : Store :=
  { store with db := db }

namespace StoreCall

/-- The outcome of a call on a store. -/
def exec : StoreCall → Store → Except DbError Store
  | createRun runId, store => (Flory.createRun store.db runId).map store.withDb
  | createForkRun runId evalUpToSeq, store =>
    (Flory.createForkRun store.db runId evalUpToSeq).map store.withDb
  | lockForkSource runId, store => (Flory.lockForkSource store.db runId).map fun _ => store
  | appendEvents user runId drafts, store =>
    (Flory.appendEvents ⟨user, false⟩ runId drafts store.db).map store.withDb
  | copyInheritedEvents runId copies, store =>
    (Flory.copyInheritedEvents runId copies store.db).map store.withDb
  | createStream streamId, store => Flory.createStream store streamId
  | appendDomainEvents user runId streamId event facts, store =>
    Flory.appendDomainEvents user store runId streamId event facts
  | appendConfigEvent streamId eventType payload, store =>
    Flory.appendConfigEvent store streamId eventType payload

/-- The counter rows a call takes. -/
def keys : StoreCall → Set Key
  | createRun runId | createForkRun runId _ | lockForkSource runId => {.run runId}
  | appendEvents _ runId _ | copyInheritedEvents runId _ => {.run runId}
  | createStream streamId | appendConfigEvent streamId _ _ => {.stream streamId}
  | appendDomainEvents _ runId streamId _ _ => {.run runId, .stream streamId}

end StoreCall

/-- Rows that name one run are its own, and no other run's. -/
theorem filter_named {α β : Type} [DecidableEq β] {name : α → β} {a : β} {l : List α}
    (h : ∀ x ∈ l, name x = a) (b : β) :
    l.filter (fun x => name x == b) = if b = a then l else [] := by
  split
  · rename_i hb
    exact List.filter_eq_self.mpr fun x hx => by simp [h x hx, hb]
  · rename_i hb
    exact List.filter_eq_nil_iff.mpr fun x hx => by simp [h x hx, Ne.symm hb]

/-- What a call did: to the cells it locked what the cell's step relation allows, and in no
other cell did it store a row. A fact names a run whose provenance fits its stream. -/
structure CellEffect (keys : Set Key) (store store' : Store) (events : List Event)
    (facts : List BusinessEvent) : Prop where
  log : store'.db.log = store.db.log ++ events
  stored : store'.facts = store.facts ++ facts
  run : ∀ r, .run r ∈ keys → RunCell.Step (store.runCell r) events (store'.runCell r) ∧
    ∀ e ∈ events, e.runId = r
  noEvents : (∀ r, .run r ∉ keys) → events = []
  stream : ∀ s, .stream s ∈ keys → StreamCell.Step (store.streamCell s) facts (store'.streamCell s) ∧
    ∀ f ∈ facts, f.streamId = s
  noFacts : (∀ s, .stream s ∉ keys) → facts = []
  quarantine : ∀ f ∈ facts, ∀ r, f.runId = some r → .run r ∈ keys ∧
    ∃ row, (store'.runCell r).row = some row ∧ row.seedFloor.isSome = isForkStream f.streamId
  frame : ∀ k ∉ keys, store'.cells k = store.cells k

/-- Storing events of one run leaves the cells of the others. -/
theorem runCell_other {r : RunId} {events : List Event}
    (hlog : store'.db.log = store.db.log ++ events) (hown : ∀ e ∈ events, e.runId = runId)
    (hoth : ∀ r, r ≠ runId → store'.db.runs.lookup r = store.db.runs.lookup r) (hr : r ≠ runId) :
    store'.runCell r = store.runCell r := by
  rw [Store.runCell, Store.runCell, hoth r hr, hlog, List.filter_append, filter_named hown r,
    if_neg hr, List.append_nil]

/-- Storing facts of one stream leaves the cells of the others. -/
theorem streamCell_other {streamId s : String} {facts : List BusinessEvent}
    (hfac : store'.facts = store.facts ++ facts) (hnam : ∀ f ∈ facts, f.streamId = streamId)
    (hoth : ∀ s, s ≠ streamId → store'.streams.lookup s = store.streams.lookup s)
    (hs : s ≠ streamId) : store'.streamCell s = store.streamCell s := by
  rw [Store.streamCell, Store.streamCell, hoth s hs, hfac, List.filter_append,
    filter_named hnam s, if_neg hs, List.append_nil]

/-- A call on one run that stores events in it, and no facts. -/
theorem CellEffect.ofRun {events : List Event} {db : Db} (hlog : db.log = store.db.log ++ events)
    (hoth : ∀ r, r ≠ runId → db.runs.lookup r = store.db.runs.lookup r)
    (hstep : RunCell.Step (store.runCell runId) events ((store.withDb db).runCell runId))
    (hown : ∀ e ∈ events, e.runId = runId) :
    CellEffect {.run runId} store (store.withDb db) events [] where
  log := hlog
  stored := (List.append_nil _).symm
  run r hr := by
    obtain rfl : r = runId := by simpa using hr
    exact ⟨hstep, hown⟩
  noEvents h := absurd rfl (h runId)
  stream s hs := by simp at hs
  noFacts _ := rfl
  quarantine f hf := by simp at hf
  frame k hk := by
    cases k with
    | run => exact runCell_other hlog hown hoth fun heq => hk (by simp [heq])
    | stream => rfl

/-- A call on one stream that stores facts without a run in it, and no events. -/
theorem CellEffect.ofStream {streamId : String} {facts : List BusinessEvent}
    (hplac : Placed streamId (store.ensureStream streamId) store' facts)
    (hfree : ∀ f ∈ facts, f.runId = none) :
    CellEffect {.stream streamId} store store' [] facts where
  log := by rw [hplac.db, List.append_nil]; rfl
  stored := hplac.facts
  run r hr := by simp at hr
  noEvents _ := rfl
  stream s hs := by
    obtain rfl : s = streamId := by simpa using hs
    exact ⟨hplac.streamCell, hplac.named⟩
  noFacts h := absurd rfl (h streamId)
  quarantine f hf r hr := by
    rw [hfree f hf] at hr
    cases hr
  frame k hk := by
    cases k with
    | run r =>
      have hdb : store'.db = store.db := hplac.db
      show store'.runCell r = store.runCell r
      rw [Store.runCell, hdb]
      rfl
    | stream s =>
      refine streamCell_other hplac.facts hplac.named (fun s hs => ?_) fun heq => hk (by simp [heq])
      rw [hplac.others s hs, lookup_ensured_of_ne hs]

/-- A new run. -/
theorem CellEffect.created (seedFloor : Option ℕ) (hnone : store.db.runs.lookup runId = none) :
    CellEffect {.run runId} store (store.withDb { store.db with
      runs := store.db.runs.insert runId ⟨seedFloor.getD 0 + 1, seedFloor⟩ }) [] [] := by
  refine .ofRun (List.append_nil _).symm (fun r hr => by rw [Table.lookup_insert_eq, if_neg hr]) ?_
    (by simp)
  rw [Store.runCell, Store.runCell, hnone, Store.withDb, Table.lookup_insert_eq, if_pos rfl]
  exact .created seedFloor

variable {call : StoreCall}

/-- **What an accepted call does to the cells it locks**, and to no other. -/
theorem StoreCall.effect (h : call.exec store = ok store') :
    ∃ events facts, CellEffect call.keys store store' events facts := by
  cases call with
  | createRun runId =>
    simp only [exec, map_eq_ok] at h
    obtain ⟨db, hdb, rfl⟩ := h
    unfold Flory.createRun at hdb
    split at hdb
    · cases hdb
    rename_i hnone
    cases hdb
    exact ⟨[], [], .created none (by simpa using hnone)⟩
  | createForkRun runId evalUpToSeq =>
    simp only [exec, map_eq_ok] at h
    obtain ⟨db, hdb, rfl⟩ := h
    unfold Flory.createForkRun at hdb
    split at hdb
    · cases hdb
    split at hdb
    · cases hdb
    rename_i hnone
    cases hdb
    exact ⟨[], [], .created (some evalUpToSeq) (by simpa using hnone)⟩
  | lockForkSource =>
    simp only [exec, map_eq_ok] at h
    obtain ⟨_, -, rfl⟩ := h
    have hlog : store.db.log = store.db.log ++ [] := (List.append_nil _).symm
    exact ⟨[], [], CellEffect.ofRun hlog (fun _ _ => rfl) (.kept _) (by simp)⟩
  | appendEvents =>
    simp only [exec, map_eq_ok] at h
    obtain ⟨db, hdb, rfl⟩ := h
    obtain ⟨new, hnew⟩ := appendEvents_numbered rfl hdb
    exact ⟨new, [], .ofRun hnew.log hnew.others (Numbered.runCell hnew)
      fun e he => (hnew.own e he).1⟩
  | copyInheritedEvents =>
    simp only [exec, map_eq_ok] at h
    obtain ⟨db, hdb, rfl⟩ := h
    obtain ⟨row, _, new, hrow, hfloor, hnew⟩ := copyInheritedEvents_copied hdb
    exact ⟨new, [], .ofRun hnew.log (fun r _ => by rw [hnew.runs])
      (Copied.runCell hnew hrow hfloor) fun e he => (hnew.inherited e he).1⟩
  | createStream streamId =>
    simp only [exec, Flory.createStream] at h
    split at h
    · cases h
    cases h
    have hplac : Placed streamId (store.ensureStream streamId) (store.ensureStream streamId)
        [] := ⟨rfl, by simp, by simp, ⟨_, lookup_ensured, lookup_ensured, rfl⟩,
          fun _ _ => rfl⟩
    exact ⟨[], [], .ofStream hplac (by simp)⟩
  | appendDomainEvents user runId streamId =>
    obtain ⟨row, mid, events, new, hrow, hns, heven, hnew, hrun⟩ :=
      appendDomainEvents_numbered h
    have hdb : store'.db = mid := hnew.db
    have hfac : store'.facts = store.facts ++ new := hnew.facts
    have hnum : Numbered runId store.db store'.db events := hdb ▸ heven
    have hown : ∀ e ∈ events, e.runId = runId := fun e he => (hnum.own e he).1
    refine ⟨events, new, hnum.log, hfac, fun r hr => ?_, fun hno => ?_,
      fun s hs => ?_, fun hno => ?_, fun f hf r hr => ?_, fun k hk => ?_⟩
    · obtain rfl : r = runId := by simpa [keys] using hr
      exact ⟨hnum.runCell, hown⟩
    · exact absurd (by simp [keys]) (hno runId)
    · obtain rfl : s = streamId := by simpa [keys] using hs
      have hplac : Placed s ((store.withDb mid).ensureStream s) store' new := hnew
      exact ⟨hplac.streamCell, hnew.named⟩
    · exact absurd (by simp [keys]) (hno streamId)
    · obtain rfl : runId = r := Option.mem_unique (hrun f hf) hr
      obtain ⟨_, hrow', hrow'', -⟩ := hnum.run
      obtain rfl := Option.mem_unique hrow hrow'
      exact ⟨by simp [keys], _, hrow'', by rw [hnew.named f hf]; exact hns⟩
    · cases k with
      | run =>
        exact runCell_other hnum.log hown hnum.others fun heq => hk (by simp [keys, heq])
      | stream s =>
        refine streamCell_other hfac hnew.named (fun s hs => ?_) fun heq => hk (by simp [keys, heq])
        rw [hnew.others s hs, lookup_ensured_of_ne hs]
  | appendConfigEvent =>
    simp only [exec, Flory.appendConfigEvent] at h
    split at h
    · cases h
    simp only [bind_eq_ok] at h
    obtain ⟨⟨_, mid⟩, hall, hfact⟩ := h
    exact ⟨[], _, .ofStream (placed_of_allocated hall hfact rfl rfl) (by simp)⟩

/-- A call as a statement of its transaction: it is accepted by some store that holds, in
the cells the call locks, what the transaction sees there. -/
def StoreCall.statement (call : StoreCall) : Locking.Statement Cell Row where
  keys := call.keys
  run σ out σ' :=
    (∃ store store' events facts, call.exec store = ok store' ∧
      store'.db.log = store.db.log ++ events ∧ store'.facts = store.facts ++ facts ∧
      out = stored events facts ∧
      ∀ k ∈ call.keys, store.cells k = σ k ∧ store'.cells k = σ' k) ∧
    ∀ k ∉ call.keys, σ' k = σ k
  frame h := h.2
  confined := by
    rintro σ out σ' τ ⟨⟨store, store', events, facts, hexec, hlog, hfacts, hout, hcells⟩, -⟩ hagree
    refine ⟨⟨store, store', events, facts, hexec, hlog, hfacts, hout, fun k hk => ?_⟩,
      fun k hk => Locking.overlay_of_notMem hk⟩
    rw [hagree k hk, Locking.overlay_of_mem hk]
    exact hcells k hk

/-! ### The invariant -/

/-- **A run is numbered without a gap or a collision**: its own events take the positions
above its floor one after the other, its inherited ones lie at or below it, and no two
events share a position. -/
structure RunCell.Sequenced (cell : RunCell) : Prop where
  none : cell.row = none → cell.events = []
  own : ∀ row, cell.row = some row → ∃ n, row.nextSeq = row.floor + 1 + n ∧
    (cell.events.filter fun e => !e.inherited).map Event.runSeq = List.range' (row.floor + 1) n
  inherited : ∀ row, cell.row = some row → ∀ e ∈ cell.events, e.inherited = true →
    1 ≤ e.runSeq ∧ e.runSeq ≤ row.floor
  distinct : (cell.events.map Event.runSeq).Nodup

/-- **A stream is numbered from one**, without a gap. -/
structure StreamCell.Sequenced (cell : StreamCell) : Prop where
  none : cell.row = none → cell.facts = []
  placed : ∀ row, cell.row = some row → ∃ n, row.nextSeq = 1 + n ∧
    cell.facts.map BusinessEvent.streamSeq = List.range' 1 n

/-- Every position of a numbered run lies below its counter. -/
theorem RunCell.Sequenced.lt_next {cell : RunCell} (h : cell.Sequenced)
    (hrow : cell.row = some row) {e : Event} (he : e ∈ cell.events) : e.runSeq < row.nextSeq := by
  obtain ⟨n, _, hseq⟩ := h.own row hrow
  cases hinh : e.inherited with
  | true =>
    have hfloor := (h.inherited row hrow e he hinh).2
    omega
  | false =>
    have hmem : e.runSeq ∈ List.range' (row.floor + 1) n := by
      rw [← hseq]
      exact List.mem_map_of_mem (List.mem_filter.mpr ⟨he, by simp [hinh]⟩)
    have hboun := List.mem_range'_1.mp hmem
    omega

variable {cell cell' : RunCell}

/-- One call keeps a run numbered. -/
theorem RunCell.Sequenced.step (h : cell.Sequenced)
    (hstep : RunCell.Step cell new cell') : cell'.Sequenced := by
  cases hstep with
  | kept => exact h
  | @created events =>
    have hemp : events = [] := h.none rfl
    refine ⟨nofun, ?_, ?_, h.distinct⟩
    · rintro row ⟨⟩
      exact ⟨0, rfl, by rw [hemp]; rfl⟩
    rintro row - e he
    rw [hemp] at he
    cases he
  | @appended row events new hown hseq =>
    obtain ⟨n, hnext, hprior⟩ := h.own row rfl
    have hnew : new.filter (fun e => !e.inherited) = new :=
      List.filter_eq_self.mpr fun e he => by simp [hown e he]
    refine ⟨nofun, ?_, ?_, ?_⟩
    · rintro row' ⟨⟩
      refine ⟨n + new.length, by simp only [RunRow.floor] at hnext ⊢; omega, ?_⟩
      have hstart : row.nextSeq = row.floor + 1 + n := hnext
      rw [List.filter_append, hnew, List.map_append, hprior, hseq, hstart]
      exact List.range'_append_1 ..
    · rintro row' ⟨⟩ e he hinh
      rcases List.mem_append.mp he with he | he
      · exact h.inherited row rfl e he hinh
      · simp [hown e he] at hinh
    · rw [List.map_append, hseq]
      refine List.Nodup.append h.distinct List.nodup_range' fun seq hold hnew => ?_
      obtain ⟨e, he, rfl⟩ := List.mem_map.mp hold
      have hlt := h.lt_next rfl he
      have hge := (List.mem_range'_1.mp hnew).1
      omega
  | @copied row events new hnew hfree hdis =>
    have hown : new.filter (fun e => !e.inherited) = [] :=
      List.filter_eq_nil_iff.mpr fun e he => by simp [(hnew e he).1]
    refine ⟨nofun, ?_, ?_, ?_⟩
    · rintro row' ⟨⟩
      rw [List.filter_append, hown, List.append_nil]
      exact h.own row rfl
    · rintro row' ⟨⟩ e he hinh
      rcases List.mem_append.mp he with he | he
      · exact h.inherited row rfl e he hinh
      · exact (hnew e he).2
    · rw [List.map_append]
      refine List.Nodup.append h.distinct hdis fun seq hold hcopy => ?_
      obtain ⟨e', he', rfl⟩ := List.mem_map.mp hold
      obtain ⟨e, he, hseq⟩ := List.mem_map.mp hcopy
      exact hfree e he e' he' hseq.symm

/-- One call keeps a stream numbered. -/
theorem StreamCell.Sequenced.step {cell cell' : StreamCell} {new : List BusinessEvent}
    (h : cell.Sequenced) (hstep : StreamCell.Step cell new cell') : cell'.Sequenced := by
  cases hstep with
  | kept => exact h
  | @placed row facts new hseq =>
    -- a stream not there yet holds no facts, and starts at its first position
    have hprior : ∃ n, (row.getD {}).nextSeq = 1 + n ∧
        facts.map BusinessEvent.streamSeq = List.range' 1 n := by
      cases row with
      | none => exact ⟨0, rfl, by rw [show facts = [] from h.none rfl]; rfl⟩
      | some row => exact h.placed row rfl
    obtain ⟨n, hnext, hprior⟩ := hprior
    refine ⟨nofun, ?_⟩
    rintro _ ⟨⟩
    refine ⟨n + new.length, by simp only [hnext]; omega, ?_⟩
    rw [List.map_append, hprior, hseq, hnext]
    exact List.range'_append_1 ..

/-- What holds of the committed cells and of the committed rows, in commit order. -/
structure Sequenced (σ : ∀ k, Cell k) (rows : List Row) : Prop where
  run : ∀ r, (runOf σ r).Sequenced
  stream : ∀ s, (streamOf σ s).Sequenced
  events : ∀ r, eventsOf r rows = (runOf σ r).events
  facts : ∀ s, factsOf s rows = (streamOf σ s).facts
  quarantine : ∀ s, ∀ f ∈ (streamOf σ s).facts, ∀ r, f.runId = some r →
    ∃ row, (runOf σ r).row = some row ∧ row.seedFloor.isSome = isForkStream s

theorem RunCell.Step.events (h : RunCell.Step cell new cell') :
    cell'.events = cell.events ++ new := by
  cases h <;> simp

theorem StreamCell.Step.facts {cell cell' : StreamCell} {new : List BusinessEvent}
    (h : StreamCell.Step cell new cell') : cell'.facts = cell.facts ++ new := by
  cases h <;> simp

/-- A run that exists keeps its provenance. -/
theorem RunCell.Step.seedFloor (h : RunCell.Step cell new cell') (hrow : cell.row = some row) :
    ∃ row', cell'.row = some row' ∧ row'.seedFloor = row.seedFloor := by
  cases h with
  | kept => exact ⟨row, hrow, rfl⟩
  | created => cases hrow
  | appended | copied =>
    cases hrow
    exact ⟨_, rfl, rfl⟩

/-- **One statement preserves the invariant.** -/
theorem Sequenced.statement {σ σ' : ∀ k, Cell k} {rows out : List Row}
    (h : Sequenced σ rows) (hrun : call.statement.run σ out σ') : Sequenced σ' (rows ++ out) := by
  obtain ⟨⟨store, store', events, facts, hexec, hlog, hfac, rfl, hcel⟩, hframe⟩ := hrun
  obtain ⟨events', facts', heff⟩ := call.effect hexec
  obtain rfl : events' = events := List.append_cancel_left (heff.log.symm.trans hlog)
  obtain rfl : facts' = facts := List.append_cancel_left (heff.stored.symm.trans hfac)
  -- the step of each run's cell, with the rows it stored
  have runs : ∀ r, RunCell.Step (runOf σ r) (eventsOf r (stored events' facts')) (runOf σ' r) := by
    intro r
    rw [eventsOf_stored]
    by_cases hr : Key.run r ∈ call.keys
    · obtain ⟨hstep, hown⟩ := heff.run r hr
      rw [filter_named hown r, if_pos rfl]
      obtain ⟨hσ, hσ'⟩ := hcel _ hr
      rw [show runOf σ r = store.runCell r from hσ.symm,
        show runOf σ' r = store'.runCell r from hσ'.symm]
      exact hstep
    · have hnone : events'.filter (fun e => e.runId == r) = [] := by
        by_cases hany : ∃ r', Key.run r' ∈ call.keys
        · obtain ⟨r', hr'⟩ := hany
          have hne : r ≠ r' := fun heq => hr (heq ▸ hr')
          rw [filter_named (heff.run r' hr').2 r, if_neg hne]
        · rw [heff.noEvents fun r' hr' => hany ⟨r', hr'⟩, List.filter_nil]
      rw [hnone, show runOf σ' r = runOf σ r from hframe _ hr]
      exact .kept _
  have streams : ∀ s,
      StreamCell.Step (streamOf σ s) (factsOf s (stored events' facts')) (streamOf σ' s) := by
    intro s
    rw [factsOf_stored]
    by_cases hs : Key.stream s ∈ call.keys
    · obtain ⟨hstep, hnam⟩ := heff.stream s hs
      rw [filter_named hnam s, if_pos rfl]
      obtain ⟨hσ, hσ'⟩ := hcel _ hs
      rw [show streamOf σ s = store.streamCell s from hσ.symm,
        show streamOf σ' s = store'.streamCell s from hσ'.symm]
      exact hstep
    · have hnone : facts'.filter (fun f => f.streamId == s) = [] := by
        by_cases hany : ∃ s', Key.stream s' ∈ call.keys
        · obtain ⟨s', hs'⟩ := hany
          have hne : s ≠ s' := fun heq => hs (heq ▸ hs')
          rw [filter_named (heff.stream s' hs').2 s, if_neg hne]
        · rw [heff.noFacts fun s' hs' => hany ⟨s', hs'⟩, List.filter_nil]
      rw [hnone, show streamOf σ' s = streamOf σ s from hframe _ hs]
      exact .kept _
  refine ⟨fun r => (h.run r).step (runs r), fun s => (h.stream s).step (streams s),
    fun r => ?_, fun s => ?_, fun s f hf r hr => ?_⟩
  · rw [(runs r).events, ← h.events r, eventsOf, List.filterMap_append]
    rfl
  · rw [(streams s).facts, ← h.facts s, factsOf, List.filterMap_append]
    rfl
  rw [(streams s).facts] at hf
  rcases List.mem_append.mp hf with hf | hf
  · obtain ⟨row, hrow, hns⟩ := h.quarantine s f hf r hr
    obtain ⟨row', hrow', hfloor⟩ := (runs r).seedFloor hrow
    exact ⟨row', hrow', hfloor ▸ hns⟩
  rw [factsOf_stored, List.mem_filter] at hf
  obtain ⟨hkey, row, hrow, hns⟩ := heff.quarantine f hf.1 r hr
  rw [beq_iff_eq.mp hf.2] at hns
  have hcell : runOf σ' r = store'.runCell r := (hcel _ hkey).2.symm
  exact ⟨row, hcell ▸ hrow, hns⟩

/-- The store in which nothing exists. -/
def emptyCells : ∀ k, Cell k :=
  Store.cells {}

theorem sequenced_empty : Sequenced emptyCells [] where
  run _ := ⟨fun _ => rfl, nofun, nofun, List.nodup_nil⟩
  stream _ := ⟨fun _ => rfl, nofun⟩
  events _ := rfl
  facts _ := rfl
  quarantine _ _ hf := by cases hf

/-- A call a store accepts is a statement on the store's cells. -/
theorem StoreCall.run_of_exec (h : call.exec store = ok store') :
    ∃ out, call.statement.run store.cells out store'.cells := by
  obtain ⟨events, facts, heff⟩ := call.effect h
  exact ⟨stored events facts, ⟨store, store', events, facts, h, heff.log, heff.stored, rfl,
    fun _ _ => ⟨rfl, rfl⟩⟩, heff.frame⟩

/-- The outcome of calls made one after the other on the empty store. -/
def runCalls (calls : List StoreCall) : Except DbError Store :=
  calls.foldlM (fun store call => StoreCall.exec call store) {}

/-- The store after these calls. -/
def Store.after (calls : List StoreCall) : Store :=
  (runCalls calls).toOption.getD {}

/-- Calls a store accepts one after the other can be committed. -/
theorem reachable_of_calls {calls : List StoreCall} (h : (runCalls calls).toOption.isSome = true) :
    ∃ s : Locking.State ℕ Cell Row,
      Locking.Reachable (Set.range StoreCall.statement) emptyCells s ∧
      s.committed = (Store.after calls).cells := by
  cases hrun : runCalls calls with
  | error => simp [hrun, Except.toOption] at h
  | ok store =>
    have hruns : ∃ out, Locking.Runs (Set.range StoreCall.statement) Set.univ emptyCells out
        store.cells := by
      refine Fallible.foldlM_invariant (I := fun store : Store => ∃ out, Locking.Runs
        (Set.range StoreCall.statement) Set.univ emptyCells out store.cells)
        (fun store call store' _ hprior hexec => ?_) ⟨[], .nil⟩ hrun
      obtain ⟨out, hprior⟩ := hprior
      obtain ⟨new, hnew⟩ := StoreCall.run_of_exec hexec
      exact ⟨out ++ new, hprior.snoc ⟨call, rfl⟩ (Set.subset_univ _) hnew⟩
    obtain ⟨out, hruns⟩ := hruns
    have haft : Store.after calls = store := by simp [Store.after, hrun, Except.toOption]
    rw [haft]
    exact ⟨_, Locking.Reachable.committed .refl (fun _ => rfl) 0 hruns, rfl⟩

/-- A run of two events, a fork of it that inherits the first, and one fact in each. -/
def forkedCalls : List StoreCall :=
  [.createRun 1, .appendEvents .engineRole 1 [{ body := .runStart }, { body := .runEnd }],
   .lockForkSource 1, .createForkRun 2 2,
   .copyInheritedEvents 2 [{ body := .runStart, runSeq := 1 }],
   .appendEvents .engineRole 2 [{ body := .runEndSeed }],
   .appendDomainEvents .engineRole 1 "order:7" { body := .budgetCharged } [⟨"paid", .obj []⟩],
   .appendDomainEvents .engineRole 2 "fork:order:7" { body := .budgetCharged }
     [⟨"paid", .obj []⟩, ⟨"sent", .obj []⟩]]

/-- **Sequence integrity.** In every state any interleaving of transactions over these
calls reaches, each ending in a commit or a rollback: the own events of a run, in commit
order, take the positions above its seed floor one after the other, and its inherited
events take none of them; the facts of a stream, in commit order, take the positions from
one on; and a fact of a fork is in a stream of the fork namespace. -/
theorem sequence_integrity {T : Type} [DecidableEq T] {s : Locking.State T Cell Row}
    (h : Locking.Reachable (Set.range StoreCall.statement) emptyCells s) :
    (∀ r row, (runOf s.committed r).row = some row →
      (∃ n, ((eventsOf r s.history).filter fun e => !e.inherited).map Event.runSeq =
        List.range' (row.floor + 1) n) ∧
      ∀ e ∈ eventsOf r s.history, ∀ e' ∈ eventsOf r s.history, e.inherited = true →
        e'.inherited = false → e.runSeq ≠ e'.runSeq) ∧
    (∀ streamId, ∃ n, (factsOf streamId s.history).map BusinessEvent.streamSeq =
      List.range' 1 n) ∧
    ∀ streamId, ∀ f ∈ factsOf streamId s.history, ∀ r row, f.runId = some r →
      (runOf s.committed r).row = some row → row.seedFloor.isSome = true →
      isForkStream streamId = true := by
  have hinv : Sequenced s.committed s.history := by
    refine Locking.invariant_of_statements h sequenced_empty ?_
    rintro _ ⟨_, rfl⟩ σ _ _ σ' hσ hrun
    exact hσ.statement hrun
  refine ⟨fun r row hrow => ?_, fun streamId => ?_, fun streamId f hf r row hr hrow hfork => ?_⟩
  · rw [hinv.events r]
    obtain ⟨n, -, hseq⟩ := (hinv.run r).own row hrow
    refine ⟨⟨n, hseq⟩, fun e he e' he' hinh hown heq => ?_⟩
    have hfloor := ((hinv.run r).inherited row hrow e he hinh).2
    have hmem : e'.runSeq ∈ List.range' (row.floor + 1) n := by
      rw [← hseq]
      exact List.mem_map_of_mem (List.mem_filter.mpr ⟨he', by simp [hown]⟩)
    have habove := (List.mem_range'_1.mp hmem).1
    omega
  · rw [hinv.facts streamId]
    cases hrow : (streamOf s.committed streamId).row with
    | none => exact ⟨0, by rw [(hinv.stream streamId).none hrow]; rfl⟩
    | some row =>
      obtain ⟨n, -, hseq⟩ := (hinv.stream streamId).placed row hrow
      exact ⟨n, hseq⟩
  · rw [hinv.facts streamId] at hf
    obtain ⟨_, hrow', hns⟩ := hinv.quarantine streamId f hf r hr
    obtain rfl := Option.mem_unique hrow hrow'
    rw [← hns, hfork]

/-- The fork of this store numbers its own events above the inherited ones, and its facts
from one. -/
theorem sequence_integrity_forked :
    ∃ s : Locking.State ℕ Cell Row,
      Locking.Reachable (Set.range StoreCall.statement) emptyCells s ∧
      (runOf s.committed 2).row = some ⟨5, some 2⟩ ∧
      (runOf s.committed 2).events.map Event.runSeq = [1, 3, 4] ∧
      (∃ n, ((eventsOf 2 s.history).filter fun e => !e.inherited).map Event.runSeq =
        List.range' 3 n) ∧
      ∃ n, (factsOf "fork:order:7" s.history).map BusinessEvent.streamSeq = List.range' 1 n := by
  have hacc : (runCalls forkedCalls).toOption.isSome = true := by decide +kernel
  obtain ⟨s, hreach, hcells⟩ := reachable_of_calls hacc
  have hrow : (runOf s.committed 2).row = some ⟨5, some 2⟩ := by
    rw [hcells]
    decide +kernel
  have heven : (runOf s.committed 2).events.map Event.runSeq = [1, 3, 4] := by
    rw [hcells]
    decide +kernel
  obtain ⟨hruns, hstr, -⟩ := sequence_integrity hreach
  exact ⟨s, hreach, hrow, heven, (hruns 2 _ hrow).1, hstr _⟩

end Flory
