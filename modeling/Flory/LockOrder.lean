import Flory.Transactions
import Flory.Places
import Mathlib.Data.Prod.Lex

/-!
# One Lock Order

The migrations state one lock order: the scope rows of a run in the order they were opened in,
then the run row, then rows of the work queue. `admit_pivot`, `request_scope_cancel`,
`append_scope_events` and the Engine's transaction keep it. `claim_ready_work` locks the scope of
one candidate after the other, in the order of the queue, and keeps the locks of the candidates it
passes over; `record_attempt_start` stores a row that references the run, which locks the run row
for key share after the queue row. Neither is safe by itself.

The order is kept under a condition on each step:

* the candidates of a claim name scopes in one order, that of `rank` for scopes of different runs
  and the order of opening within a run;
* `append_scope_events` is called for a scope that has its row, with events of that scope;
* the queue row an attempt is recorded under belongs to the run and the scope of the attempt;
* an Engine transaction creates and shadows vertices of its own run (`home` says which is whose),
  and the queued work it shadows belongs to a scope.

This module has the order, the condition, and what holds of the locks of a transaction at each of
its points. `Flory.LockTurns` shows that the transaction's own turns keep it.

## Main results

* `runScopes_sorted`: the scope rows of a run are locked in the order they were opened in.
* `Point.Sound.others`: what holds of the locks of a transaction holds under whatever the others
  commit.
-/

namespace Flory

open RowLocks (Lock covering)

/-- The transactions under way over a database. -/
abbrev LockState : Type :=
  RowLocks.State Lockable Timed Db

/-- A call begins, a transaction takes its next turn, or time passes. -/
abbrev LockAction : Type :=
  RowLocks.Action DbCall ℕ

/-! ### The order of scope rows -/

section Order

variable (rank : RunId → ℕ)

/-- Whether a scope row comes before another: by run, and within a run by opening. -/
def openedBefore (db : Db) (s s' : ScopeId) : Bool :=
  match db.scopes.lookup s, db.scopes.lookup s' with
  | some row, some row' => decide (rank row.runId < rank row'.runId) ||
      (rank row.runId == rank row'.runId && decide (row.openedSeq < row'.openedSeq))
  | _, _ => false

/-- Where a scope row stands in the order. -/
def scopeLevel (db : Db) (s : ScopeId) : ℕ ×ₗ ℕ :=
  match db.scopes.lookup s with
  | some row => toLex (rank row.runId, row.openedSeq)
  | none => toLex (0, 0)

variable {rank} {db db' : Db} {s s' : ScopeId}

/-- The order, row by row. -/
theorem openedBefore_iff : openedBefore rank db s s' = true ↔
    ∃ row row', db.scopes.lookup s = some row ∧ db.scopes.lookup s' = some row' ∧
      (rank row.runId < rank row'.runId ∨
        rank row.runId = rank row'.runId ∧ row.openedSeq < row'.openedSeq) := by
  unfold openedBefore
  cases db.scopes.lookup s with
  | none => simp
  | some =>
    cases db.scopes.lookup s' with
    | none => simp
    | some => simp [Bool.or_eq_true]

/-- Earlier rows stand lower. -/
theorem scopeLevel_lt (h : openedBefore rank db s s' = true) :
    scopeLevel rank db s < scopeLevel rank db s' := by
  obtain ⟨_, _, hrow, hrow', hlt⟩ := openedBefore_iff.mp h
  simp only [scopeLevel, hrow, hrow', Prod.Lex.toLex_lt_toLex]
  exact hlt

/-- The order depends on the places of the scopes only. -/
theorem openedBefore_same (hsame : SamePlaces db db') (h : openedBefore rank db s s' = true) :
    openedBefore rank db' s s' = true := by
  obtain ⟨_, _, hrow, hrow', hlt⟩ := openedBefore_iff.mp h
  obtain ⟨new, hnew, hplace⟩ := hsame.exists_row hrow
  obtain ⟨new', hnew', hplace'⟩ := hsame.exists_row hrow'
  obtain ⟨hrun, hseq⟩ := Prod.mk.inj hplace
  obtain ⟨hrun', hseq'⟩ := Prod.mk.inj hplace'
  refine openedBefore_iff.mpr ⟨new, new', hnew, hnew', ?_⟩
  rw [hrun, hrun', hseq, hseq']
  exact hlt

/-- The scopes of a run are locked in the order. -/
theorem runScopes_sorted (hapart : Apart db) (runId : RunId) :
    ((runScopes db runId).map Prod.fst).Pairwise fun s s' => openedBefore rank db s s' = true := by
  have hperm : (runScopes db runId).Perm (db.scopes.rowsWhere fun _ row => row.runId == runId) :=
    List.perm_insertionSort _ _
  have hnod : ((runScopes db runId).map Prod.fst).Nodup :=
    (hperm.map Prod.fst).nodup_iff.mpr Table.nodup_keys_rowsWhere
  have hsor : (runScopes db runId).Pairwise fun a b => a.2.openedSeq ≤ b.2.openedSeq :=
    List.pairwise_insertionSort _ _
  have hrows : ∀ entry ∈ runScopes db runId,
      db.scopes.lookup entry.1 = some entry.2 ∧ entry.2.runId = runId := by
    intro entry hent
    obtain ⟨hlook, hrun⟩ := Table.mem_rowsWhere.mp (hperm.mem_iff.mp hent)
    exact ⟨hlook, by simpa using hrun⟩
  rw [List.pairwise_map]
  refine (hsor.and (List.pairwise_map.mp hnod)).imp_of_mem fun {a b} ha hb hab => ?_
  obtain ⟨hlook, hrun⟩ := hrows a ha
  obtain ⟨hlook', hrun'⟩ := hrows b hb
  refine openedBefore_iff.mpr ⟨a.2, b.2, hlook, hlook', .inr ⟨by rw [hrun, hrun'], ?_⟩⟩
  refine lt_of_le_of_ne hab.1 fun hseq => hab.2 ?_
  exact hapart a.1 b.1 a.2 b.2 hlook hlook' (Prod.ext (hrun.trans hrun'.symm) hseq)

/-- Every scope row of a run is among them. -/
theorem mem_runScopes {runId : RunId} {row : ScopeRow} (h : db.scopes.lookup s = some row)
    (hrun : row.runId = runId) : s ∈ (runScopes db runId).map Prod.fst := by
  refine List.mem_map.mpr ⟨(s, row), ?_, rfl⟩
  have hperm : (runScopes db runId).Perm (db.scopes.rowsWhere fun _ row => row.runId == runId) :=
    List.perm_insertionSort _ _
  exact hperm.mem_iff.mpr (Table.mem_rowsWhere.mpr ⟨h, by simpa using hrun⟩)

end Order

/-! ### The condition -/

/-- The scope rows the candidates of a claim name, in the order of the candidates. -/
def candidateScopes (db : Db) (rest : List (VertexId × QueueRow)) : List ScopeId :=
  rest.filterMap fun candidate => candidate.2.scopeId.filter fun s =>
    (db.scopeOf candidate.2.runId s).isSome

section Condition

variable (rank : RunId → ℕ) (home : VertexId → RunId)

/-- Whether an insertion stays within its run: the vertices it creates and shadows are the run's,
and the queued work it shadows belongs to a scope. -/
def draftOrderly (db : Db) (runId : RunId) (draft : EventDraft) : Bool :=
  match draft.body with
  | .subgraphShadowed vertexIds => vertexIds.all fun v => home v == runId &&
      (db.queue.lookup v).all fun row => row.scopeId.isSome
  | .vertexCreated _ => draft.vertexId.all fun v => home v == runId
  | _ => true

/-- The condition on a statement. -/
def Point.orderly (db : Db) : Point → Bool
  | .claim _ _ => decide ((candidateScopes db (claimCandidates db)).Pairwise fun s s' =>
    s = s' ∨ openedBefore rank db s s' = true)
  | .attemptLease _ start =>
    start.leaseSource == .cancelMember ||
      (db.queue.lookup start.leaseVertexId).all fun row =>
        row.runId == start.runId && row.scopeId == start.scopeId
  | .insert a => a.rest.head?.all (draftOrderly home db a.runId)
  | _ => true

/-- **The condition on a step**, read on the state before it. -/
def lockOrderly (s : LockState) : LockAction → Bool
  | .start _ (.appendScopeEvents runId scopeId drafts) =>
    (s.db.scopeOf runId scopeId).isSome &&
      drafts.all fun draft => draft.scopeId == none || draft.scopeId == some scopeId
  | .advance t => (s.active.lookup t).all fun txn => !txn.awaited.isEmpty ||
      txn.point.point.orderly rank home { s.db with now := txn.point.began }
  | _ => true

end Condition

/-! ### What a transaction holds -/

/-- Every queue row is of the run its vertex is at home in. -/
def Homed (home : VertexId → RunId) (db : Db) : Prop :=
  ∀ v row, db.queue.lookup v = some row → row.runId = home v

section Holding

variable (rank : RunId → ℕ) (home : VertexId → RunId) (db : Db)

/-- Only scope rows are held, below those still to come, which come in the order. -/
structure Ascending (held : List (Lock Lockable)) (later : List ScopeId) : Prop where
  scopes : ∀ l ∈ held, ∃ s, l = forUpdate (.scope s)
  below : ∀ s, forUpdate (.scope s) ∈ held → ∀ s' ∈ later,
    s = s' ∨ openedBefore rank db s s' = true
  sorted : later.Pairwise fun s s' => s = s' ∨ openedBefore rank db s s' = true

/-- Scope rows are awaited, and then `later` ones. -/
def Collecting (held awaited : List (Lock Lockable)) (later : List ScopeId) : Prop :=
  ∃ pending : List ScopeId, awaited = pending.map (fun s => forUpdate (.scope s)) ∧
    Ascending rank db held (pending ++ later)

/-- The scope of an attempt is locked. -/
def ScopeHeld (locks : List (Lock Lockable)) (start : AttemptStart) : Prop :=
  ∀ s, start.scopeId = some s →
    forUpdate (.scope s) ∈ locks ∧ (db.scopeOf start.runId s).isSome = true

/-- An attempt at its lease row. -/
structure Leasing (held awaited : List (Lock Lockable)) (start : AttemptStart) : Prop where
  scope : ScopeHeld db held start
  lease : ∀ k, start.leaseKey = some k → forUpdate k ∈ held ++ awaited
  holds : ∀ l ∈ held, (∃ s, l = forUpdate (.scope s)) ∨ start.leaseKey.map forUpdate = some l
  waits : ∀ l ∈ awaited, start.leaseKey.map forUpdate = some l

/-- An attempt at the rows it references. -/
structure Recording (held awaited : List (Lock Lockable)) (start : AttemptStart) : Prop where
  scope : ScopeHeld db held start
  lease : ∀ k, start.leaseKey = some k → forUpdate k ∈ held
  holds : ∀ l ∈ held, (∃ s, l = forUpdate (.scope s)) ∨ start.leaseKey.map forUpdate = some l ∨
    l = forKeyShare (.run start.runId)
  waits : ∀ l ∈ awaited, l = forKeyShare (.run start.runId) ∨ covering held l = true
  queue : start.leaseSource = .workQueue → ∃ row,
    db.queue.lookup start.leaseVertexId = some row ∧ row.runId = start.runId ∧
      row.scopeId = start.scopeId

/-- The scope rows that an append can touch are locked: the one scope of the Coordinator's events,
or all scopes of the Engine's run. -/
inductive Secured (locks : List (Lock Lockable)) (a : Appending) : Prop
  | coordinator {s : ScopeId} (hsession : a.session = coordinator)
      (hlock : forUpdate (.scope s) ∈ locks) (hrow : (db.scopeOf a.runId s).isSome = true)
      (hdrafts : ∀ d ∈ a.inserted ++ a.rest, d.scopeId = none ∨ d.scopeId = some s)
      (hwritten : ∀ entry, a.written = some entry → entry.1 = s ∧
        ∃ row, db.scopes.lookup s = some row ∧ entry.2.place = row.place)
  | engine (hsession : a.session = engine)
      (hall : ∀ s row, db.scopes.lookup s = some row → row.runId = a.runId →
        forUpdate (.scope s) ∈ locks)
      (hwritten : a.written = none) (hdequeues : a.dequeues = none)

/-- An append at the run row, or past it. -/
inductive Inserting (held awaited : List (Lock Lockable)) (a : Appending) : Prop
  | waiting (hawaited : awaited = [forUpdate (.run a.runId)])
      (hheld : ∀ l ∈ held, ∃ s, l = forUpdate (.scope s)) (hinserted : a.inserted = [])
  | running (hrun : forUpdate (.run a.runId) ∈ held)
      (hheld : ∀ l ∈ held, (∃ s, l = forUpdate (.scope s)) ∨ l = forUpdate (.run a.runId) ∨
        ∃ v, l = forUpdate (.queue v) ∧ home v = a.runId)
      (hawaited : ∀ l ∈ awaited, covering held l = true ∨ ∃ v row, l = forUpdate (.queue v) ∧
        a.session = engine ∧ home v = a.runId ∧ db.queue.lookup v = some row ∧
          row.scopeId.isSome = true)
      (hshadowed : ∀ d ∈ a.inserted, ∀ v ∈ d.shadowed, home v = a.runId ∧
        (forUpdate (.queue v) ∈ held ++ awaited ∨ db.queue.lookup v = none))
      (hcreated : ∀ d ∈ a.inserted, ∀ v, d.creates v → home v = a.runId)

/-- **What holds of the locks of a transaction at a point.** -/
def Point.Sound (held awaited : List (Lock Lockable)) : Point → Prop
  | .claim _ _ | .attempt _ _ | .cancel _ | .pivot _ _ _ | .engine _ _ => held = [] ∧ awaited = []
  | .scopeAppend runId s drafts => (held = [] ∧ awaited = []) ∧
      (db.scopeOf runId s).isSome = true ∧ ∀ d ∈ drafts, d.scopeId = none ∨ d.scopeId = some s
  | .candidates _ _ rest => awaited = [] ∧ Ascending rank db held (candidateScopes db rest)
  | .candidate _ _ _ _ _ rest => Collecting rank db held awaited (candidateScopes db rest)
  | .claimed _ _ _ rest locked =>
    awaited = [] ∧ (locked = [] → Ascending rank db held (candidateScopes db rest))
  | .attemptScope _ start =>
    Collecting rank db held awaited [] ∧ ScopeHeld db (held ++ awaited) start
  | .attemptLease _ start => Leasing db held awaited start
  | .attemptRow _ start => Recording db held awaited start
  | .cancelScope call => Collecting rank db held awaited [] ∧
      forUpdate (.scope call.scopeId) ∈ held ++ awaited ∧
      (db.scopeOf call.runId call.scopeId).isSome = true
  | .pivotScope runId s _ => Collecting rank db held awaited [] ∧
      forUpdate (.scope s) ∈ held ++ awaited ∧ (db.scopeOf runId s).isSome = true
  | .engineScopes runId _ _ => Collecting rank db held awaited [] ∧
      ∀ s row, db.scopes.lookup s = some row → row.runId = runId →
        forUpdate (.scope s) ∈ held ++ awaited
  | .append a => Collecting rank db held awaited [] ∧ Secured db (held ++ awaited) a ∧
      a.inserted = []
  | .insert a => Secured db held a ∧ Inserting home db held awaited a
  | .dequeue a locked => (awaited = [] ∧ Secured db held a ∧ Inserting home db held [] a) ∧
      ∀ k ∈ locked, ∃ v, k = .queue v ∧ forUpdate k ∈ held ∧ home v = a.runId

end Holding

/-! ### What the others do -/

/-- The run and the scope of queued work. -/
def QueueRow.owner (row : QueueRow) : RunId × Option ScopeId :=
  (row.runId, row.scopeId)

/-- What a transaction that holds these locks may do to the database: it moves no scope, and queued
work comes, goes or changes owner only under the lock of the run it is at home in, and once it is
there only under its own lock too. -/
structure Guarantee (home : VertexId → RunId) (held : List (Lock Lockable)) (db db' : Db) : Prop where
  scopes : SamePlaces db db'
  queue : ∀ v, (db'.queue.lookup v).map QueueRow.owner = (db.queue.lookup v).map QueueRow.owner ∨
    (forUpdate (.run (home v)) ∈ held ∧ (db.queue.lookup v = none ∨ forUpdate (.queue v) ∈ held))
  homed : Homed home db → Homed home db'

section Others

variable {rank : RunId → ℕ} {home : VertexId → RunId} {db db' : Db}
  {held awaited other : List (Lock Lockable)}

theorem Guarantee.of_eq (hscop : db'.scopes = db.scopes) (hqueue : db'.queue = db.queue) :
    Guarantee home held db db' :=
  ⟨.of_eq hscop, fun v => .inl (by rw [hqueue]), fun h v row hrow => h v row (hqueue ▸ hrow)⟩

/-- A write of a scope row over one at the same place. -/
theorem Guarantee.setScope {s : ScopeId} {row row' : ScopeRow}
    (hrow : db.scopes.lookup s = some row) (hplace : row'.place = row.place) :
    Guarantee home held db (db.setScope s row') :=
  ⟨.setScope hrow hplace, fun _ => .inl rfl, fun h => h⟩

/-- Two transactions hold no conflicting locks. -/
def NoConflict (held other : List (Lock Lockable)) : Prop :=
  ∀ l ∈ held, ∀ l' ∈ other, l.row = l'.row → l.mode.conflicts l'.mode = false

theorem NoConflict.not_mem (h : NoConflict held other) {row : Lockable}
    (hmem : forUpdate row ∈ held) : forUpdate row ∉ other :=
  fun hoth => Bool.noConfusion (h _ hmem _ hoth rfl)

/-- The owner of a row stays while its lock is held. -/
theorem Guarantee.owner (h : Guarantee home other db db') (hclear : NoConflict held other)
    {v : VertexId} {row : QueueRow} (hrow : db.queue.lookup v = some row)
    (hlock : forUpdate (.queue v) ∈ held ∨ forUpdate (.run (home v)) ∈ held) :
    ∃ row', db'.queue.lookup v = some row' ∧ row'.owner = row.owner := by
  rcases h.queue v with hsame | ⟨hrun, hnone | hqueue⟩
  · rw [hrow, Option.map_some] at hsame
    exact Option.map_eq_some_iff.mp hsame
  · rw [hrow] at hnone
    cases hnone
  rcases hlock with hlock | hlock
  · exact absurd hqueue (hclear.not_mem hlock)
  · exact absurd hrun (hclear.not_mem hlock)

/-- No work of a run appears while the run is locked. -/
theorem Guarantee.absent (h : Guarantee home other db db') (hclear : NoConflict held other)
    {v : VertexId} (hnone : db.queue.lookup v = none)
    (hlock : forUpdate (.run (home v)) ∈ held) : db'.queue.lookup v = none := by
  rcases h.queue v with hsame | ⟨hrun, -⟩
  · rw [hnone, Option.map_none, Option.map_eq_none_iff] at hsame
    exact hsame
  · exact absurd hrun (hclear.not_mem hlock)

theorem candidateScopes_same (h : SamePlaces db db') (rest : List (VertexId × QueueRow)) :
    candidateScopes db' rest = candidateScopes db rest := by
  unfold candidateScopes
  simp only [h.scopeOf_isSome]

/-- Held scopes stay below those to come. -/
theorem Ascending.same {later : List ScopeId} (h : Ascending rank db held later)
    (hsame : SamePlaces db db') : Ascending rank db' held later where
  scopes := h.scopes
  below s hs s' hs' := (h.below s hs s' hs').imp_right (openedBefore_same hsame)
  sorted := h.sorted.imp fun hss' => hss'.imp_right (openedBefore_same hsame)

/-- Awaited scopes stay in order. -/
theorem Collecting.same {later : List ScopeId} (h : Collecting rank db held awaited later)
    (hsame : SamePlaces db db') : Collecting rank db' held awaited later := by
  obtain ⟨pending, hawait, hasc⟩ := h
  exact ⟨pending, hawait, hasc.same hsame⟩

theorem ScopeHeld.same {start : AttemptStart} (h : ScopeHeld db held start)
    (hsame : SamePlaces db db') : ScopeHeld db' held start :=
  fun s hs => ⟨(h s hs).1, by rw [hsame.scopeOf_isSome]; exact (h s hs).2⟩

/-- An append stays secured. -/
theorem Secured.same {a : Appending} (h : Secured db held a) (hsame : SamePlaces db db') :
    Secured db' held a := by
  cases h with
  | coordinator hses hlock hrow hdraf hwrit =>
    refine .coordinator hses hlock (by rw [hsame.scopeOf_isSome]; exact hrow) hdraf ?_
    intro entry hent
    obtain ⟨hs, row, hlook, hplace⟩ := hwrit entry hent
    obtain ⟨row', hlook', hplace'⟩ := hsame.exists_row hlook
    exact ⟨hs, row', hlook', hplace.trans hplace'.symm⟩
  | engine hses hall hwrit hdeq =>
    refine .engine hses (fun s row' hrow' hrun => ?_) hwrit hdeq
    obtain ⟨row, hrow, hplace⟩ := hsame.exists_row_before hrow'
    exact hall s row hrow ((congrArg Prod.fst hplace).trans hrun)

/-- An append keeps what it knows of the queue. -/
theorem Inserting.others {a : Appending} (h : Inserting home db held awaited a)
    (hoth : Guarantee home other db db') (hclear : NoConflict held other) :
    Inserting home db' held awaited a := by
  cases h with
  | waiting hawait hheld hins => exact .waiting hawait hheld hins
  | running hrun hheld hawait hshad hcreat =>
    refine .running hrun hheld (fun l hl => ?_) (fun d hd v hv => ?_) hcreat
    · rcases hawait l hl with hcov | ⟨v, row, hl, hses, hhome, hrow, hscope⟩
      · exact .inl hcov
      obtain ⟨row', hrow', hown⟩ := hoth.owner hclear hrow (.inr (hhome ▸ hrun))
      refine .inr ⟨v, row', hl, hses, hhome, hrow', ?_⟩
      rw [show row'.scopeId = row.scopeId from congrArg Prod.snd hown]
      exact hscope
    · obtain ⟨hhome, hlock⟩ := hshad d hd v hv
      exact ⟨hhome, hlock.imp_right fun hnone => hoth.absent hclear hnone (hhome ▸ hrun)⟩

/-- **What holds of the locks of a transaction holds under whatever the others commit.** -/
theorem Point.Sound.others {p : Point} (h : p.Sound rank home db held awaited)
    (hoth : Guarantee home other db db') (hclear : NoConflict held other) :
    p.Sound rank home db' held awaited := by
  have hsame := hoth.scopes
  cases p with
  | claim | attempt | cancel | pivot | engine => exact h
  | scopeAppend =>
    exact ⟨h.1, by rw [hsame.scopeOf_isSome]; exact h.2.1, h.2.2⟩
  | candidates =>
    exact ⟨h.1, by rw [candidateScopes_same hsame]; exact h.2.same hsame⟩
  | candidate =>
    change Collecting rank db' held awaited _
    rw [candidateScopes_same hsame]
    exact Collecting.same h hsame
  | claimed =>
    exact ⟨h.1, fun hnil => by rw [candidateScopes_same hsame]; exact (h.2 hnil).same hsame⟩
  | attemptScope => exact ⟨h.1.same hsame, h.2.same hsame⟩
  | attemptLease =>
    exact ⟨ScopeHeld.same h.scope hsame, h.lease, h.holds, h.waits⟩
  | attemptRow worker start =>
    refine ⟨ScopeHeld.same h.scope hsame, h.lease, h.holds, h.waits, fun hsour => ?_⟩
    obtain ⟨row, hrow, hrun, hscope⟩ := h.queue hsour
    have hlock : forUpdate (.queue start.leaseVertexId) ∈ held :=
      h.lease _ (by rw [AttemptStart.leaseKey, hsour])
    obtain ⟨row', hrow', hown⟩ := hoth.owner hclear hrow (.inl hlock)
    obtain ⟨hrun', hscope'⟩ := Prod.mk.inj hown
    exact ⟨row', hrow', hrun'.trans hrun, hscope'.trans hscope⟩
  | cancelScope | pivotScope =>
    exact ⟨h.1.same hsame, h.2.1, by rw [hsame.scopeOf_isSome]; exact h.2.2⟩
  | engineScopes =>
    refine ⟨h.1.same hsame, fun s row' hrow' hrun => ?_⟩
    obtain ⟨row, hrow, hplace⟩ := hsame.exists_row_before hrow'
    exact h.2 s row hrow ((congrArg Prod.fst hplace).trans hrun)
  | append => exact ⟨h.1.same hsame, h.2.1.same hsame, h.2.2⟩
  | insert => exact ⟨h.1.same hsame, h.2.others hoth hclear⟩
  | dequeue =>
    exact ⟨⟨h.1.1, h.1.2.1.same hsame, h.1.2.2.others hoth hclear⟩, h.2⟩

end Others

end Flory
