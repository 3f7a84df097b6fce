import Flory.LockTurns

/-!
# Deadlocks

The six transactions under the condition of `Flory.LockOrder` take their locks in one order and
never wait for each other in a cycle. Without it they do, in two ways:

* a claim passes over a candidate and keeps its scope locked while it waits for the scope of the
  next candidate, which was opened earlier; an Engine transaction holds that one and waits for the
  first;
* an attempt outside of every scope holds its queue row and waits for the run row, which the row
  of its attempt references; an Engine transaction that shadows the vertex holds the run row and
  waits for the queue row.

A transaction that waits is in one of five situations (`Waiting`). They are ranked: scope rows by
the order of the scopes, then lease rows, then run rows, then queued work to be shadowed. A
transaction that holds what another waits for, and waits itself, waits for something ranked higher.

## Main results

* `Waiting.climbs`: waits climb.
* `row_locks_ordered`: **one lock order, no deadlock**, in every run under the condition.
* `claims_deadlock`: the first of the two deadlocks.
-/

namespace Flory

open RowLocks (Lock Transaction covering conflicting)

variable {db : Db} {awaited : List (Lock Lockable)}

/-! ### Waiting -/

section Waiting

variable (rank : RunId → ℕ) (home : VertexId → RunId) (db : Db)

/-- How high a wait for a row is ranked. -/
def Point.waitLevel : Point → Lockable → ℕ ×ₗ (ℕ ×ₗ ℕ)
  | _, .scope s => toLex (0, scopeLevel rank db s)
  | _, .run _ => toLex (2, toLex (0, 0))
  | .attemptLease _ _, _ => toLex (1, toLex (0, 0))
  | _, _ => toLex (3, toLex (0, 0))

/-- **What a transaction that waits holds**, by what it waits for and how high that is ranked. -/
inductive Waiting (held : List (Lock Lockable)) : Lock Lockable → ℕ ×ₗ (ℕ ×ₗ ℕ) → Prop
  | scope {s : ScopeId} (hheld : ∀ l ∈ held, ∃ s', l = forUpdate (.scope s') ∧
      openedBefore rank db s' s = true) :
      Waiting held (forUpdate (.scope s)) (toLex (0, scopeLevel rank db s))
  | lease {start : AttemptStart} {k : Lockable} (hkey : start.leaseKey = some k)
      (hheld : ∀ l ∈ held, ∃ s, l = forUpdate (.scope s)) :
      Waiting held (forUpdate k) (toLex (1, toLex (0, 0)))
  | reference {start : AttemptStart} {rest : List (Lock Lockable)}
      (hrecording : Recording db held (forKeyShare (.run start.runId) :: rest) start)
      (hnew : forKeyShare (.run start.runId) ∉ held) :
      Waiting held (forKeyShare (.run start.runId)) (toLex (2, toLex (0, 0)))
  | run {runId : RunId} (hheld : ∀ l ∈ held, ∃ s, l = forUpdate (.scope s)) :
      Waiting held (forUpdate (.run runId)) (toLex (2, toLex (0, 0)))
  | queue {runId : RunId} {v : VertexId} {row : QueueRow}
      (hrun : forUpdate (.run runId) ∈ held)
      (hheld : ∀ l ∈ held, (∃ s, l = forUpdate (.scope s)) ∨ l = forUpdate (.run runId) ∨
        ∃ v, l = forUpdate (.queue v) ∧ home v = runId)
      (hall : ∀ s row, db.scopes.lookup s = some row → row.runId = runId →
        forUpdate (.scope s) ∈ held)
      (hhome : home v = runId) (hrow : db.queue.lookup v = some row)
      (hscope : row.scopeId.isSome = true) :
      Waiting held (forUpdate (.queue v)) (toLex (3, toLex (0, 0)))

end Waiting

variable {p : Point}

section Climbing

variable {rank : RunId → ℕ} {home : VertexId → RunId} {held held' rest : List (Lock Lockable)}
  {wanted wanted' : Lock Lockable} {level level' : ℕ ×ₗ (ℕ ×ₗ ℕ)}

theorem not_mem_of_not_covering (h : covering held wanted = false) : wanted ∉ held :=
  fun hmem => Bool.noConfusion ((RowLocks.covering_of_mem hmem).symm.trans h)

/-- A transaction that collects scope rows waits for the next one. -/
theorem Collecting.waiting {later : List ScopeId}
    (h : Collecting rank db held (wanted :: rest) later) (hnew : covering held wanted = false)
    (p : Point) : Waiting rank home db held wanted (p.waitLevel rank db wanted.row) := by
  obtain ⟨pending, hawait, hasc⟩ := h
  cases pending with
  | nil => cases hawait
  | cons s =>
    obtain ⟨rfl, -⟩ := List.cons.inj hawait
    have hlev : p.waitLevel rank db (forUpdate (.scope s)).row =
        toLex (0, scopeLevel rank db s) := by
      cases p <;> rfl
    rw [hlev]
    refine .scope fun l hl => ?_
    obtain ⟨s', rfl⟩ := hasc.scopes l hl
    refine ⟨s', rfl, ?_⟩
    rcases hasc.below s' hl s List.mem_cons_self with rfl | hbef
    · exact absurd hl (not_mem_of_not_covering hnew)
    · exact hbef

/-- **A transaction that waits is in one of the situations.** -/
theorem Point.Sound.waiting (h : p.Sound rank home db held (wanted :: rest))
    (hnew : covering held wanted = false) :
    Waiting rank home db held wanted (p.waitLevel rank db wanted.row) := by
  cases p with
  | claim | attempt | cancel | pivot | engine => cases h.2
  | scopeAppend => cases h.1.2
  | candidates | claimed => cases h.1
  | candidate => exact Collecting.waiting h hnew _
  | attemptScope | cancelScope | pivotScope | engineScopes | append => exact h.1.waiting hnew _
  | attemptLease worker start =>
    obtain ⟨k, hkey, rfl⟩ := Option.map_eq_some_iff.mp (h.waits wanted List.mem_cons_self)
    have hheld : ∀ l ∈ held, ∃ s, l = forUpdate (.scope s) := by
      intro l hl
      rcases h.holds l hl with hscope | hlease
      · exact hscope
      · rw [hkey, Option.map_some, Option.some.injEq] at hlease
        exact absurd (hlease ▸ hl) (not_mem_of_not_covering hnew)
    have hlev : (Point.attemptLease worker start).waitLevel rank db (forUpdate k).row =
        toLex (1, toLex (0, 0)) := by
      unfold AttemptStart.leaseKey at hkey
      split at hkey
      · cases hkey
        rfl
      · obtain ⟨s, -, rfl⟩ := Option.map_eq_some_iff.mp hkey
        rfl
    rw [hlev]
    exact .lease hkey hheld
  | attemptRow =>
    rcases h.waits wanted List.mem_cons_self with rfl | hcov
    · exact .reference h (not_mem_of_not_covering hnew)
    · rw [hnew] at hcov
      cases hcov
  | insert =>
    obtain ⟨hsec, hins⟩ := h
    cases hins with
    | waiting hawait hheld =>
      obtain ⟨rfl, -⟩ := List.cons.inj hawait
      exact .run hheld
    | running hrun hheld hawait =>
      rcases hawait wanted List.mem_cons_self with
        hcov | ⟨v, row, rfl, hses, hhome, hrow, hscope⟩
      · rw [hnew] at hcov
        cases hcov
      cases hsec with
      | coordinator hcoor =>
        rw [hcoor] at hses
        cases hses
      | engine _ hall => exact .queue hrun hheld hall hhome hrow hscope
  | dequeue => cases h.1.1

theorem stage_lt {i j : ℕ} (h : i < j) (x y : ℕ ×ₗ ℕ) :
    (toLex (i, x) : ℕ ×ₗ (ℕ ×ₗ ℕ)) < toLex (j, y) :=
  Prod.Lex.toLex_lt_toLex.mpr (.inl h)

variable {start : AttemptStart}

/-- The lease row of an attempt is no scope row and no run row. -/
theorem AttemptStart.leaseKey_cases {k : Lockable} (h : start.leaseKey = some k) :
    (start.leaseSource = .workQueue ∧ k = .queue start.leaseVertexId) ∨ ∃ key, k = .member key := by
  unfold leaseKey at h
  split at h
  · rename_i hsour
    exact .inl ⟨hsour, (Option.some.inj h).symm⟩
  · obtain ⟨s, -, rfl⟩ := Option.map_eq_some_iff.mp h
    exact .inr ⟨_, rfl⟩

/-- An attempt that references its run does not hold queued work that the Engine shadows: it would
hold the scope of the work, which the Engine has locked. -/
theorem Recording.not_shadowed (h : Recording db held' awaited start)
    (hclear : NoConflict held held') {runId : RunId} {v : VertexId} {row : QueueRow}
    (hhom : Homed home db)
    (hall : ∀ s row, db.scopes.lookup s = some row → row.runId = runId → forUpdate (.scope s) ∈ held)
    (hhome : home v = runId) (hrow : db.queue.lookup v = some row)
    (hscope : row.scopeId.isSome = true) (hkey : start.leaseKey = some (.queue v)) : False := by
  rcases AttemptStart.leaseKey_cases hkey with ⟨hsour, hv⟩ | ⟨key, hmem⟩
  · cases hv
    obtain ⟨_, hrow', hrun, hsame⟩ := h.queue hsour
    obtain rfl := Option.mem_unique hrow hrow'
    obtain ⟨s, hs⟩ := Option.isSome_iff_exists.mp hscope
    obtain ⟨hlock, hrowOf⟩ := h.scope s (hsame.symm.trans hs)
    obtain ⟨scope, hscop⟩ := Option.isSome_iff_exists.mp hrowOf
    obtain ⟨hlook, hof⟩ := Db.scopeOf_eq_some_iff.mp hscop
    have hrunId : scope.runId = runId := by
      rw [hof, ← hrun, hhom _ row hrow, hhome]
    exact hclear.not_mem (hall s scope hlook hrunId) hlock
  · cases hmem

/-- A lock on the run row that an attempt holds is its reference. -/
theorem Recording.holds_run (h : Recording db held awaited start)
    {l : Lock Lockable} (hl : l ∈ held) {runId : RunId} (hrow : l.row = .run runId) :
    l = forKeyShare (.run start.runId) := by
  rcases h.holds l hl with ⟨s, rfl⟩ | hlease | rfl
  · cases hrow
  · obtain ⟨k, hkey, rfl⟩ := Option.map_eq_some_iff.mp hlease
    rcases AttemptStart.leaseKey_cases hkey with ⟨-, rfl⟩ | ⟨key, rfl⟩ <;> cases hrow
  · rfl

/-- The level of a wait for a scope row. -/
theorem Waiting.level_eq (h : Waiting rank home db held wanted level) {s : ScopeId}
    (hs : wanted.row = .scope s) : level = toLex (0, scopeLevel rank db s) := by
  cases h with
  | scope =>
    cases hs
    rfl
  | lease hkey => rcases AttemptStart.leaseKey_cases hkey with ⟨-, rfl⟩ | ⟨key, rfl⟩ <;> cases hs
  | reference | run | queue => cases hs

/-- **Waits climb**: a transaction that holds what another waits for, and waits itself, waits for
something ranked higher. -/
theorem Waiting.climbs (h : Waiting rank home db held wanted level)
    (h' : Waiting rank home db held' wanted' level') (hcon : conflicting held' wanted = true)
    (hclear : NoConflict held held') (hhom : Homed home db) : level < level' := by
  obtain ⟨l, hl, hrow, hmode⟩ := RowLocks.conflicting_iff.mp hcon
  cases h' with
  | scope hheld' =>
    obtain ⟨s, rfl, hbef⟩ := hheld' l hl
    rw [h.level_eq hrow.symm]
    exact Prod.Lex.toLex_lt_toLex.mpr (.inr ⟨rfl, scopeLevel_lt hbef⟩)
  | lease _ hheld' | run hheld' =>
    obtain ⟨s, rfl⟩ := hheld' l hl
    rw [h.level_eq hrow.symm]
    exact stage_lt (by decide) _ _
  | reference hrec hnew =>
    cases h with
    | scope | lease => exact stage_lt (by decide) _ _
    | reference =>
      -- two attempts reference one run without conflict
      obtain rfl := hrec.holds_run hl hrow
      cases hmode
    | run =>
      -- an attempt has only its own run to reference, and does not wait once it holds it
      obtain rfl := hrec.holds_run hl hrow
      exact absurd hl hnew
    | queue _ _ hall hhome hqueue hscope =>
      rcases hrec.holds l hl with ⟨s, rfl⟩ | hlease | rfl
      · cases hrow
      · obtain ⟨k, hkey, rfl⟩ := Option.map_eq_some_iff.mp hlease
        cases hrow
        exact (hrec.not_shadowed hclear hhom hall hhome hqueue hscope hkey).elim
      · cases hrow
  | queue hrun' hheld' =>
    cases h with
    | scope | lease | reference | run => exact stage_lt (by decide) _ _
    | queue hrun _ _ hhome =>
      -- both have locked the run the work is at home in
      rcases hheld' l hl with ⟨s, rfl⟩ | rfl | ⟨v', rfl, hhome'⟩
      · cases hrow
      · cases hrow
      cases hrow
      rw [hhome.symm.trans hhome'] at hrun
      exact absurd hrun' (hclear.not_mem hrun)

end Climbing

/-! ### The order of the locks held -/

section Sorted

variable (rank : RunId → ℕ) (db : Db)

/-- The lock order: scope rows as they were opened, then the run row, then queued work or the
member of a cancellation. -/
def lockBefore : Lockable → Lockable → Prop
  | .scope s, .scope s' => openedBefore rank db s s' = true
  | .scope _, _ => True
  | .run _, .queue _ => True
  | .queue _, .queue _ => True
  | _, _ => False

/-- **In order**: the locks for update, the last one first, were taken in the lock order. -/
def LockOrdered (held : List (Lock Lockable)) : Prop :=
  held.Pairwise fun later earlier => later.mode = .update → earlier.mode = .update →
    lockBefore rank db earlier.row later.row

variable {rank db} {home : VertexId → RunId} {held : List (Lock Lockable)}
  {wanted : Lock Lockable} {level : ℕ ×ₗ (ℕ ×ₗ ℕ)}

/-- The next lock comes after those held. -/
theorem Waiting.ordered (h : Waiting rank home db held wanted level)
    (hord : LockOrdered rank db held) : LockOrdered rank db (wanted :: held) := by
  refine List.pairwise_cons.mpr ⟨fun l hl hwan _ => ?_, hord⟩
  cases h with
  | scope hheld =>
    obtain ⟨s', rfl, hbef⟩ := hheld l hl
    exact hbef
  | lease hkey hheld =>
    obtain ⟨s, rfl⟩ := hheld l hl
    rcases AttemptStart.leaseKey_cases hkey with ⟨-, rfl⟩ | ⟨key, rfl⟩ <;> trivial
  | reference => cases hwan
  | run hheld =>
    obtain ⟨s, rfl⟩ := hheld l hl
    trivial
  | queue _ hheld =>
    rcases hheld l hl with ⟨s, rfl⟩ | rfl | ⟨v, rfl, -⟩ <;> trivial

/-- The rows taken where nobody waits come last. -/
theorem LockOrdered.skipped {free : List Lockable} (hord : LockOrdered rank db held)
    (hfree : ∀ k ∈ free, ∃ v, k = .queue v)
    (hheld : ∀ l ∈ held, (∃ s, l = forUpdate (.scope s)) ∨ (∃ r, l = forUpdate (.run r)) ∨
      ∃ v, l = forUpdate (.queue v)) : LockOrdered rank db (free.map (⟨·, .update⟩) ++ held) := by
  refine List.pairwise_append.mpr ⟨?_, hord, fun l hl l' hl' _ _ => ?_⟩
  · rw [List.pairwise_map]
    refine List.Pairwise.imp_of_mem (fun {k k'} hk hk' _ _ _ => ?_)
      (List.pairwise_of_forall (R := fun _ _ => True) fun _ _ => trivial)
    obtain ⟨v, rfl⟩ := hfree k hk
    obtain ⟨v', rfl⟩ := hfree k' hk'
    trivial
  · obtain ⟨k, hk, rfl⟩ := List.mem_map.mp hl
    obtain ⟨v, rfl⟩ := hfree k hk
    rcases hheld l' hl' with ⟨s, rfl⟩ | ⟨r, rfl⟩ | ⟨v', rfl⟩ <;> trivial

/-- Scopes that stay in their places keep the locks in order. -/
theorem LockOrdered.same {db' : Db} (h : LockOrdered rank db held) (hsame : SamePlaces db db') :
    LockOrdered rank db' held := by
  refine h.imp fun {l l'} hbef hl hl' => ?_
  have hold := hbef hl hl'
  revert hold
  cases l'.row with
  | scope =>
    cases l.row with
    | scope => exact openedBefore_same hsame
    | run | queue | member => exact id
  | run | queue | member => cases l.row <;> exact id

end Sorted

/-! ### Every run -/

section Runs

variable {rank : RunId → ℕ} {home : VertexId → RunId} {s s' : LockState}

/-- What holds of a transaction under way. -/
def InOrder (rank : RunId → ℕ) (home : VertexId → RunId) (db : Db)
    (txn : Transaction Lockable Timed) : Prop :=
  txn.point.point.Sound rank home db txn.held txn.awaited ∧ LockOrdered rank db txn.held

/-- What holds of the system. -/
structure Orderly (rank : RunId → ℕ) (home : VertexId → RunId) (s : LockState) : Prop where
  exclusive : RowLocks.Exclusive s
  apart : Apart s.db
  homed : Homed home s.db
  all : s.All (InOrder rank home)

/-- What holds of the locks depends on scopes and queue only. -/
theorem sound_congr {db' : Db} {held : List (Lock Lockable)}
    (h : p.Sound rank home db held awaited) (hscop : db'.scopes = db.scopes)
    (hqueue : db'.queue = db.queue) : p.Sound rank home db' held awaited := by
  have hnone : NoConflict held [] := fun _ _ _ hl' => absurd hl' List.not_mem_nil
  exact h.others (.of_eq hscop hqueue) hnone

theorem sound_at {held : List (Lock Lockable)} (began : Time)
    (h : p.Sound rank home db held awaited) :
    p.Sound rank home { db with now := began } held awaited :=
  sound_congr h rfl rfl

variable {t : ℕ}

/-- The point a call begins at. -/
theorem sound_start {call : DbCall} (h : lockOrderly rank home s (.start t call) = true) :
    call.point.Sound rank home s.db [] [] := by
  cases call with
  | appendScopeEvents =>
    simp only [lockOrderly, Bool.and_eq_true, List.all_eq_true, Bool.or_eq_true, beq_iff_eq] at h
    exact ⟨⟨rfl, rfl⟩, h.1, h.2⟩
  | _ => exact ⟨rfl, rfl⟩

section

variable {txn : Transaction Lockable Timed} (h : InOrder rank home s.db txn)
  (horderly : Orderly rank home s) (htxn : s.active.lookup t = some txn)
  (hcondition : lockOrderly rank home s (.advance t) = true)

include h horderly htxn hcondition

/-- What the next statement of a transaction in order leads to. -/
theorem InOrder.follows (hawait : txn.awaited = []) :
    Follows rank home { s.db with now := txn.point.began } txn.held
      (txn.point.point.statement { s.db with now := txn.point.began }) := by
  have hsound := h.1
  rw [hawait] at hsound
  simp only [lockOrderly, htxn, Option.all_some, hawait, List.isEmpty_nil, Bool.not_true,
    Bool.false_or] at hcondition
  exact (sound_at txn.point.began hsound).statement hcondition (horderly.apart.same (.of_eq rfl))
    horderly.homed

/-- A turn keeps a transaction in order. -/
theorem InOrder.turn {txn' : Transaction Lockable Timed}
    (hturn : RowLocks.Turn lockCode s t txn txn') : InOrder rank home s.db txn' := by
  have hfol := h.follows horderly htxn hcondition
  obtain ⟨hsound, hord⟩ := h
  cases hturn with
  | regained hawait hcov =>
    rw [hawait] at hsound
    exact ⟨hsound.takes (.regained hcov), hord⟩
  | granted hawait hnew =>
    rw [hawait] at hsound
    exact ⟨hsound.takes (.granted hnew), (hsound.waiting hnew).ordered hord⟩
  | stated hawait hcode =>
    obtain ⟨p, hstat, rfl⟩ := Timed.statement_lock hcode
    have hnext := hfol hawait
    rw [hstat] at hnext
    exact ⟨sound_congr hnext rfl rfl, hord⟩
  | skipped hawait hcode =>
    obtain ⟨_, hstat, rfl⟩ := Timed.statement_skipLocked hcode
    have hnext := hfol hawait
    rw [hstat] at hnext
    obtain ⟨hrows, hheld, hnext⟩ := hnext
    have hfree : ∀ rows, ∀ k ∈ s.free t rows, k ∈ rows := fun rows k hk => List.mem_of_mem_filter hk
    exact ⟨sound_congr (hnext _ (hfree _)) rfl rfl,
      hord.skipped (fun k hk => hrows k (hfree _ k hk)) hheld⟩

/-- What a transaction writes at its end it may write under its locks. -/
theorem InOrder.write {write : Db → Db} (hawait : txn.awaited = [])
    (hcode : lockCode.statement txn.point s.db = .finish write) :
    Guarantee home txn.held s.db (write s.db) := by
  obtain ⟨_, hstat, rfl⟩ := Timed.statement_finish hcode
  have hwrite := h.follows horderly htxn hcondition hawait
  rw [hstat] at hwrite
  exact ⟨hwrite.scopes, hwrite.queue, hwrite.homed⟩

end

/-- **Every step keeps the system in order.** -/
theorem Orderly.moves {a : LockAction} (h : Orderly rank home s)
    (hcondition : lockOrderly rank home s a = true) (hmov : RowLocks.Moves lockCode s a s') :
    Orderly rank home s' := by
  have hexc := h.exclusive.moves hmov
  have hall : s'.All (InOrder rank home) := by
    refine hmov.all h.all (fun t call ha => ?_) (fun t txn txn' ha htxn hin hturn => ?_)
      (fun t txn write u other ha htxn hawait hcode hne hoth hin => ?_) (fun e txn hin => ?_)
    · subst ha
      exact ⟨sound_start hcondition, List.Pairwise.nil⟩
    · subst ha
      exact hin.turn h htxn hcondition hturn
    · subst ha
      have hwrite := (h.all t txn htxn).write h htxn hcondition hawait hcode
      exact ⟨hin.1.others hwrite (h.exclusive u t other txn hoth htxn hne),
        hin.2.same hwrite.scopes⟩
    · exact ⟨sound_congr hin.1 rfl rfl, hin.2.same (.of_eq rfl)⟩
  cases hmov with
  | started | turned => exact ⟨hexc, h.apart, h.homed, hall⟩
  | finished htxn hawait hcode =>
    have hwrite := (h.all _ _ htxn).write h htxn hcondition hawait hcode
    exact ⟨hexc, h.apart.same hwrite.scopes, hwrite.homed h.homed, hall⟩
  | changed => exact ⟨hexc, h.apart.same (.of_eq rfl), h.homed, hall⟩

/-- The system in order is not deadlocked. -/
theorem Orderly.not_deadlocked (h : Orderly rank home s) : ¬ s.Deadlocked := by
  -- whatever is awaited and in another's way is not covered by locks of one's own
  have hwaiting : ∀ t u, s.waits t u = true → ∃ txn wanted rest other,
      s.active.lookup t = some txn ∧ txn.awaited = wanted :: rest ∧
      s.active.lookup u = some other ∧ conflicting other.held wanted = true ∧ t ≠ u ∧
      Waiting rank home s.db txn.held wanted
        (txn.point.point.waitLevel rank s.db wanted.row) := by
    intro t u hwaits
    obtain ⟨hne, txn, wanted, rest, other, htxn, hawait, hoth, hcon⟩ :=
      RowLocks.State.waits_iff.mp hwaits
    have hsound := (h.all t txn htxn).1
    rw [hawait] at hsound
    refine ⟨txn, wanted, rest, other, htxn, hawait, hoth, hcon, hne, hsound.waiting ?_⟩
    rw [Bool.eq_false_iff]
    intro hcov
    obtain ⟨l, hl, hrow, hcover⟩ := RowLocks.covering_iff.mp hcov
    obtain ⟨l', hl', hrow', hmode⟩ := RowLocks.conflicting_iff.mp hcon
    have hclear := h.exclusive u t other txn hoth htxn (Ne.symm hne) l' hl' l hl
      (hrow'.trans hrow.symm)
    rw [RowLocks.Mode.conflicts_of_covers hcover hmode] at hclear
    cases hclear
  refine RowLocks.not_deadlocked_of_level (fun t => (s.active.lookup t).elim (toLex (0, toLex (0, 0)))
    fun txn => txn.awaited.head?.elim (toLex (0, toLex (0, 0))) fun wanted =>
      txn.point.point.waitLevel rank s.db wanted.row) fun t u v htu huv => ?_
  obtain ⟨txn, wanted, rest, other, htxn, hawait, hoth, hcon, hne, hwait⟩ := hwaiting t u htu
  obtain ⟨_, _, _, _, hoth', hawait', -, -, -, hwait'⟩ := hwaiting u v huv
  obtain rfl := Option.mem_unique hoth hoth'
  simp only [htxn, hoth, hawait, hawait', Option.elim_some, List.head?_cons]
  exact hwait.climbs hwait' hcon (h.exclusive t u txn other htxn hoth hne) h.homed

/-- The system before any transaction began, over the database of a reachable world. -/
theorem orderly_quiet {cfg : Config} {world : World} (hwor : Reachable cfg world)
    (hhom : Homed home world.db) : Orderly rank home (RowLocks.State.quiet world.db) := by
  exact ⟨fun _ _ _ _ htxn => (RowLocks.lookup_quiet htxn).elim, apart_of_reachable hwor, hhom,
    fun _ _ htxn => (RowLocks.lookup_quiet htxn).elim⟩

/-- **One lock order, no deadlock.** Over the database of any reachable world, in every run of the
six transactions whose steps all meet the condition, every transaction has taken its locks in the
lock order and no transactions wait for each other in a cycle. -/
theorem row_locks_ordered {cfg : Config} {world : World} (hworld : Reachable cfg world)
    (rank : RunId → ℕ) (home : VertexId → RunId) (hhomed : Homed home world.db) {s : LockState}
    (hrun : Transition.Reachable (RowLocks.step lockCode)
      (fun s a => lockOrderly rank home s a = true) (RowLocks.State.quiet world.db) s) :
    (∀ t txn, s.active.lookup t = some txn → LockOrdered rank s.db txn.held) ∧
      ¬ s.Deadlocked := by
  have horderly : Orderly rank home s := hrun.invariant (I := Orderly rank home)
    (orderly_quiet hworld hhomed)
    fun _ _ _ hs hcondition hstep => hs.moves hcondition (RowLocks.moves_of_step hstep)
  exact ⟨fun t txn htxn => (horderly.all t txn htxn).2, horderly.not_deadlocked⟩

end Runs

/-! ### Runs with and without the condition -/

/-- The transactions after a script over a database. -/
def LockState.after (db : Db) (script : List LockAction) : LockState :=
  (Transition.run (RowLocks.step lockCode) (RowLocks.State.quiet db) script).getD
    (RowLocks.State.quiet db)

/-- The next turns of a transaction. -/
def turns (t n : ℕ) : List LockAction :=
  List.replicate n (.advance t)

/-- Two scopes of a run, opened one after the other. A vertex of the second comes before one of
the first in the queue. -/
def twoScopes : List Action :=
  [.createRun 1, .freeze 1 [tccVertex 10 [] 5 "a", tccVertex 20 [] 6 "b", tccVertex 21 [] 6 "c",
    tccVertex 30 [] 5 "d"]] ++ callNext 1 ++ [reply 1 .succeeded] ++ drive 1 3 ++ callNext 1 ++
    [reply 1 .succeeded] ++ drive 1 3

/-- A cancellation has locked the second scope; an Engine transaction has locked the first one and
waits for the second. -/
def cancelFirst : List LockAction :=
  .start 1 (.requestScopeCancel ⟨1, 6, "key", "requested", .engine⟩) :: turns 1 2 ++
    .start 2 (.lockRunScopes 1 fun _ _ => none) :: turns 2 2

/-- A concrete run in which one transaction waits for another. -/
theorem row_locks_ordered_cancelFirst :
    (LockState.after (World.after {} twoScopes).db cancelFirst).waits 2 1 = true ∧
    (∀ t txn, (LockState.after (World.after {} twoScopes).db cancelFirst).active.lookup t = some txn →
      LockOrdered (fun _ => 0) (LockState.after (World.after {} twoScopes).db cancelFirst).db
        txn.held) ∧
    ¬ (LockState.after (World.after {} twoScopes).db cancelFirst).Deadlocked := by
  have hhome : ((World.after {} twoScopes).db.queue.anyRow fun _ row => row.runId != 1) = false := by
    decide +kernel
  have hworld : Reachable {} (World.after {} twoScopes) := reachable_after (by decide +kernel)
  refine ⟨by decide +kernel, row_locks_ordered hworld (fun _ => 0) (fun _ => 1)
    (fun v row hrow => ?_) (Transition.guarded_reachable_getD (by decide +kernel))⟩
  simpa using Table.anyRow_eq_false_iff.mp hhome v row hrow

/-- Two claims and an Engine transaction. The first claim takes the work of the second scope while
the second claim waits for that scope; the second claim then passes over the candidate, keeps the
scope, and asks for the scope of the next candidate, the first one. -/
def crossedClaims : List LockAction :=
  .start 1 (.claimReadyWork 1 30000) :: turns 1 4 ++
    .start 2 (.claimReadyWork 2 30000) :: turns 2 2 ++ turns 1 1 ++ turns 2 1 ++
    .start 3 (.lockRunScopes 1 fun _ _ => none) :: turns 3 2 ++ turns 2 3

/-- **Claims deadlock with the Engine**: a claim holds a scope it has passed over and waits for one
that was opened before it. -/
theorem claims_deadlock :
    ∃ world s, Reachable {} world ∧
      Transition.Reachable (RowLocks.step lockCode) Transition.anyStep
        (RowLocks.State.quiet world.db) s ∧ s.Deadlocked := by
  refine ⟨World.after {} twoScopes, LockState.after (World.after {} twoScopes).db crossedClaims,
    reachable_after (by decide +kernel), Transition.reachable_getD (by decide +kernel), 2, ?_⟩
  exact .tail (.single (b := 3) (by decide +kernel)) (by decide +kernel)

end Flory
