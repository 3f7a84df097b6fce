import Flory.Table
import Flory.Transition

/-!
# Row Locks and Wait-For Cycles

Transactions over a database `D` whose rows are named by `K`. What a transaction does at a point
`P` of its code is a `Statement`, computed from the rows it reads there:

* `lock` takes row locks one after the other and waits for each that another transaction holds
  in a conflicting mode;
* `skipLocked` takes those rows, for update, that nobody else holds, and never waits;
* `finish` ends the transaction, which publishes its writes and releases its locks.

Every lock is kept until `finish`: a transaction that goes on without using a row it locked still
holds it. A lock on a row the transaction already holds strongly enough is no request at all.
Any number of transactions interleave, one lock or one statement at a time.

A transaction waits for another when the first lock it still awaits conflicts with one the other
holds; a deadlock is a cycle of such waits.

## Main results

* `moves_of_step`: everything one step of the system can do.
* `not_deadlocked_of_level`: **waits that climb do not cycle**. When every transaction that waits
  has a level, and the transactions it waits for are not waiting or have a higher one, nothing is
  deadlocked.
-/

namespace RowLocks

variable {t : ℕ}

/-! ### Locks -/

/-- The strength of a row lock. A key-share lock only keeps the row's key from changing; an update
that leaves the key alone takes the middle one. -/
inductive Mode
  | keyShare
  | noKeyUpdate
  | update
  deriving DecidableEq, Repr

/-- Whether two transactions may not hold a row in these modes at once. -/
def Mode.conflicts : Mode → Mode → Bool
  | .update, _ => true
  | _, .update => true
  | .noKeyUpdate, .noKeyUpdate => true
  | _, _ => false

/-- Whether a lock held in the first mode makes one in the second superfluous. -/
def Mode.covers : Mode → Mode → Bool
  | .update, _ => true
  | .noKeyUpdate, .update => false
  | .noKeyUpdate, _ => true
  | .keyShare, .keyShare => true
  | .keyShare, _ => false

/-- Conflicts are mutual. -/
theorem Mode.conflicts_comm (m m' : Mode) : m.conflicts m' = m'.conflicts m := by
  cases m <;> cases m' <;> rfl

/-- A stronger mode conflicts with more. -/
theorem Mode.conflicts_of_covers {m m' other : Mode} (h : m.covers m' = true)
    (hcon : other.conflicts m' = true) : other.conflicts m = true := by
  revert h hcon
  cases m <;> cases m' <;> cases other <;> decide

/-- A lock on a row. -/
structure Lock (K : Type) where
  row : K
  mode : Mode
  deriving DecidableEq

variable {C K P D E : Type} [DecidableEq K]

/-- Whether one of the locks conflicts with a lock wanted by somebody else. -/
def conflicting (locks : List (Lock K)) (wanted : Lock K) : Bool :=
  locks.any fun l => l.row == wanted.row && l.mode.conflicts wanted.mode

/-- Whether one of the locks makes a wanted lock superfluous. -/
def covering (locks : List (Lock K)) (wanted : Lock K) : Bool :=
  locks.any fun l => l.row == wanted.row && l.mode.covers wanted.mode

variable {locks : List (Lock K)} {wanted : Lock K}

theorem conflicting_iff :
    conflicting locks wanted = true ↔
      ∃ l ∈ locks, l.row = wanted.row ∧ l.mode.conflicts wanted.mode = true := by
  simp [conflicting, List.any_eq_true]

theorem covering_iff :
    covering locks wanted = true ↔
      ∃ l ∈ locks, l.row = wanted.row ∧ l.mode.covers wanted.mode = true := by
  simp [covering, List.any_eq_true]

/-- A held lock covers itself. -/
theorem covering_of_mem {l : Lock K} (h : l ∈ locks) : covering locks l = true :=
  covering_iff.mpr ⟨l, h, rfl, by cases l.mode <;> rfl⟩

/-- A lock for update is covered by itself only. -/
theorem mem_of_covering {row : K} (h : covering locks ⟨row, .update⟩ = true) :
    ⟨row, .update⟩ ∈ locks := by
  obtain ⟨⟨_, mode⟩, hl, rfl, hmode⟩ := covering_iff.mp h
  cases mode with
  | update => exact hl
  | keyShare | noKeyUpdate => cases hmode

/-- More locks cover more. -/
theorem covering_mono {locks' : List (Lock K)} (hsub : ∀ l ∈ locks, l ∈ locks')
    (h : covering locks wanted = true) : covering locks' wanted = true := by
  obtain ⟨l, hl, hrow, hmode⟩ := covering_iff.mp h
  exact covering_iff.mpr ⟨l, hsub l hl, hrow, hmode⟩

/-! ### Transactions -/

/-- What a transaction does at a point of its code. -/
inductive Statement (K P D : Type)
  | lock (locks : List (Lock K)) (next : P)
  | skipLocked (rows : List K) (next : List K → P)
  | finish (write : D → D)

/-- A family of transactions: the point a call enters at, the statement of every point, and what
else changes the database. -/
structure Code (C K P D E : Type) where
  enter : C → D → P
  statement : P → D → Statement K P D
  environment : E → D → D

/-- A transaction under way: the locks it holds, the last one first, those its statement still
awaits, and its point. -/
structure Transaction (K P : Type) where
  held : List (Lock K)
  awaited : List (Lock K)
  point : P

/-- The committed database and the transactions under way. -/
structure State (K P D : Type) where
  db : D
  active : Table ℕ (Transaction K P)

/-- The moves of the system. -/
inductive Action (C E : Type)
  | start (t : ℕ) (call : C)
  | advance (t : ℕ)
  | environment (e : E)

namespace State

variable (s : State K P D)

/-- Whether a lock wanted by `t` has to wait. -/
def blocked (t : ℕ) (wanted : Lock K) : Bool :=
  s.active.anyRow fun u txn => u != t && conflicting txn.held wanted

/-- The rows that nobody but `t` has locked. -/
def free (t : ℕ) (rows : List K) : List K :=
  rows.filter fun row => !s.blocked t ⟨row, .update⟩

/-- A transaction put in its place. -/
def set (t : ℕ) (txn : Transaction K P) : State K P D :=
  { s with active := s.active.insert t txn }

/-- Whether `t` waits for `u`. -/
def waits (t u : ℕ) : Bool :=
  t != u && (s.active.lookup t).any fun txn => txn.awaited.head?.any fun wanted =>
    (s.active.lookup u).any fun other => conflicting other.held wanted

/-- **Deadlock**: a cycle of transactions each of which waits for the next. -/
def Deadlocked : Prop :=
  ∃ t, Relation.TransGen (fun t u => s.waits t u = true) t t

end State

/-- One turn of a transaction: its next awaited lock, or else its next statement. -/
def advance (code : Code C K P D E) (s : State K P D) (t : ℕ) (txn : Transaction K P) :
    Option (State K P D) :=
  match txn.awaited with
  | wanted :: rest =>
    if covering txn.held wanted then some (s.set t { txn with awaited := rest })
    else if s.blocked t wanted then none
    else some (s.set t { txn with held := wanted :: txn.held, awaited := rest })
  | [] =>
    match code.statement txn.point s.db with
    | .lock locks next => some (s.set t { txn with awaited := locks, point := next })
    | .skipLocked rows next =>
      some (s.set t ⟨(s.free t rows).map (⟨·, .update⟩) ++ txn.held, [],
        next (s.free t rows)⟩)
    | .finish write => some ⟨write s.db, s.active.erase t⟩

/-- The step function. -/
def step (code : Code C K P D E) (s : State K P D) : Action C E → Option (State K P D)
  | .start t call =>
    if (s.active.lookup t).isSome then none else some (s.set t ⟨[], [], code.enter call s.db⟩)
  | .advance t => (s.active.lookup t).bind (advance code s t)
  | .environment e => some { s with db := code.environment e s.db }

/-! ### What a step does -/

variable {code : Code C K P D E} {s s' : State K P D}

/-- What a turn makes of a transaction that goes on. -/
inductive Turn (code : Code C K P D E) (s : State K P D) (t : ℕ) (txn : Transaction K P) :
    Transaction K P → Prop
  | regained {wanted : Lock K} {rest : List (Lock K)} (hawaited : txn.awaited = wanted :: rest)
      (hcovered : covering txn.held wanted = true) : Turn code s t txn { txn with awaited := rest }
  | granted {wanted : Lock K} {rest : List (Lock K)} (hawaited : txn.awaited = wanted :: rest)
      (hnew : covering txn.held wanted = false) (hfree : s.blocked t wanted = false) :
      Turn code s t txn { txn with held := wanted :: txn.held, awaited := rest }
  | stated {locks : List (Lock K)} {next : P} (hawaited : txn.awaited = [])
      (hcode : code.statement txn.point s.db = .lock locks next) :
      Turn code s t txn { txn with awaited := locks, point := next }
  | skipped {rows : List K} {next : List K → P} (hawaited : txn.awaited = [])
      (hcode : code.statement txn.point s.db = .skipLocked rows next) :
      Turn code s t txn ⟨(s.free t rows).map (⟨·, .update⟩) ++ txn.held, [], next (s.free t rows)⟩

/-- Everything a step can do. -/
inductive Moves (code : Code C K P D E) (s : State K P D) : Action C E → State K P D → Prop
  | started {t : ℕ} {call : C} (hnew : s.active.lookup t = none) :
      Moves code s (.start t call) (s.set t ⟨[], [], code.enter call s.db⟩)
  | turned {t : ℕ} {txn txn' : Transaction K P} (htxn : s.active.lookup t = some txn)
      (hturn : Turn code s t txn txn') : Moves code s (.advance t) (s.set t txn')
  | finished {t : ℕ} {txn : Transaction K P} {write : D → D} (htxn : s.active.lookup t = some txn)
      (hawaited : txn.awaited = []) (hcode : code.statement txn.point s.db = .finish write) :
      Moves code s (.advance t) ⟨write s.db, s.active.erase t⟩
  | changed (e : E) : Moves code s (.environment e) { s with db := code.environment e s.db }

variable {a : Action C E}

/-- A step does one of these things. -/
theorem moves_of_step (h : step code s a = some s') : Moves code s a s' := by
  cases a with
  | start t call =>
    simp only [step] at h
    split at h
    · cases h
    rename_i hnew
    cases h
    exact .started (Option.not_isSome_iff_eq_none.mp hnew)
  | environment e =>
    cases h
    exact .changed e
  | advance t =>
    obtain ⟨txn, htxn, hadv⟩ := Option.bind_eq_some_iff.mp h
    unfold advance at hadv
    cases hawait : txn.awaited with
    | cons wanted rest =>
      simp only [hawait] at hadv
      split at hadv
      · rename_i hcov
        cases hadv
        exact .turned htxn (.regained hawait hcov)
      rename_i hnew
      split at hadv
      · cases hadv
      rename_i hfree
      cases hadv
      exact .turned htxn (.granted hawait (Bool.not_eq_true _ ▸ hnew) (Bool.not_eq_true _ ▸ hfree))
    | nil =>
      simp only [hawait] at hadv
      cases hcode : code.statement txn.point s.db with
      | lock =>
        simp only [hcode] at hadv
        cases hadv
        exact .turned htxn (.stated hawait hcode)
      | skipLocked =>
        simp only [hcode] at hadv
        cases hadv
        exact .turned htxn (.skipped hawait hcode)
      | finish =>
        simp only [hcode] at hadv
        cases hadv
        exact .finished htxn hawait hcode

variable {txn : Transaction K P}

namespace State

omit [DecidableEq K] in
theorem lookup_set {u : ℕ} :
    (s.set t txn).active.lookup u = if u = t then some txn else s.active.lookup u :=
  Table.lookup_insert_eq

omit [DecidableEq K] in
/-- The lookup after a transaction ended. -/
theorem lookup_erase {u : ℕ} (h : (s.active.erase t).lookup u = some txn) :
    u ≠ t ∧ s.active.lookup u = some txn := by
  by_cases hu : u = t
  · subst hu
    rw [AList.lookup_erase] at h
    cases h
  · rw [AList.lookup_erase_ne hu] at h
    exact ⟨hu, h⟩

/-- A lock is not blocked when no other transaction holds a conflicting one. -/
theorem blocked_eq_false_iff :
    s.blocked t wanted = false ↔ ∀ u txn, s.active.lookup u = some txn → u ≠ t →
      ∀ l ∈ txn.held, l.row = wanted.row → l.mode.conflicts wanted.mode = false := by
  rw [blocked, Table.anyRow_eq_false_iff]
  refine forall_congr' fun u => forall_congr' fun txn => forall_congr' fun _ => ?_
  rw [Bool.and_eq_false_iff]
  constructor
  · rintro (hu | hfree) hne l hl hrow
    · rw [bne_eq_false_iff_eq] at hu
      exact absurd hu hne
    rw [← Bool.not_eq_true]
    exact fun hcon => Bool.eq_false_iff.mp hfree (conflicting_iff.mpr ⟨l, hl, hrow, hcon⟩)
  · intro h
    by_cases hu : u = t
    · exact .inl (by rw [bne_eq_false_iff_eq]; exact hu)
    refine .inr (Bool.eq_false_iff.mpr fun hcon => ?_)
    obtain ⟨l, hl, hrow, hmode⟩ := conflicting_iff.mp hcon
    rw [h hu l hl hrow] at hmode
    exact Bool.noConfusion hmode

/-- What a wait is. -/
theorem waits_iff {u : ℕ} :
    s.waits t u = true ↔ t ≠ u ∧ ∃ txn wanted rest other, s.active.lookup t = some txn ∧
      txn.awaited = wanted :: rest ∧ s.active.lookup u = some other ∧
      conflicting other.held wanted = true := by
  simp only [waits, Bool.and_eq_true, bne_iff_ne, ne_eq, Option.any_eq_true]
  refine and_congr_right fun _ => ?_
  constructor
  · rintro ⟨txn, htxn, wanted, hwan, other, hoth, hcon⟩
    cases hawait : txn.awaited with
    | nil => simp [hawait] at hwan
    | cons first rest =>
      rw [hawait, List.head?_cons, Option.some.injEq] at hwan
      exact ⟨txn, first, rest, other, htxn, hawait, hoth, hwan ▸ hcon⟩
  · rintro ⟨txn, wanted, rest, other, htxn, hawait, hoth, hcon⟩
    exact ⟨txn, htxn, wanted, by rw [hawait, List.head?_cons], other, hoth, hcon⟩

end State

/-! ### Exclusion -/

/-- **Exclusion**: conflicting locks on one row belong to one transaction. -/
def Exclusive (s : State K P D) : Prop :=
  ∀ t u txn other, s.active.lookup t = some txn → s.active.lookup u = some other → t ≠ u →
    ∀ l ∈ txn.held, ∀ l' ∈ other.held, l.row = l'.row → l.mode.conflicts l'.mode = false

omit [DecidableEq K] in
/-- A transaction put in its place keeps exclusion when its locks conflict with no other's. -/
theorem Exclusive.set (h : Exclusive s)
    (hnew : ∀ u other, s.active.lookup u = some other → t ≠ u →
      ∀ l ∈ txn.held, ∀ l' ∈ other.held, l.row = l'.row → l.mode.conflicts l'.mode = false) :
    Exclusive (s.set t txn) := by
  intro u v one other hone hoth hne l hl l' hl' hrow
  rw [State.lookup_set] at hone hoth
  split at hone
  · rename_i hu
    cases hone
    rw [if_neg (fun hv => hne (hu.trans hv.symm))] at hoth
    exact hnew v other hoth (hu ▸ hne) l hl l' hl' hrow
  · rename_i hu
    split at hoth
    · rename_i hv
      cases hoth
      rw [Mode.conflicts_comm]
      exact hnew u one hone (Ne.symm hu) l' hl' l hl hrow.symm
    · exact h u v one other hone hoth hne l hl l' hl' hrow

/-- A turn takes only locks that conflict with no other's. -/
theorem Turn.exclusive {txn' : Transaction K P} (h : Turn code s t txn txn')
    (hexc : Exclusive s) (htxn : s.active.lookup t = some txn) :
    Exclusive (s.set t txn') := by
  refine hexc.set fun u other hoth hne l hl l' hl' hrow => ?_
  have hold : l ∈ txn.held → l.mode.conflicts l'.mode = false := fun hl =>
    hexc t u txn other htxn hoth hne l hl l' hl' hrow
  cases h with
  | regained | stated => exact hold hl
  | granted _ _ hfree =>
    rcases List.mem_cons.mp hl with rfl | hl
    · rw [Mode.conflicts_comm]
      exact State.blocked_eq_false_iff.mp hfree u other hoth (Ne.symm hne) l' hl' hrow.symm
    · exact hold hl
  | skipped =>
    rcases List.mem_append.mp hl with hl | hl
    · obtain ⟨row, hmem, rfl⟩ := List.mem_map.mp hl
      have hfree : s.blocked t ⟨row, .update⟩ = false := by
        simpa using (List.mem_filter.mp hmem).2
      rw [Mode.conflicts_comm]
      exact State.blocked_eq_false_iff.mp hfree u other hoth (Ne.symm hne) l' hl' hrow.symm
    · exact hold hl

/-- Every step keeps exclusion. -/
theorem Exclusive.moves (h : Exclusive s) (hmov : Moves code s a s') : Exclusive s' := by
  cases hmov with
  | started => exact h.set fun u other _ _ l hl => absurd hl List.not_mem_nil
  | turned htxn hturn => exact hturn.exclusive h htxn
  | finished =>
    intro u v one other hone hoth
    exact h u v one other (State.lookup_erase hone).2 (State.lookup_erase hoth).2
  | changed => exact h

/-- The system before any transaction began. -/
def State.quiet (db : D) : State K P D :=
  ⟨db, ∅⟩

omit [DecidableEq K] in
theorem lookup_quiet {db : D} {txn : Transaction K P}
    (h : (State.quiet db).active.lookup t = some txn) : False := by
  simp [State.quiet] at h

/-! ### Invariants of every transaction -/

/-- Every transaction under way meets `I`, which may read the database. -/
def State.All (s : State K P D) (I : D → Transaction K P → Prop) : Prop :=
  ∀ t txn, s.active.lookup t = some txn → I s.db txn

/-- What the transactions meet they still meet after a step, when a started transaction meets it,
a turn keeps it, and the others keep it under whatever changes the database. -/
theorem Moves.all {I : D → Transaction K P → Prop} (hmov : Moves code s a s') (hall : s.All I)
    (hstart : ∀ t call, a = .start t call → I s.db ⟨[], [], code.enter call s.db⟩)
    (hturn : ∀ t txn txn', a = .advance t → s.active.lookup t = some txn → I s.db txn →
      Turn code s t txn txn' → I s.db txn')
    (hfin : ∀ t txn write u other, a = .advance t → s.active.lookup t = some txn →
      txn.awaited = [] → code.statement txn.point s.db = .finish write → u ≠ t →
      s.active.lookup u = some other → I s.db other → I (write s.db) other)
    (henv : ∀ e txn, I s.db txn → I (code.environment e s.db) txn) : s'.All I := by
  intro u other hoth
  cases hmov with
  | @started t call =>
    rw [State.lookup_set] at hoth
    split at hoth
    · cases hoth
      exact hstart t call rfl
    · exact hall u other hoth
  | @turned t txn txn' htxn htur =>
    rw [State.lookup_set] at hoth
    split at hoth
    · cases hoth
      exact hturn t txn _ rfl htxn (hall t txn htxn) htur
    · exact hall u other hoth
  | @finished t txn write htxn hawait hcode =>
    obtain ⟨hne, hold⟩ := State.lookup_erase hoth
    exact hfin t txn write u other rfl htxn hawait hcode hne hold (hall u other hold)
  | changed e => exact henv e other (hall u other hoth)

/-! ### Levels -/

/-- **Waits that climb do not cycle.** -/
theorem not_deadlocked_of_level {L : Type} [Preorder L] (level : ℕ → L)
    (h : ∀ t u v, s.waits t u = true → s.waits u v = true → level t < level u) :
    ¬ s.Deadlocked := by
  rintro ⟨t, hcyc⟩
  have hclim : ∀ u, Relation.TransGen (fun t u => s.waits t u = true) t u →
      ∀ v, s.waits u v = true → level t < level u := by
    intro u hchain
    induction hchain with
    | single hwait => exact fun v hnext => h _ _ v hwait hnext
    | tail _ hwait ih => exact fun v hnext => lt_trans (ih _ hwait) (h _ _ v hwait hnext)
  obtain ⟨u, hfir, -⟩ := Relation.TransGen.head'_iff.mp hcyc
  exact lt_irrefl _ (hclim t hcyc u hfir)

end RowLocks
