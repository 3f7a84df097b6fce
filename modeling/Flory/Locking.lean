import Mathlib.Data.Set.BooleanAlgebra
import Mathlib.Data.Set.Piecewise
import Mathlib.Order.CompletePartialOrder

/-!
# Strict Two-Phase Locking

Transactions over a family of cells `∀ k, C k`. A statement names the cells it locks and
relates the cells a transaction sees to the cells it sees afterwards, together with the
rows it writes. A transaction runs statements on its own copies of the cells it has
locked, keeps every lock until it ends, and then either commits, which publishes its
copies and its rows, or rolls back, which publishes nothing. Any number of transactions
interleave, one statement at a time.

## Main results

* `Runs.transfer`: what a transaction did to its locked cells it could also have done
  from any other state with the same locked cells.
* `serial_of_reachable`: **serialisability**, the committed cells and the committed rows
  of every reachable state are those of the committed statements run one after the other,
  in commit order.
* `Reachable.committed`: what statements do one after the other can be committed.
* `invariant_of_statements`: what every single statement preserves holds of the committed
  state under any interleaving.
-/

namespace Locking

variable {K T E : Type} {C : K → Type} {out : List E} {σ' σ : ∀ k, C k}

/-! ### Statements -/

open scoped Classical in
/-- The cells of `own` on the held keys, those of `committed` elsewhere. -/
noncomputable def overlay (held : Set K) (own committed : ∀ k, C k) : ∀ k, C k :=
  held.piecewise own committed

section Overlay

variable {held : Set K} {own committed : ∀ k, C k} {k : K}

theorem overlay_of_mem (h : k ∈ held) : overlay held own committed k = own k := by
  classical
  exact Set.piecewise_eq_of_mem _ _ _ h

theorem overlay_of_notMem (h : k ∉ held) : overlay held own committed k = committed k := by
  classical
  exact Set.piecewise_eq_of_notMem _ _ _ h

/-- Copies that differ from the committed cells on held keys only are what is seen. -/
theorem overlay_eq (h : ∀ k ∉ held, own k = committed k) : overlay held own committed = own := by
  funext k
  by_cases hk : k ∈ held
  · exact overlay_of_mem hk
  · rw [overlay_of_notMem hk, h k hk]

end Overlay

/-- A statement: the cells it locks, and how it turns the cells a transaction sees into
new ones while writing rows. It reads and writes only what it has locked. -/
structure Statement (C : K → Type) (E : Type) where
  keys : Set K
  run : (∀ k, C k) → List E → (∀ k, C k) → Prop
  frame : ∀ {σ out σ'}, run σ out σ' → ∀ k ∉ keys, σ' k = σ k
  confined : ∀ {σ out σ' τ}, run σ out σ' → (∀ k ∈ keys, τ k = σ k) →
    run τ out (overlay keys σ' τ)

variable {stmts : Set (Statement C E)} {held held' : Set K}

/-- Statements run one after the other, all within the cells of `held`. -/
inductive Runs (stmts : Set (Statement C E)) (held : Set K) (σ : ∀ k, C k) :
    List E → (∀ k, C k) → Prop
  | nil : Runs stmts held σ [] σ
  | snoc {out new : List E} {μ σ' : ∀ k, C k} {stmt : Statement C E}
      (h : Runs stmts held σ out μ) (hstmt : stmt ∈ stmts) (hkeys : stmt.keys ⊆ held)
      (hrun : stmt.run μ new σ') : Runs stmts held σ (out ++ new) σ'

section Runs

variable {τ μ : ∀ k, C k} {out' : List E}

theorem Runs.mono (h : Runs stmts held σ out σ') (hsub : held ⊆ held') :
    Runs stmts held' σ out σ' := by
  induction h with
  | nil => exact .nil
  | snoc _ hstmt hkeys hrun ih => exact .snoc ih hstmt (hkeys.trans hsub) hrun

/-- Runs compose. -/
theorem Runs.trans (h : Runs stmts held σ out μ) (h' : Runs stmts held μ out' σ') :
    Runs stmts held σ (out ++ out') σ' := by
  induction h' with
  | nil => simpa using h
  | snoc _ hstmt hkeys hrun ih =>
    rw [← List.append_assoc]
    exact .snoc ih hstmt hkeys hrun

/-- **Confinement.** A run depends on the held cells only: from any state with the same
held cells it writes the same rows and leaves the same held cells. -/
theorem Runs.transfer (h : Runs stmts held σ out σ') (hagr : ∀ k ∈ held, τ k = σ k) :
    Runs stmts held τ out (overlay held σ' τ) := by
  induction h with
  | nil =>
    have hsame : overlay held σ τ = τ := by
      funext k
      by_cases hk : k ∈ held
      · rw [overlay_of_mem hk, hagr k hk]
      · exact overlay_of_notMem hk
    rw [hsame]
    exact .nil
  | @snoc out new μ σ' stmt _ hstmt hkeys hrun ih =>
    have hloc := stmt.confined (τ := overlay held μ τ) hrun fun k hk => overlay_of_mem (hkeys hk)
    -- the statement's own cells are new, the other held ones are those it started from
    have hcel : overlay stmt.keys σ' (overlay held μ τ) = overlay held σ' τ := by
      funext k
      by_cases hk : k ∈ stmt.keys
      · rw [overlay_of_mem hk, overlay_of_mem (hkeys hk)]
      rw [overlay_of_notMem hk]
      by_cases hh : k ∈ held
      · rw [overlay_of_mem hh, overlay_of_mem hh, stmt.frame hrun k hk]
      · rw [overlay_of_notMem hh, overlay_of_notMem hh]
    rw [hcel] at hloc
    exact .snoc ih hstmt hkeys hloc

end Runs

/-! ### Transactions -/

/-- An open transaction: the cells it has locked, its copies of them, and its rows. -/
structure Txn (C : K → Type) (E : Type) where
  held : Set K
  own : ∀ k, C k
  written : List E

/-- The committed cells, the committed rows in commit order, and the open transactions. -/
structure State (T : Type) (C : K → Type) (E : Type) where
  committed : ∀ k, C k
  history : List E
  txns : T → Option (Txn C E)

/-- What a transaction sees: its own copies, and the committed cells elsewhere. -/
noncomputable def Txn.view (txn : Txn C E) (committed : ∀ k, C k) : ∀ k, C k :=
  overlay txn.held txn.own committed

/-- The state in which nothing has been opened yet. -/
def State.initial (T : Type) (σ : ∀ k, C k) : State T C E where
  committed := σ
  history := []
  txns := fun _ => none

/-- A transaction that has not run anything. -/
def Txn.fresh (σ : ∀ k, C k) : Txn C E where
  held := ∅
  own := σ
  written := []

variable [DecidableEq T]

/-- The state with one transaction replaced, or ended. -/
def State.set (s : State T C E) (t : T) (txn : Option (Txn C E)) : State T C E :=
  { s with txns := Function.update s.txns t txn }

/-- The state once a transaction has committed. -/
noncomputable def State.publish (s : State T C E) (t : T) (txn : Txn C E) : State T C E where
  committed := txn.view s.committed
  history := s.history ++ txn.written
  txns := Function.update s.txns t none

/-- One step of one transaction. A statement waits for every cell it locks; the locks are
released at the end only. -/
inductive Step (stmts : Set (Statement C E)) (s : State T C E) : State T C E → Prop
  | start {t : T} (hnone : s.txns t = none) : Step stmts s (s.set t (some (.fresh s.committed)))
  | execute {t : T} {txn : Txn C E} {stmt : Statement C E} {out : List E} {σ' : ∀ k, C k}
      (htxn : s.txns t = some txn) (hstmt : stmt ∈ stmts)
      (hfree : ∀ u other, u ≠ t → s.txns u = some other → Disjoint stmt.keys other.held)
      (hrun : stmt.run (txn.view s.committed) out σ') :
      Step stmts s (s.set t (some ⟨txn.held ∪ stmt.keys, σ', txn.written ++ out⟩))
  | commit {t : T} {txn : Txn C E} (htxn : s.txns t = some txn) : Step stmts s (s.publish t txn)
  | rollback (t : T) : Step stmts s (s.set t none)

/-- The states reached by any interleaving. -/
def Reachable (stmts : Set (Statement C E)) (σ : ∀ k, C k) : State T C E → Prop :=
  Relation.ReflTransGen (Step stmts) (State.initial T σ)

/-- What holds between the steps: committed work is serial, no two transactions hold one
cell, and each open transaction's work could start from the committed state of now. -/
structure Inv (stmts : Set (Statement C E)) (σ : ∀ k, C k) (s : State T C E) : Prop where
  serial : Runs stmts Set.univ σ s.history s.committed
  disjoint : ∀ t u txn other, t ≠ u → s.txns t = some txn → s.txns u = some other →
    Disjoint txn.held other.held
  opened : ∀ t txn, s.txns t = some txn →
    Runs stmts txn.held s.committed txn.written (txn.view s.committed)

section Inv

variable {s s' : State T C E} {t : T} {txn : Txn C E}

/-- A transaction of a state with one transaction replaced is the new one or an old one. -/
theorem txns_set {u : T} {n : Option (Txn C E)} (h : (s.set t n).txns u = some txn) :
    u = t ∧ n = some txn ∨ u ≠ t ∧ s.txns u = some txn := by
  by_cases hu : u = t
  · subst hu
    exact .inl ⟨rfl, by simpa [State.set] using h⟩
  · exact .inr ⟨hu, by simpa [State.set, Function.update_of_ne hu] using h⟩

/-- Replacing a transaction by one that holds no cell of another and whose work could start
from the committed state keeps the invariant. -/
theorem Inv.set (h : Inv stmts σ s) {new : Option (Txn C E)}
    (hdis : ∀ txn, new = some txn → ∀ u other, u ≠ t → s.txns u = some other →
      Disjoint txn.held other.held)
    (hopen : ∀ txn, new = some txn → Runs stmts txn.held s.committed txn.written (txn.view s.committed)) :
    Inv stmts σ (s.set t new) where
  serial := h.serial
  disjoint := by
    intro a b txn other hab ha hb
    rcases txns_set ha with ⟨hat, hnew⟩ | ⟨hat, ha⟩
    · rcases txns_set hb with ⟨hbt, -⟩ | ⟨hbt, hb⟩
      · exact absurd (hat.trans hbt.symm) hab
      · exact hdis txn hnew b other hbt hb
    rcases txns_set hb with ⟨hbt, hnew⟩ | ⟨hbt, hb⟩
    · exact (hdis other hnew a txn hat ha).symm
    · exact h.disjoint a b txn other hab ha hb
  opened := by
    intro a txn ha
    rcases txns_set ha with ⟨-, hnew⟩ | ⟨-, ha⟩
    · exact hopen txn hnew
    · exact h.opened a txn ha

omit [DecidableEq T] in
/-- Another transaction's commit leaves the held cells, so the work done on them stands. -/
theorem opened_of_agree {committed committed' : ∀ k, C k}
    (h : Runs stmts txn.held committed txn.written (txn.view committed))
    (hagr : ∀ k ∈ txn.held, committed' k = committed k) :
    Runs stmts txn.held committed' txn.written (txn.view committed') := by
  have hrun := h.transfer hagr
  have hview : overlay txn.held (txn.view committed) committed' = txn.view committed' := by
    funext k
    by_cases hk : k ∈ txn.held
    · rw [overlay_of_mem hk, Txn.view, Txn.view, overlay_of_mem hk, overlay_of_mem hk]
    · rw [overlay_of_notMem hk, Txn.view, overlay_of_notMem hk]
  rwa [hview] at hrun

/-- A commit keeps the invariant: its work is appended to the serial run, and no other
open transaction saw the cells it changes. -/
theorem Inv.publish (h : Inv stmts σ s) (htxn : s.txns t = some txn) :
    Inv stmts σ (s.publish t txn) where
  serial := h.serial.trans ((h.opened t txn htxn).mono (Set.subset_univ _))
  disjoint := by
    intro a b new other hab ha hb
    rcases txns_set (n := none) ha with ⟨-, hnone⟩ | ⟨-, ha⟩
    · cases hnone
    rcases txns_set (n := none) hb with ⟨-, hnone⟩ | ⟨-, hb⟩
    · cases hnone
    exact h.disjoint a b new other hab ha hb
  opened := by
    intro a other ha
    rcases txns_set (n := none) ha with ⟨-, hnone⟩ | ⟨hat, ha⟩
    · cases hnone
    refine opened_of_agree (h.opened a other ha) fun k hk => ?_
    exact overlay_of_notMem (Set.disjoint_left.mp (h.disjoint a t other txn hat ha htxn) hk)

omit [DecidableEq T] in
/-- After a statement a transaction sees what the statement left. -/
theorem view_execute {stmt : Statement C E} {μ : ∀ k, C k} (hrun : stmt.run (txn.view μ) out σ') :
    Txn.view ⟨txn.held ∪ stmt.keys, σ', txn.written ++ out⟩ μ = σ' := by
  refine overlay_eq fun k hk => ?_
  rw [Set.mem_union, not_or] at hk
  show σ' k = μ k
  rw [stmt.frame hrun k hk.2, Txn.view, overlay_of_notMem hk.1]

/-- One step preserves the invariant. -/
theorem Inv.step (h : Inv stmts σ s) (hstep : Step stmts s s') : Inv stmts σ s' := by
  cases hstep with
  | start =>
    refine h.set ?_ ?_
    · rintro txn ⟨⟩ u other - -
      exact Set.empty_disjoint _
    rintro txn ⟨⟩
    have hview : (Txn.fresh (E := E) s.committed).view s.committed = s.committed :=
      overlay_eq fun _ _ => rfl
    rw [hview]
    exact .nil
  | @execute t txn stmt out σ' htxn hstmt hfree hrun =>
    refine h.set ?_ ?_
    · rintro new ⟨⟩ u other hu hoth
      exact Set.disjoint_union_left.mpr
        ⟨h.disjoint t u txn other hu.symm htxn hoth, hfree u other hu hoth⟩
    rintro new ⟨⟩
    rw [view_execute hrun]
    exact .snoc ((h.opened t txn htxn).mono Set.subset_union_left) hstmt Set.subset_union_right hrun
  | commit htxn => exact h.publish htxn
  | rollback => exact h.set nofun nofun

end Inv

variable {s : State T C E}

/-- **Serialisability.** Under any interleaving, what is committed is what the committed
statements do when they run one after the other, in commit order. -/
theorem serial_of_reachable (h : Reachable stmts σ s) :
    Runs stmts Set.univ σ s.history s.committed := by
  have hinv : Inv stmts σ s := by
    induction h with
    | refl => exact ⟨.nil, fun _ _ _ _ _ ht => by simp [State.initial] at ht,
        fun _ _ ht => by simp [State.initial] at ht⟩
    | tail _ hstep ih => exact ih.step hstep
  exact hinv.serial

/-- A transaction that runs alone can run any statements one after the other. -/
theorem Reachable.execute (h : Reachable stmts σ s) (hclos : ∀ t, s.txns t = none) (t : T)
    (hruns : Runs stmts Set.univ s.committed out σ') :
    ∃ txn : Txn C E, Reachable stmts σ (s.set t (some txn)) ∧ txn.written = out ∧
      txn.view s.committed = σ' := by
  induction hruns with
  | nil =>
    exact ⟨.fresh s.committed, h.tail (.start (hclos t)), rfl, overlay_eq fun _ _ => rfl⟩
  | @snoc out new μ σ' stmt _ hstmt _ hrun ih =>
    obtain ⟨txn, hreach, rfl, rfl⟩ := ih
    refine ⟨⟨txn.held ∪ stmt.keys, σ', txn.written ++ new⟩, ?_, rfl, view_execute hrun⟩
    have hstep : Step stmts (s.set t (some txn)) ((s.set t (some txn)).set t
        (some ⟨txn.held ∪ stmt.keys, σ', txn.written ++ new⟩)) := by
      refine .execute (Function.update_self ..) hstmt (fun u other hu hoth => ?_) hrun
      rcases txns_set hoth with ⟨heq, -⟩ | ⟨-, hoth⟩
      · exact absurd heq hu
      · rw [hclos u] at hoth
        cases hoth
    have hset : (s.set t (some txn)).set t (some ⟨txn.held ∪ stmt.keys, σ', txn.written ++ new⟩) =
        s.set t (some ⟨txn.held ∪ stmt.keys, σ', txn.written ++ new⟩) := by
      simp [State.set]
    rw [hset] at hstep
    exact hreach.tail hstep

/-- What statements do one after the other can be committed. -/
theorem Reachable.committed (h : Reachable stmts σ s) (hclos : ∀ t, s.txns t = none) (t : T)
    (hruns : Runs stmts Set.univ s.committed out σ') :
    Reachable stmts σ { committed := σ', history := s.history ++ out, txns := s.txns } := by
  obtain ⟨txn, hreach, rfl, rfl⟩ := h.execute hclos t hruns
  have hpub : (s.set t (some txn)).publish t txn =
      { committed := txn.view s.committed, history := s.history ++ txn.written, txns := s.txns } := by
    have htxns : Function.update s.txns t none = s.txns := by
      rw [← hclos t, Function.update_eq_self]
    simp [State.publish, State.set, htxns]
  rw [← hpub]
  exact hreach.tail (.commit (Function.update_self ..))

/-- **The statement rule.** What holds at the start and is preserved by every single
statement holds of the committed cells and rows under any interleaving. -/
theorem invariant_of_statements {I : (∀ k, C k) → List E → Prop} (h : Reachable stmts σ s)
    (hinit : I σ [])
    (hstmt : ∀ stmt ∈ stmts, ∀ σ rows out σ', I σ rows → stmt.run σ out σ' → I σ' (rows ++ out)) :
    I s.committed s.history := by
  have hruns : ∀ {rows τ}, Runs stmts Set.univ σ rows τ → I τ rows := by
    intro rows τ hser
    induction hser with
    | nil => exact hinit
    | snoc _ hmem _ hrun ih => exact hstmt _ hmem _ _ _ _ ih hrun
  exact hruns (serial_of_reachable h)

end Locking
