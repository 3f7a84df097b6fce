import Mathlib.Data.List.Basic

/-!
# Compare-and-Swap Ledgers

A ledger of accepted writes to targets, each with the revision it replaced, the one it made and the
write itself. Per target, a compare-and-swap chain counts up from zero without a gap: the `i`-th
write to it replaced revision `i` and made revision `i + 1`. What a target holds is what the last
write to it says.

## Main results

* `Linked.append`: one more write that replaces the current revision keeps every chain.
* `latest_append`, `revision_append`: what a write changes, and that it changes one target only.
-/

namespace Ledger

variable {T B : Type} [DecidableEq T]

/-- One accepted write. -/
structure Entry (T B : Type) where
  target : T
  before : ℕ
  after : ℕ
  body : B

/-- The writes to a target, the first one first. -/
def entriesOf (ledger : List (Entry T B)) (t : T) : List (Entry T B) :=
  ledger.filter fun e => decide (e.target = t)

/-- The current revision of a target. -/
def revision (ledger : List (Entry T B)) (t : T) : ℕ :=
  (entriesOf ledger t).length

/-- The last write to a target. -/
def latest (ledger : List (Entry T B)) (t : T) : Option B :=
  (entriesOf ledger t).getLast?.map Entry.body

/-- **A compare-and-swap chain** for every target: revisions 1, 2, 3, …, each linked to the one
before. -/
def Linked (ledger : List (Entry T B)) : Prop :=
  ∀ t, (entriesOf ledger t).map (fun e => (e.before, e.after)) =
    (List.range (revision ledger t)).map fun i => (i, i + 1)

variable {ledger : List (Entry T B)} {e : Entry T B} {t : T}

/-- A new entry is one of its own target. -/
theorem entriesOf_append :
    entriesOf (ledger ++ [e]) t = entriesOf ledger t ++ if e.target = t then [e] else [] := by
  simp only [entriesOf, List.filter_append, List.filter_cons, List.filter_nil, decide_eq_true_eq]

/-- It raises the revision of its target by one. -/
theorem revision_append :
    revision (ledger ++ [e]) t = revision ledger t + if e.target = t then 1 else 0 := by
  rw [revision, revision, entriesOf_append, List.length_append]
  split <;> rfl

/-- It is the latest of its target. -/
theorem latest_append :
    latest (ledger ++ [e]) t = if e.target = t then some e.body else latest ledger t := by
  rw [latest, latest, entriesOf_append]
  split
  · rw [List.getLast?_concat]
    rfl
  · rw [List.append_nil]

/-- The empty ledger is linked. -/
theorem linked_nil : Linked ([] : List (Entry T B)) :=
  fun _ => rfl

/-- **One more write that replaces the current revision.** -/
theorem Linked.append (h : Linked ledger) (hbef : e.before = revision ledger e.target)
    (haft : e.after = e.before + 1) : Linked (ledger ++ [e]) := by
  intro t
  rw [entriesOf_append, List.map_append, h t, revision_append]
  split
  · rename_i ht
    rw [List.range_succ, List.map_append, List.map_singleton, List.map_singleton, haft, hbef, ht]
  · simp

end Ledger
