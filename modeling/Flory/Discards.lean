import Flory.Ladder

/-!
# What a Replan Discards

A replan shadows what is causally downstream of its boundary. The search that collects it follows
`parent_refs` from the boundary; a log creates no more vertices than it has events, so the length of
the log is fuel enough. What an earlier replan discarded is left out, and the discards of a log
grown by recorded decisions are therefore disjoint.

## Main results

* `causalDescendants_spec`: the search returns what is downstream, each vertex once.
* `shadow_sets_exact`: the vertices of a discard, their order, and that no vertex is discarded twice.
-/

namespace Flory

open Except (ok)
open Relation (TransGen)

/-- A vertex names another among its `parent_refs`. -/
def IsChild (events : List Event) (parent child : VertexId) : Prop :=
  ∃ e ∈ events, e.body.isCreated = true ∧ e.vertexId = some child ∧ parent ∈ e.parentRefs

/-- The vertices an event discards. -/
def EventBody.discards : EventBody → List VertexId
  | .subgraphShadowed vertexIds => vertexIds
  | _ => []

section Descendants

variable {events : List Event} {boundary parent child v : VertexId}

/-- The search follows `parent_refs`. -/
theorem mem_childrenOf : child ∈ childrenOf events parent ↔ IsChild events parent child := by
  simp only [childrenOf, List.mem_flatMap, IsChild]
  refine exists_congr fun e => and_congr_right fun _ => ?_
  by_cases hcreat : e.body.isCreated = true
  · rw [if_pos hcreat]
    simp only [hcreat, List.mem_flatMap, Option.mem_toList, List.mem_map, List.mem_filter]
    grind
  · simp [hcreat]

/-- **The search returns what is downstream**, each vertex once. -/
theorem causalDescendants_spec (events : List Event) (v : VertexId) :
    (causalDescendants events v).Nodup ∧
      ∀ u, u ∈ causalDescendants events v ↔ TransGen (IsChild events) v u := by
  have hchild : (fun x y => y ∈ childrenOf events x) = IsChild events := by
    funext x y
    exact propext mem_childrenOf
  have hspec : (causalDescendants events v).Nodup ∧
      ∀ u, u ∈ causalDescendants events v ↔ Worklist.Reaches (childrenOf events) v u := by
    refine Worklist.reached_spec (fun x y hy => ?_)
      (Nat.succ_le_succ (List.length_filterMap_le (·.vertexId) _)) v
    obtain ⟨e, he, -, hid, -⟩ := mem_childrenOf.mp hy
    exact List.mem_filterMap.mpr ⟨e, he, hid⟩
  rw [Worklist.Reaches, hchild] at hspec
  exact hspec

/-- What is hidden is what some event discards. -/
theorem hiddenVertices_eq : hiddenVertices events = events.flatMap fun e => e.body.discards := by
  refine List.flatMap_congr fun e _ => ?_
  cases e.body <;> rfl

/-- A discard is what is downstream and not yet hidden. -/
theorem mem_shadowSet : v ∈ shadowSet events boundary ↔
    TransGen (IsChild events) boundary v ∧ v ∉ hiddenVertices events := by
  rw [shadowSet, List.mem_insertionSort, List.mem_filter, (causalDescendants_spec events _).2,
    decide_eq_true_iff]

/-- Each vertex is discarded once. -/
theorem shadowSet_nodup : (shadowSet events boundary).Nodup :=
  (List.perm_insertionSort _ _).nodup_iff.mpr ((causalDescendants_spec events boundary).1.filter _)

/-- A discard is listed in the order of creation. -/
theorem shadowSet_sorted : (shadowSet events boundary).Pairwise fun first second =>
      createdSeq events first ≤ createdSeq events second := by
  let le (first second : VertexId) : Prop := createdSeq events first < createdSeq events second ∨
    (createdSeq events first = createdSeq events second ∧ first ≤ second)
  have htot : Std.Total le := ⟨fun first second => by grind⟩
  have htrans : IsTrans VertexId le := ⟨fun x y z hxy hyz => by grind⟩
  exact (List.pairwise_insertionSort le _).imp fun h => h.elim le_of_lt (·.1.le)

end Descendants

/-! ### Decisions -/

section Decisions

variable {context : DecisionContext} {decision : BoundaryDecision}

/-- The end of the ladder keeps the selection. -/
theorem terminal_selected (base : BoundaryDecision) (level : RecoveryLevel) (reason : String) :
    (context.terminal base level reason).selected = base.selected := by
  unfold DecisionContext.terminal
  dsimp only
  split
  · rfl
  · split <;> rfl

/-- A decision that selects a planner discards what is behind it. -/
theorem shadowed_of_selectBoundary (h : selectBoundary context = ok decision) {P : VertexId}
    (hP : decision.selected = some P) : decision.shadowed = shadowSet context.events P := by
  have hter : ∀ base level reason, base.selected = none →
      ok (context.terminal base level reason) ≠ (ok decision : Except String _) := by
    rintro base level reason hbase heq
    cases heq
    rw [terminal_selected, hbase] at hP
    cases hP
  unfold selectBoundary at h
  dsimp only at h
  split at h
  · cases h
    cases hP
  unfold DecisionContext.decideOnLog at h
  dsimp only at h
  split at h
  · exact absurd h (hter _ _ _ rfl)
  split at h
  · exact absurd h (hter _ _ _ rfl)
  split at h
  · exact absurd h (hter _ _ _ rfl)
  split at h
  · cases h
  split at h
  · cases h
  split at h
  · exact absurd h (hter _ _ _ rfl)
  cases h
  unfold DecisionContext.atBoundary at hP ⊢
  dsimp only at hP ⊢
  split_ifs at hP ⊢ <;> cases hP <;> rfl

/-- What a decision appends discards nothing, or what is behind a planner. -/
theorem discards_of_decideRecovery {drafts : List EventDraft}
    (h : decideRecovery context = ok (decision, drafts)) :
    (drafts.map (·.body)).flatMap EventBody.discards = [] ∨
      ∃ P, (drafts.map (·.body)).flatMap EventBody.discards = shadowSet context.events P := by
  unfold decideRecovery at h
  split at h
  · cases h
  rename_i found hselec
  split at h
  · obtain ⟨-, rfl⟩ := Prod.mk.inj (Except.ok.inj h)
    exact .inl rfl
  · split at h
    · cases h
    rename_i request hreq
    obtain ⟨-, rfl⟩ := Prod.mk.inj (Except.ok.inj h)
    unfold cancelRequestEvent at hreq
    split at hreq
    · cases hreq
    obtain rfl := Except.ok.inj hreq
    exact .inl rfl
  · obtain ⟨-, rfl⟩ := Prod.mk.inj (Except.ok.inj h)
    unfold replanEvents
    cases hsel : found.selected with
    | none => exact .inl rfl
    | some P =>
      refine .inr ⟨P, ?_⟩
      rw [← shadowed_of_selectBoundary hselec hsel]
      exact List.append_nil _

end Decisions

/-- **A log grown by recorded decisions.** A decision is taken on the whole log, whatever the
failure, the policy, the locked rows and the prices, and its drafts are appended; any event that
discards nothing may come in between. -/
inductive Discarding : List Event → Prop
  | nil : Discarding []
  | other {log : List Event} (h : Discarding log) (e : Event) (hbody : e.body.discards = []) :
      Discarding (log ++ [e])
  | decision {log : List Event} (h : Discarding log) (context : DecisionContext)
      (hevents : context.events = log) {decision : BoundaryDecision} {drafts : List EventDraft}
      (hdecided : decideRecovery context = ok (decision, drafts)) (new : List Event)
      (hnew : new.map (·.body) = drafts.map (·.body)) : Discarding (log ++ new)

/-- No vertex is discarded twice. -/
theorem Discarding.nodup {log : List Event} (h : Discarding log) : (hiddenVertices log).Nodup := by
  induction h with
  | nil => exact .nil
  | other _ e hbody ih =>
    rw [hiddenVertices_eq] at ih ⊢
    simpa [hbody] using ih
  | decision _ context heven hdec new hnew ih =>
    rw [hiddenVertices_eq, List.flatMap_append, ← hiddenVertices_eq, List.nodup_append']
    have hsame : new.flatMap (fun e => e.body.discards) =
        (new.map (·.body)).flatMap EventBody.discards := (List.flatMap_map ..).symm
    rw [hsame, hnew]
    rcases discards_of_decideRecovery hdec with hnone | ⟨P, hdis⟩
    · rw [hnone]
      exact ⟨ih, .nil, List.disjoint_nil_right _⟩
    · rw [hdis, heven]
      exact ⟨ih, shadowSet_nodup, fun v hold hnew => (mem_shadowSet.mp hnew).2 hold⟩

/-- **Discards are exact and disjoint.** A replan at a boundary of an acyclic log discards each
vertex downstream of it that no earlier replan discarded, once, in the order of creation and never
the boundary itself; and a log grown by recorded decisions discards no vertex twice. -/
theorem shadow_sets_exact :
    (∀ (events : List Event) (boundary : VertexId), (∀ v, ¬ TransGen (IsChild events) v v) →
      (shadowSet events boundary).Nodup ∧
      (shadowSet events boundary).Pairwise (fun first second =>
        createdSeq events first ≤ createdSeq events second) ∧
      (∀ v, v ∈ shadowSet events boundary ↔
        TransGen (IsChild events) boundary v ∧ ∀ e ∈ events, v ∉ e.body.discards) ∧
      boundary ∉ shadowSet events boundary) ∧
    ∀ log, Discarding log → log.Pairwise fun first second =>
      first.body.discards.Disjoint second.body.discards := by
  refine ⟨fun events boundary hacy => ⟨shadowSet_nodup, shadowSet_sorted, ?_, ?_⟩,
    fun log hlog => ?_⟩
  · intro v
    rw [mem_shadowSet, hiddenVertices_eq, List.mem_flatMap]
    simp only [not_exists, not_and]
  · exact fun h => hacy boundary (mem_shadowSet.mp h).1
  · have hnodup := hlog.nodup
    rw [hiddenVertices_eq, List.nodup_flatMap] at hnodup
    exact hnodup.2

/-- The events of the decision on a context, from a number on. -/
def decided (context : DecisionContext) (seq : ℕ) : List Event :=
  ((decideRecovery context).toOption.elim [] (·.2)).zipIdx.map fun draft =>
    { toEventDraft := draft.1, runId := 1, runSeq := draft.2 + seq }

/-- A log grows by the decision on it. -/
theorem Discarding.decided {context : DecisionContext} (h : Discarding context.events) (seq : ℕ) :
    Discarding (context.events ++ Flory.decided context seq) := by
  unfold Flory.decided
  cases hrun : decideRecovery context with
  | error => exact (List.append_nil context.events).symm ▸ h
  | ok result =>
    refine h.decision context rfl hrun _ ?_
    have hdraf := congrArg (List.map (·.body)) (List.zipIdx_map_fst 0 result.2)
    rw [List.map_map] at hdraf ⊢
    exact hdraf

/-- `failedWork` after one replan: the planner adds a vertex in place of the discarded one, and that
vertex fails too. -/
def failedAgain : DecisionContext :=
  { failedWork with
    events := failedWork.events ++ decided failedWork 5 ++
      [{ body := .vertexCreated .barrier, vertexId := some 3, parentRefs := [1], runId := 1,
         runSeq := 7 }] ++
      [{ body := .vertexFailed ⟨1, "", .response .permanentFailure⟩, vertexId := some 3, runId := 1,
         runSeq := 8 }]
    failedVertexId := 3 }

/-- The second replan discards the second vertex only. -/
theorem shadow_sets_exact_failedAgain :
    (∀ v, ¬ TransGen (IsChild failedAgain.events) v v) ∧
    Discarding (failedAgain.events ++ decided failedAgain 9) ∧
    ((failedAgain.events ++ decided failedAgain 9).map (·.body.discards)).filter (· ≠ []) =
      [[2], [3]] ∧
    (∀ v, v ∈ shadowSet failedAgain.events 1 ↔ TransGen (IsChild failedAgain.events) 1 v ∧
      ∀ e ∈ failedAgain.events, v ∉ e.body.discards) ∧
    (failedAgain.events ++ decided failedAgain 9).Pairwise fun first second =>
      first.body.discards.Disjoint second.body.discards := by
  -- Every vertex has a greater number than its parents.
  have hage : ∀ e ∈ failedAgain.events, ∀ child ∈ e.vertexId, ∀ parent ∈ e.parentRefs,
      parent < child := by
    decide +kernel
  have hlt : ∀ parent child, IsChild failedAgain.events parent child → parent < child := by
    rintro parent child ⟨e, he, -, hchild, hpar⟩
    exact hage e he child hchild parent hpar
  have hacy : ∀ v, ¬ TransGen (IsChild failedAgain.events) v v := by
    intro v hcyc
    have hless := hcyc.lift id hlt
    rw [Relation.transGen_eq_self] at hless
    exact lt_irrefl v hless
  have hwork : Discarding failedWork.events :=
    (((Discarding.nil.other _ rfl).other _ rfl).other _ rfl).other _ rfl
  have hdis : Discarding failedAgain.events := ((hwork.decided 5).other _ rfl).other _ rfl
  exact ⟨hacy, hdis.decided 9, by decide +kernel, (shadow_sets_exact.1 _ 1 hacy).2.2.1,
    shadow_sets_exact.2 _ (hdis.decided 9)⟩

end Flory
