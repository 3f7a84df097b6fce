import Flory.Fallible
import Flory.Recovery

/-!
# The Contract of a Recovery Decision

What a decision of the ladder guarantees, whatever the log, the failure, the policy and the locked
rows: where it may resume, which scopes it may ask to cancel, and when it may give up.

## Main results

* `mem_ancestorPlanners`: the search by levels finds the succeeded planners a vertex can reach, each
  with its distance.
* `compare_compared`: the comparison lists them all, and its best is legal and cheapest.
* `ladder_contract`: every decision keeps `DecisionContext.Contract`.
-/

namespace Flory

open Except (ok)
open Worklist (Distance Walk Reaches)

variable {scope : FoldedScope} {decision : BoundaryDecision}

/-! ### The search by levels -/

section Search

variable {events : List Event} {depth : ℕ} {search : AncestorSearch} {v x : VertexId}
  {frontier : List VertexId} {p : AncestorPlanner} {root : VertexId}

/-- **What makes a vertex a place to resume.** -/
theorem plannerAt_eq_some :
    plannerAt events depth v = some p ↔ p.vertexId = v ∧ p.depth = depth ∧
      (∃ e, createdEvent events v = some e ∧ e.body = .vertexCreated .planner) ∧
      succeededAt events v = some p.seq := by
  obtain ⟨id, seq, d⟩ := p
  unfold plannerAt
  split
  · rename_i e at_ he hat
    have hplan : e.body.isPlanner = true ↔ e.body = .vertexCreated .planner := by
      unfold EventBody.isPlanner
      split
      · rename_i hbody
        simp [hbody]
      · rename_i hbody
        simpa using hbody
    simp only [Option.ite_none_right_eq_some, hplan, Option.some.injEq, AncestorPlanner.mk.injEq,
      he, hat, exists_eq_left']
    tauto
  · rename_i hnot
    constructor
    · intro h
      cases h
    · rintro ⟨-, -, ⟨e, he, -⟩, hat⟩
      exact absurd hat (hnot e seq he)

/-- The vertices seen after a level. -/
theorem mem_seen_visits : x ∈ (frontier.foldl (AncestorSearch.visit events depth) search).seen ↔
    x ∈ search.seen ∨ x ∈ frontier := by
  induction frontier generalizing search with
  | nil => simp
  | cons y rest ih =>
    rw [List.foldl_cons, ih, AncestorSearch.visit]
    split
    · rename_i hseen
      rw [List.mem_cons]
      exact ⟨fun h => h.imp_right .inr, fun h => by
        rcases h with h | rfl | h
        exacts [.inl h, .inl hseen, .inr h]⟩
    · simp only [List.mem_cons]
      tauto

/-- The level after a level: the parents of what it saw first. -/
theorem mem_next_visits : x ∈ (frontier.foldl (AncestorSearch.visit events depth) search).next ↔
    x ∈ search.next ∨ ∃ y ∈ frontier, y ∉ search.seen ∧ x ∈ parentRefsOf events y := by
  induction frontier generalizing search with
  | nil => simp
  | cons y rest ih =>
    rw [List.foldl_cons, ih, AncestorSearch.visit]
    split
    · rename_i hseen
      simp only [List.exists_mem_cons_iff, hseen, not_true_eq_false, false_and, false_or]
    rename_i hnew
    simp only [List.mem_append, List.mem_cons, not_or]
    constructor
    · rintro ((h | h) | ⟨z, hz, hseen, h⟩)
      · exact .inl h
      · exact .inr ⟨y, .inl rfl, hnew, h⟩
      · exact .inr ⟨z, .inr hz, hseen.2, h⟩
    · rintro (h | ⟨z, hz, hseen, h⟩)
      · exact .inl (.inl h)
      by_cases heq : z = y
      · exact .inl (.inr (heq ▸ h))
      · exact .inr ⟨z, hz.resolve_left heq, ⟨heq, hseen⟩, h⟩

/-- The planners found after a level. -/
theorem mem_found_visits : p ∈ (frontier.foldl (AncestorSearch.visit events depth) search).found ↔
    p ∈ search.found ∨ (p.vertexId ∈ frontier ∧ p.vertexId ∉ search.seen ∧
      plannerAt events depth p.vertexId = some p) := by
  induction frontier generalizing search with
  | nil => simp
  | cons y rest ih =>
    rw [List.foldl_cons, ih, AncestorSearch.visit]
    split
    · rename_i hseen
      rw [List.mem_cons]
      constructor
      · exact fun h => h.imp_right fun h => ⟨.inr h.1, h.2⟩
      rintro (h | ⟨heq | hrest, h⟩)
      · exact .inl h
      · exact absurd (heq ▸ hseen) h.1
      · exact .inr ⟨hrest, h⟩
    · rename_i hnew
      simp only [List.mem_append, Option.mem_toList, List.mem_cons, not_or]
      have hid : plannerAt events depth y = some p → p.vertexId = y := fun h =>
        (plannerAt_eq_some.mp h).1
      by_cases hy : p.vertexId = y
      · subst hy
        simp [hnew]
      · simp only [hy, mt hid hy, false_or, or_false, not_false_eq_true, true_and]

/-- Planners are found once. -/
theorem nodup_found_visits (hnod : (search.found.map (·.vertexId)).Nodup)
    (hseen : ∀ p ∈ search.found, p.vertexId ∈ search.seen) :
    ((frontier.foldl (AncestorSearch.visit events depth) search).found.map (·.vertexId)).Nodup := by
  induction frontier generalizing search with
  | nil => exact hnod
  | cons y rest ih =>
    rw [List.foldl_cons, AncestorSearch.visit]
    split
    · exact ih hnod hseen
    rename_i hnew
    cases hplan : plannerAt events depth y with
    | none => exact ih (by simpa using hnod) fun p hp =>
      List.mem_cons_of_mem _ (hseen p (by simpa using hp))
    | some p =>
      have hid : p.vertexId = y := (plannerAt_eq_some.mp hplan).1
      refine ih ?_ fun q hq => ?_
      · simp only [Option.toList_some, List.map_append, List.map_cons, List.map_nil, hid]
        refine List.nodup_append.mpr ⟨hnod, List.nodup_singleton y, ?_⟩
        rintro a ha b hb rfl
        obtain ⟨q, hq, hqid⟩ := List.mem_map.mp ha
        exact hnew ((List.mem_singleton.mp hb) ▸ hqid ▸ hseen q hq)
      · rcases List.mem_append.mp hq with hq | hq
        · exact List.mem_cons_of_mem _ (hseen q hq)
        · obtain rfl := List.mem_singleton.mp hq
          exact hid ▸ List.mem_cons_self

/-- **A search before a level**: it has seen what is closer and found its planners, and the level
holds what is that far away. -/
structure AncestorSearch.Before (events : List Event) (root : VertexId) (depth : ℕ)
    (search : AncestorSearch) : Prop where
  seen : ∀ x, x ∈ search.seen ↔ ∃ n < depth, Distance (parentRefsOf events) root n x
  sound : ∀ x ∈ search.next, Walk (parentRefsOf events) root depth x
  complete : ∀ x, Distance (parentRefsOf events) root depth x → x ∈ search.next
  found : ∀ p, p ∈ search.found ↔ p.depth < depth ∧
    Distance (parentRefsOf events) root p.depth p.vertexId ∧
    plannerAt events p.depth p.vertexId = some p
  nodup : (search.found.map (·.vertexId)).Nodup

/-- The level's vertices that were not seen are those at its distance. -/
theorem AncestorSearch.Before.new (h : search.Before events root depth) :
    x ∈ search.next ∧ x ∉ search.seen ↔ Distance (parentRefsOf events) root depth x := by
  constructor
  · rintro ⟨hnext, hnew⟩
    obtain ⟨n, _, hn⟩ := (h.sound x hnext).exists_distance
    rcases Nat.lt_or_ge n depth with hlt | hge
    · exact absurd ((h.seen x).mpr ⟨n, hlt, hn⟩) hnew
    · rwa [show depth = n by omega]
  · intro hx
    refine ⟨h.complete x hx, fun hseen => ?_⟩
    obtain ⟨n, hlt, hn⟩ := (h.seen x).mp hseen
    have heq := hn.unique hx
    omega

/-- **One level.** -/
theorem AncestorSearch.Before.level (h : search.Before events root depth) :
    (search.next.foldl (AncestorSearch.visit events depth) { search with next := [] }).Before
      events root (depth + 1) where
  seen x := by
    rw [mem_seen_visits]
    constructor
    · intro hx
      by_cases hseen : x ∈ search.seen
      · obtain ⟨n, hlt, hn⟩ := (h.seen x).mp hseen
        exact ⟨n, by omega, hn⟩
      · exact ⟨depth, by omega, h.new.mp ⟨hx.resolve_left hseen, hseen⟩⟩
    · rintro ⟨n, hlt, hn⟩
      rcases Nat.lt_or_ge n depth with hlt | hge
      · exact .inl ((h.seen x).mpr ⟨n, hlt, hn⟩)
      · obtain rfl : n = depth := by omega
        exact .inr (h.complete x hn)
  sound x hx := by
    obtain hnil | ⟨y, hy, hnew, hpar⟩ := mem_next_visits.mp hx
    · cases hnil
    · exact ⟨y, (h.new.mp ⟨hy, hnew⟩).1, hpar⟩
  complete x hx := by
    obtain ⟨y, hy, hpar⟩ := hx.pred
    obtain ⟨hnext, hnew⟩ := h.new.mpr hy
    exact mem_next_visits.mpr (.inr ⟨y, hnext, hnew, hpar⟩)
  found p := by
    rw [mem_found_visits, h.found]
    constructor
    · rintro (⟨hlt, hp⟩ | ⟨hnext, hnew, hp⟩)
      · exact ⟨by omega, hp⟩
      · obtain ⟨-, hdep, -⟩ := plannerAt_eq_some.mp hp
        exact ⟨by omega, by rw [hdep]; exact ⟨h.new.mp ⟨hnext, hnew⟩, hp⟩⟩
    · rintro ⟨hlt, hdis, hp⟩
      rcases Nat.lt_or_ge p.depth depth with hless | hge
      · exact .inl ⟨hless, hdis, hp⟩
      rw [show p.depth = depth by omega] at hdis hp
      obtain ⟨hnext, hnew⟩ := h.new.mpr hdis
      exact .inr ⟨hnext, hnew, hp⟩
  nodup := nodup_found_visits h.nodup fun p hp => by
    obtain ⟨hlt, hdis, -⟩ := (h.found p).mp hp
    exact (h.seen p.vertexId).mpr ⟨p.depth, hlt, hdis⟩

/-- **The levels.** With fuel for the largest distance all planners are found. -/
theorem AncestorSearch.Before.levels {fuel : ℕ} (h : search.Before events root depth)
    (hfuel : ∀ n x, Distance (parentRefsOf events) root n x → n < depth + fuel) :
    (∀ p, p ∈ AncestorSearch.levels events fuel depth search ↔
      Distance (parentRefsOf events) root p.depth p.vertexId ∧
        plannerAt events p.depth p.vertexId = some p) ∧
    ((AncestorSearch.levels events fuel depth search).map (·.vertexId)).Nodup := by
  induction fuel generalizing depth search with
  | zero =>
    refine ⟨fun p => ?_, h.nodup⟩
    rw [AncestorSearch.levels, h.found]
    exact ⟨fun hp => hp.2, fun hp => ⟨hfuel _ _ hp.1, hp⟩⟩
  | succ fuel ih =>
    rw [AncestorSearch.levels]
    split
    · rename_i hemp
      refine ⟨fun p => ?_, h.nodup⟩
      rw [h.found]
      refine ⟨fun hp => hp.2, fun hp => ⟨?_, hp⟩⟩
      by_contra hge
      obtain ⟨y, hy⟩ := hp.1.exists_of_le (Nat.le_of_not_lt hge)
      have hnext := h.complete y hy
      rw [hemp] at hnext
      cases hnext
    · exact ih h.level fun n x hx => by
        have hlt := hfuel n x hx
        omega

/-- A vertex with parents was created by one of the events. -/
theorem exists_created_of_parent (h : x ∈ parentRefsOf events v) :
    v ∈ (events.filterMap (·.vertexId)).toFinset := by
  unfold parentRefsOf at h
  cases hcreat : createdEvent events v with
  | none =>
    rw [hcreat] at h
    cases h
  | some e =>
    have hmem := List.mem_of_getLast? hcreat
    obtain ⟨he, hid⟩ := List.mem_filter.mp hmem
    simp only [Bool.and_eq_true, beq_iff_eq] at hid
    exact List.mem_toFinset.mpr (List.mem_filterMap.mpr ⟨e, he, hid.2⟩)

/-- **The ancestor planners**: the succeeded planners among a vertex and its ancestors, each once
and with its distance. -/
theorem mem_ancestorPlanners (events : List Event) (v : VertexId) :
    (∀ p, p ∈ ancestorPlanners events v ↔
      Distance (parentRefsOf events) v p.depth p.vertexId ∧
        plannerAt events p.depth p.vertexId = some p) ∧
    ((ancestorPlanners events v).map (·.vertexId)).Nodup := by
  have hstart : AncestorSearch.Before events v 1
      { seen := [v], found := (plannerAt events 0 v).toList, next := parentRefsOf events v } := by
    have hzero : ∀ x, Distance (parentRefsOf events) v 0 x ↔ x = v := fun x =>
      ⟨fun h => h.1, fun h => ⟨h, fun m hm => absurd hm (Nat.not_lt_zero m)⟩⟩
    refine ⟨fun x => ?_, fun x hx => ⟨v, rfl, hx⟩, fun x hx => ?_, fun p => ?_, ?_⟩
    · simp [hzero]
    · obtain ⟨y, rfl, hy⟩ := hx.1
      exact hy
    · rw [Option.mem_toList, Nat.lt_one_iff]
      constructor
      · intro hp
        obtain ⟨hid, hdep, -⟩ := plannerAt_eq_some.mp hp
        rw [hid, hdep]
        exact ⟨rfl, (hzero v).mpr rfl, hp⟩
      · rintro ⟨hdep, hdis, hp⟩
        rw [hdep] at hdis hp
        rwa [(hzero _).mp hdis] at hp
    · cases plannerAt events 0 v <;> simp
  have hbound : ∀ n x, Distance (parentRefsOf events) v n x → n < 1 + (events.length + 2) := by
    intro n x hx
    have hcard := hx.le_card fun y z => exists_created_of_parent
    have hlen := (List.toFinset_card_le (events.filterMap (·.vertexId))).trans
      (List.length_filterMap_le _ _)
    omega
  obtain ⟨hmem, hnod⟩ := hstart.levels hbound
  refine ⟨fun p => by rw [ancestorPlanners, List.mem_insertionSort, hmem], ?_⟩
  exact (((List.perm_insertionSort _ _).map _).nodup_iff).mpr hnod

instance : Std.Total AncestorPlanner.before where
  total first second := by
    unfold AncestorPlanner.before
    omega

instance : IsTrans AncestorPlanner AncestorPlanner.before where
  trans first second third hone hother := by
    unfold AncestorPlanner.before at *
    omega

end Search

/-! ### Legal boundaries -/

/-- A scope is stored under its own identifier. -/
theorem scopeId_of_folded {events : List Event} {s : ScopeId}
    (h : (scopeCancellations events).get? s = some scope) : scope.scopeId = s := by
  have hreact : ∀ (scope : FoldedScope) (e : Event), (scope.react e).scopeId = scope.scopeId := by
    intro scope e
    unfold FoldedScope.react FoldedScope.apply FoldedScope.request FoldedScope.materialize
    repeat' split
    all_goals rfl
  exact folded_induction (P := fun _ scope => scope.scopeId = s)
    (fun _ e _ _ => hreact _ e) (fun _ scope e _ hscope => (hreact scope e).trans hscope)
    (fun _ _ _ _ hscope => hscope) h

namespace DecisionContext

variable {context : DecisionContext} {planner : AncestorPlanner} {done : List AncestorPlanner}
  {comparison : Comparison}

/-- The scopes a replan touches. -/
theorem mem_touchedScopes {boundary : VertexId} :
    scope ∈ context.touchedScopes boundary ↔ scope ∈ context.scopes.values ∧
      scope.phase ≠ .unmaterialized ∧
      ∃ v ∈ scope.members, v ∈ shadowSet context.events boundary := by
  simp [touchedScopes, List.mem_insertionSort]

/-- The phase of a scope of the fold. -/
theorem phase_of_mem (h : scope ∈ context.scopes.values) :
    context.phase scope.scopeId = scope.phase := by
  obtain ⟨entry, hent, rfl⟩ := List.mem_map.mp h
  have hget : context.scopes.get? entry.1 = some entry.2 :=
    OrderedMap.get?_eq_some_iff.mpr hent
  rw [scopeId_of_folded hget, phase, hget]
  rfl

/-- **A legal boundary**: it stands at the floor or above, touches nothing that cannot be undone,
reaches back behind no scope that is undone, and has replans left. -/
theorem verdictFor_eq_ok {required : List ScopeId} (h : context.verdictFor planner = ok required) :
    backtrackFloor context.events ≤ planner.seq ∧
    (∀ scope ∈ context.touchedScopes planner.vertexId, scope.phase.unrecoverable = false) ∧
    (∀ scope ∈ context.touchedScopes planner.vertexId, scope.phase = .cancelled →
      context.failedAt < scope.cancelledSeq.getD 0 → planner.seq ≤ scope.firstMemberSeq) ∧
    replansAt context.events planner.vertexId < context.policy.maxReplansPerPlanner ∧
    ∀ s, s ∈ required ↔ ∃ scope ∈ context.touchedScopes planner.vertexId,
      scope.phase.cancellable = true ∧ scope.scopeId = s := by
  unfold verdictFor at h
  dsimp only at h
  split at h
  · cases h
  rename_i hfloor
  split at h
  · cases h
  rename_i hbrac
  split at h
  · cases h
  rename_i hsav
  split at h
  · cases h
  rename_i hcoun
  cases h
  refine ⟨Nat.le_of_not_lt hfloor, ?_, ?_, Nat.lt_of_not_le hcoun, fun s => ?_⟩
  · simpa using hbrac
  · intro scope hscope hphase hsin
    refine Nat.le_of_not_lt fun hbef => hsav (List.any_eq_true.mpr ⟨scope, ?_, by simpa⟩)
    exact List.mem_append_right _ (List.mem_filter.mpr ⟨hscope, by simp [hphase, hsin]⟩)
  · simp [List.mem_insertionSort, and_assoc]

/-- What is priced has the planner's name and the scopes it requires. -/
theorem price_eq_ok {required : List ScopeId} {priced : BoundaryCandidate}
    (h : context.price planner required = ok priced) :
    priced.plannerVertexId = planner.vertexId ∧ priced.plannerSeq = planner.seq ∧
      priced.rejected = none ∧ priced.requiresCancel = required := by
  unfold price at h
  split at h
  · cases h
    exact ⟨rfl, rfl, rfl, rfl⟩
  · cases h

/-- **The comparison so far**: it lists the planners considered, and its best is a legal one of
them that no other beats. -/
structure Compared (context : DecisionContext) (done : List AncestorPlanner)
    (comparison : Comparison) : Prop where
  listed : comparison.candidates.map (fun c => (c.plannerVertexId, c.plannerSeq)) =
    done.map fun p => (p.vertexId, p.seq)
  cheapest : ∀ candidate ∈ comparison.candidates, candidate.rejected = none →
    ∃ best ∈ comparison.best, best.1.cost.getD 0 ≤ candidate.cost.getD 0
  chosen : ∀ best ∈ comparison.best, best.1 ∈ comparison.candidates ∧ best.1.rejected = none ∧
    ∃ planner ∈ done, best.1.plannerVertexId = planner.vertexId ∧
      best.1.plannerSeq = planner.seq ∧ context.verdictFor planner = ok best.1.requiresCancel

/-- A rejected planner. -/
theorem Compared.reject (h : context.Compared done comparison) (planner : AncestorPlanner)
    (reason : RejectionReason) :
    context.Compared (done ++ [planner])
      { comparison with
        candidates := comparison.candidates ++
          [{ plannerVertexId := planner.vertexId, plannerSeq := planner.seq,
             rejected := some reason }] } where
  listed := by simp [h.listed]
  cheapest candidate hcan hleg := by
    rcases List.mem_append.mp hcan with hold | hnew
    · exact h.cheapest candidate hold hleg
    · obtain rfl := List.mem_singleton.mp hnew
      cases hleg
  chosen best hbest := by
    obtain ⟨hmem, hleg, planner, hplan, hsame⟩ := h.chosen best hbest
    exact ⟨List.mem_append_left _ hmem, hleg, planner, List.mem_append_left _ hplan, hsame⟩

/-- A legal planner at its price. -/
theorem Compared.accept (h : context.Compared done comparison) {priced : BoundaryCandidate}
    {best : BoundaryCandidate × ℕ}
    (hver : context.verdictFor planner = ok priced.requiresCancel)
    (hid : priced.plannerVertexId = planner.vertexId) (hseq : priced.plannerSeq = planner.seq)
    (hleg : priced.rejected = none) (hbest : best.1 = priced ∨ comparison.best = some best)
    (hpric : best.1.cost.getD 0 ≤ priced.cost.getD 0)
    (hold : ∀ old ∈ comparison.best, best.1.cost.getD 0 ≤ old.1.cost.getD 0) :
    context.Compared (done ++ [planner])
      { candidates := comparison.candidates ++ [priced], best := some best } where
  listed := by simp [h.listed, hid, hseq]
  cheapest candidate hcan hnone := by
    refine ⟨best, rfl, ?_⟩
    rcases List.mem_append.mp hcan with hmem | hnew
    · obtain ⟨old, hmem, hle⟩ := h.cheapest candidate hmem hnone
      exact (hold old hmem).trans hle
    · obtain rfl := List.mem_singleton.mp hnew
      exact hpric
  chosen chosen hchos := by
    cases hchos
    rcases hbest with heq | hkept
    · rw [heq]
      exact ⟨by simp, hleg, planner, by simp, hid, hseq, hver⟩
    · obtain ⟨hmem, hnone, planner, hplan, hsame⟩ := h.chosen _ hkept
      exact ⟨List.mem_append_left _ hmem, hnone, planner, List.mem_append_left _ hplan, hsame⟩

/-- **One planner of the comparison.** -/
theorem Compared.consider {comparison' : Comparison} (h : context.Compared done comparison)
    (hstep : context.consider comparison planner = ok comparison') :
    context.Compared (done ++ [planner]) comparison' := by
  unfold DecisionContext.consider at hstep
  dsimp only at hstep
  split at hstep
  · cases hstep
    exact h.reject planner _
  rename_i required hver
  split at hstep
  · cases hstep
  rename_i priced hprice
  obtain ⟨hid, hseq, hleg, hreq⟩ := price_eq_ok hprice
  rw [← hreq] at hver
  split at hstep
  · cases hstep
    exact h.reject planner _
  cases hstep
  cases hbest : comparison.best with
  | none =>
    exact h.accept hver hid hseq hleg (.inl rfl) le_rfl (by simp [hbest])
  | some best =>
    dsimp only
    split
    · rename_i hlt
      refine h.accept hver hid hseq hleg (.inl rfl) le_rfl fun old hold => ?_
      rw [hbest] at hold
      cases hold
      exact hlt.le
    · rename_i hge
      refine h.accept hver hid hseq hleg (.inr hbest) (not_lt.mp hge) fun old hold => ?_
      rw [hbest] at hold
      cases hold
      exact le_rfl

/-- **The comparison.** -/
theorem compare_compared (h : context.compare = ok comparison) :
    context.Compared (ancestorPlanners context.events context.failedVertexId) comparison := by
  suffices hloop : ∀ (planners done : List AncestorPlanner) (before : Comparison),
      context.Compared done before → planners.foldlM context.consider before = ok comparison →
      context.Compared (done ++ planners) comparison from
    hloop _ [] {} ⟨rfl, by simp, by simp⟩ h
  intro planners
  induction planners with
  | nil =>
    intro done before hbef hrun
    cases hrun
    rwa [List.append_nil]
  | cons planner rest ih =>
    intro done before hbef hrun
    simp only [List.foldlM, Fallible.bind_eq_ok] at hrun
    obtain ⟨next, hnext, hrest⟩ := hrun
    have hdone := ih (done ++ [planner]) next (hbef.consider hnext) hrest
    rwa [List.append_assoc] at hdone

/-! ### The contract -/

/-- A succeeded planner that is a vertex or one of its ancestors. -/
structure PlannerAbove (events : List Event) (v P : VertexId) (seq : ℕ) : Prop where
  created : ∃ e, createdEvent events P = some e ∧ e.body = .vertexCreated .planner
  succeeded : succeededAt events P = some seq
  ancestor : P = v ∨ Reaches (parentRefsOf events) v P

/-- The candidates are all planners above a vertex, each once and the nearest first. -/
structure ListsPlanners (events : List Event) (v : VertexId)
    (candidates : List BoundaryCandidate) : Prop where
  complete : ∀ P seq, (P, seq) ∈ candidates.map (fun c => (c.plannerVertexId, c.plannerSeq)) ↔
    PlannerAbove events v P seq
  once : (candidates.map (·.plannerVertexId)).Nodup
  nearest : candidates.Pairwise fun first second => ∀ n m,
    Distance (parentRefsOf events) v n first.plannerVertexId →
    Distance (parentRefsOf events) v m second.plannerVertexId → n ≤ m

/-- **What resuming at a planner guarantees.** -/
structure Resumes (context : DecisionContext) (decision : BoundaryDecision) (P : VertexId)
    (seq : ℕ) : Prop where
  above : PlannerAbove context.events context.failedVertexId P seq
  floor : backtrackFloor context.events ≤ seq
  discarded : ∀ scope ∈ context.scopes.values, scope.phase ≠ .unmaterialized →
    (∃ v ∈ scope.members, v ∈ shadowSet context.events P) →
    scope.phase = .cancelled ∨ scope.phase = .committed
  settled : ∀ scope ∈ context.scopes.values, scope.phase ∉
    [.suspended, .fenced, .cancelRequested, .cancelling, .pivotInflight, .pivotPassed]
  savepoint : ∀ scope ∈ context.scopes.values, scope.phase = .cancelled →
    context.failedAt < scope.cancelledSeq.getD 0 →
    (∃ v ∈ scope.members, v ∈ shadowSet context.events P) → seq ≤ scope.firstMemberSeq
  cheapest : ∃ best ∈ decision.candidates, best.plannerVertexId = P ∧ best.rejected = none ∧
    ∀ other ∈ decision.candidates, other.rejected = none →
      best.cost.getD 0 ≤ other.cost.getD 0
  listed : ListsPlanners context.events context.failedVertexId decision.candidates
  counted : replansAt context.events P < context.policy.maxReplansPerPlanner
  episode : replanEpisode context.events < context.policy.maxReplansPerEpisode

/-- **The contract of a decision.** -/
structure Contract (context : DecisionContext) (decision : BoundaryDecision) : Prop where
  resumes : ∀ P, decision.selected = some P →
    ∃ seq, decision.selectedSeq = some seq ∧ context.Resumes decision P seq
  requests : decision.action = .request → decision.requestScopes ≠ [] ∧
    ∀ s ∈ decision.requestScopes, context.phase s = .opened ∨ context.phase s = .fenced
  waits : decision.action = .wait → decision.awaitedScopes ≠ []
  escalates : decision.action = .record → decision.selected = none →
    (∀ own ∈ context.ownScope, own.phase ∉
      [.opened, .fenced, .cancelRequested, .cancelling, .pivotInflight]) ∧
    ∀ scope ∈ context.scopes.values, scope.requestedFor = some context.failedVertexId →
      scope.phase ≠ .cancelRequested ∧ scope.phase ≠ .cancelling

/-- A decision to wait. -/
theorem Contract.wait (hact : decision.action = .wait) (hsel : decision.selected = none)
    (h : decision.awaitedScopes ≠ []) : context.Contract decision where
  resumes P hP := by simp [hsel] at hP
  requests hreq := by simp [hact] at hreq
  waits _ := h
  escalates hrec := by simp [hact] at hrec

/-- A request. -/
theorem Contract.request (hact : decision.action = .request)
    (hsel : decision.selected = none) (hne : decision.requestScopes ≠ [])
    (h : ∀ s ∈ decision.requestScopes, context.phase s = .opened ∨ context.phase s = .fenced) :
    context.Contract decision where
  resumes P hP := by simp [hsel] at hP
  requests _ := ⟨hne, h⟩
  waits hwait := by simp [hact] at hwait
  escalates hrec := by simp [hact] at hrec

/-- The failure's own scope is one of the fold. -/
theorem mem_of_ownScope {own : FoldedScope} (h : context.ownScope = some own) :
    own ∈ context.scopes.values := by
  obtain ⟨s, -, hget⟩ := Option.bind_eq_some_iff.mp h
  exact List.mem_map.mpr ⟨(s, own), OrderedMap.get?_eq_some_iff.mp hget, rfl⟩

/-- Nothing asked for this failure is unresolved. -/
theorem resolved_of_unresolvedRequests (h : context.unresolvedRequests = []) :
    ∀ scope ∈ context.scopes.values, scope.requestedFor = some context.failedVertexId →
      scope.phase ≠ .cancelRequested ∧ scope.phase ≠ .cancelling := by
  intro scope hscope hfor
  have hnot := List.filter_eq_nil_iff.mp (List.map_eq_nil_iff.mp h) scope hscope
  simpa [hfor] using hnot

/-- **The end of the ladder keeps the contract.** -/
theorem terminal_contract {base : BoundaryDecision} (hbase : base.selected = none)
    (level : RecoveryLevel) (reason : String) :
    context.Contract (context.terminal base level reason) := by
  unfold terminal
  dsimp only
  split
  · rename_i hund
    refine .request rfl hbase (by simpa using hund) fun s hs => ?_
    obtain ⟨own, hown, rfl⟩ := List.mem_map.mp hs
    obtain ⟨hown, hphase⟩ := List.mem_filter.mp hown
    rw [phase_of_mem (mem_of_ownScope (Option.mem_toList.mp hown))]
    simpa using hphase
  rename_i hund
  split
  · rename_i hawait
    obtain ⟨s, hs⟩ := List.exists_mem_of_ne_nil _ hawait
    refine .wait rfl hbase (List.ne_nil_of_mem (a := s) ?_)
    exact (List.mem_insertionSort _).mpr (OrderedSet.mem_ofList.mpr hs)
  · rename_i hawait
    obtain ⟨hunr, hset⟩ := List.append_eq_nil_iff.mp (not_not.mp hawait)
    refine ⟨fun P hP => ?_, nofun, nofun, fun _ _ => ⟨?_, ?_⟩⟩
    · exact absurd (hbase.symm.trans hP) (by simp)
    · intro own hown
      have hfir := List.filter_eq_nil_iff.mp (not_not.mp hund) own (Option.mem_toList.mpr hown)
      have hsec := List.filter_eq_nil_iff.mp (List.map_eq_nil_iff.mp hset) own
        (Option.mem_toList.mpr hown)
      cases hphase : own.phase <;> simp_all
    · exact resolved_of_unresolvedRequests hunr

/-- No scope of the run refuses a freeze. -/
theorem settled_of_runBlocks (h : context.runBlocks = []) (hscope : scope ∈ context.scopes.values) :
    scope.phase.transient = false := by
  by_contra htran
  have hmem : scope.scopeId ∈ context.runBlocks := by
    refine (List.mem_insertionSort _).mpr (OrderedSet.mem_ofList.mpr (List.mem_append_left _ ?_))
    exact List.mem_map.mpr ⟨scope, List.mem_filter.mpr ⟨hscope, by simpa using htran⟩, rfl⟩
  rw [h] at hmem
  cases hmem

/-- The comparison lists the planners. -/
theorem Compared.listsPlanners
    (h : context.Compared (ancestorPlanners context.events context.failedVertexId) comparison) :
    ListsPlanners context.events context.failedVertexId comparison.candidates := by
  obtain ⟨hmem, hnod⟩ := mem_ancestorPlanners context.events context.failedVertexId
  have hids : comparison.candidates.map (·.plannerVertexId) =
      (ancestorPlanners context.events context.failedVertexId).map (·.vertexId) := by
    have hlis := congrArg (List.map Prod.fst) h.listed
    rwa [List.map_map, List.map_map] at hlis
  refine ⟨fun P seq => ?_, hids ▸ hnod, ?_⟩
  · rw [h.listed, List.mem_map]
    constructor
    · rintro ⟨p, hp, heq⟩
      cases heq
      obtain ⟨hdis, hplan⟩ := (hmem p).mp hp
      obtain ⟨-, -, hcreat, hsuc⟩ := plannerAt_eq_some.mp hplan
      exact ⟨hcreat, hsuc, Worklist.exists_distance_iff.mp ⟨_, hdis⟩⟩
    · intro habove
      obtain ⟨n, hn⟩ := Worklist.exists_distance_iff.mpr habove.ancestor
      refine ⟨⟨P, seq, n⟩, (hmem _).mpr ⟨hn, ?_⟩, rfl⟩
      exact plannerAt_eq_some.mpr ⟨rfl, rfl, habove.created, habove.succeeded⟩
  · have hnear : (comparison.candidates.map (·.plannerVertexId)).Pairwise fun first second =>
        ∀ n m, Distance (parentRefsOf context.events) context.failedVertexId n first →
          Distance (parentRefsOf context.events) context.failedVertexId m second → n ≤ m := by
      rw [hids, List.pairwise_map]
      refine (List.pairwise_insertionSort AncestorPlanner.before _).imp_of_mem ?_
      intro first second hfir hsec hbef n m hn hm
      obtain rfl := hn.unique ((hmem _).mp hfir).1
      obtain rfl := hm.unique ((hmem _).mp hsec).1
      unfold AncestorPlanner.before at hbef
      omega
    exact List.pairwise_map.mp hnear

/-- **A chosen boundary keeps the contract**: it is recorded once nothing has to be cancelled,
awaited or settled first. -/
theorem atBoundary_contract {best : BoundaryCandidate} {depth : ℕ}
    (hcom : context.Compared (ancestorPlanners context.events context.failedVertexId) comparison)
    (hbest : comparison.best = some (best, depth)) (hsus : context.suspendedScopes = [])
    (hepis : replanEpisode context.events < context.policy.maxReplansPerEpisode) :
    context.Contract (context.atBoundary comparison.candidates best depth) := by
  obtain ⟨hmem, hleg, planner, _, hid, hseq, hver⟩ := hcom.chosen _ hbest
  obtain ⟨_, -, hsav, _, hreq⟩ := verdictFor_eq_ok hver
  dsimp only at hid hseq hreq hmem hleg
  unfold atBoundary
  dsimp only
  split
  · rename_i hrequest
    refine .request rfl rfl hrequest fun s hs => ?_
    simpa using (List.mem_filter.mp hs).2
  split
  · rename_i hwait
    exact .wait rfl rfl hwait
  rename_i hnone
  split
  · rename_i hwait
    exact .wait rfl rfl hwait
  rename_i hbloc
  have hemp : ∀ s, s ∉ best.requiresCancel ∧ s ∉ context.unresolvedRequests := by
    intro s
    rw [← not_or, ← List.mem_append]
    intro hs
    refine hnone (List.ne_nil_of_mem (a := s) ?_)
    exact (List.mem_insertionSort _).mpr (OrderedSet.mem_ofList.mpr hs)
  have hset := fun scope (hscope : scope ∈ context.scopes.values) =>
    settled_of_runBlocks (not_not.mp hbloc) hscope
  have huns : ∀ scope ∈ context.scopes.values, scope.phase ≠ .suspended := by
    intro scope hscope
    have hnot := List.filter_eq_nil_iff.mp (List.map_eq_nil_iff.mp hsus) scope hscope
    simpa using hnot
  have hlis := hcom.listsPlanners
  refine ⟨fun P hP => ?_, nofun, nofun, nofun⟩
  cases hP
  refine ⟨best.plannerSeq, rfl, ?_, by rwa [hseq], ?_, ?_, ?_, ?_, hlis, by rwa [hid], hepis⟩
  · exact (hlis.complete _ _).mp (List.mem_map.mpr ⟨best, hmem, rfl⟩)
  · intro scope hscope hphase htouc
    have htouch : scope ∈ context.touchedScopes planner.vertexId :=
      mem_touchedScopes.mpr ⟨hscope, hphase, by rwa [← hid]⟩
    have hkept : scope.phase.cancellable ≠ true := fun hcan =>
      (hemp scope.scopeId).1 ((hreq _).mpr ⟨scope, htouch, hcan, rfl⟩)
    have hquiet := hset scope hscope
    have hfree := huns scope hscope
    cases hcase : scope.phase <;>
      simp_all [ScopePhase.cancellable, ScopePhase.transient]
  · intro scope hscope
    have hquiet := hset scope hscope
    have hfree := huns scope hscope
    cases hcase : scope.phase <;> simp_all [ScopePhase.transient]
  · intro scope hscope hphase hsin htouc
    rw [hseq]
    refine hsav scope (mem_touchedScopes.mpr ⟨hscope, by simp [hphase], ?_⟩) hphase hsin
    rwa [← hid]
  · refine ⟨best, hmem, rfl, hleg, fun other hoth hnot => ?_⟩
    obtain ⟨_, hchos, hle⟩ := hcom.cheapest other hoth hnot
    rw [hbest] at hchos
    cases hchos
    exact hle

end DecisionContext

/-- A decision of the ladder keeps the contract. -/
theorem ladder_decision {context : DecisionContext} (h : selectBoundary context = ok decision) :
    context.Contract decision := by
  unfold selectBoundary at h
  dsimp only at h
  split at h
  · rename_i hdis
    cases h
    exact .wait rfl rfl hdis
  unfold DecisionContext.decideOnLog at h
  dsimp only at h
  split at h
  · cases h
    exact DecisionContext.terminal_contract rfl _ _
  split at h
  · cases h
    exact DecisionContext.terminal_contract rfl _ _
  rename_i hepis
  split at h
  · cases h
    exact DecisionContext.terminal_contract rfl _ _
  rename_i hsus
  split at h
  · cases h
  split at h
  · cases h
  rename_i comparison hcomp
  have hcom := DecisionContext.compare_compared hcomp
  split at h
  · cases h
    exact DecisionContext.terminal_contract rfl _ _
  rename_i best depth hbest
  cases h
  exact DecisionContext.atBoundary_contract hcom hbest (not_not.mp hsus) (Nat.lt_of_not_le hepis)

/-- **The ladder's decision contract**, on every path of `selectBoundary`. -/
theorem ladder_contract (context : DecisionContext) (decision : BoundaryDecision)
    (h : selectBoundary context = ok decision) : context.Contract decision :=
  ladder_decision h

/-- A planner, work it planned, and the failure of that work. -/
def failedWork : DecisionContext where
  events :=
    [{ body := .vertexCreated .planner, vertexId := some 1, runId := 1, runSeq := 1 },
     { body := .vertexSucceeded { result := .null }, vertexId := some 1, runId := 1, runSeq := 2 },
     { body := .vertexCreated .barrier, vertexId := some 2, parentRefs := [1],
       runId := 1, runSeq := 3 },
     { body := .vertexFailed ⟨1, "", .response .permanentFailure⟩, vertexId := some 2, runId := 1,
       runSeq := 4 }]
  failedVertexId := 2
  policy := { pricing := ⟨1, 2, "USD"⟩ }
  locked := some []
  promptLength _ _ := 400

/-- A bracket behind a planner fails in its scope, which is then cancelled: as many of these events
as are logged. -/
def scopedWork (logged : ℕ) : DecisionContext :=
  { failedWork with
    events :=
      [{ body := .vertexCreated .planner, vertexId := some 1, runId := 1, runSeq := 1 },
       { body := .vertexSucceeded { result := .null }, vertexId := some 1, runId := 1, runSeq := 2 },
       { body := .vertexCreated .barrier, vertexId := some 2, scopeId := some 7, parentRefs := [1],
         runId := 1, runSeq := 3 },
       { body := .txnScope { state := .opened }, scopeId := some 7, runId := 1, runSeq := 4 },
       { body := .vertexFailed ⟨1, "", .response .permanentFailure⟩, vertexId := some 2,
         scopeId := some 7, runId := 1, runSeq := 5 },
       { body := .replanCancelRequested { failedVertexId := 2, scopeIds := [7] }, runId := 1,
         runSeq := 6 },
       { body := .txnScope { state := .cancelled }, scopeId := some 7, runId := 1,
         runSeq := 7 }].take logged
    locked := some
      [{ scopeId := 7, state := if logged < 7 then .opened else .cancelled, pivotCount := 0,
         hasSealedTry := false, hasExpiredTry := false, fenced := logged < 7 }] }

/-- The cancellation of the fenced scope is requested, then awaited, and when the scope is cancelled
the run resumes at the planner, discarding the scope's vertex. -/
theorem ladder_contract_scopedWork :
    ((scopedWork 5).phase 7 = .fenced ∧
      ∃ decision, selectBoundary (scopedWork 5) = ok decision ∧ decision.action = .request ∧
        decision.requestScopes = [7] ∧ (scopedWork 5).Contract decision) ∧
    ((scopedWork 6).phase 7 = .cancelRequested ∧
      ∃ decision, selectBoundary (scopedWork 6) = ok decision ∧ decision.action = .wait ∧
        decision.awaitedScopes = [7] ∧ (scopedWork 6).Contract decision) ∧
    (scopedWork 7).phase 7 = .cancelled ∧
      ∃ decision, selectBoundary (scopedWork 7) = ok decision ∧ decision.selected = some 1 ∧
        decision.shadowed = [2] ∧ (scopedWork 7).Contract decision := by
  obtain ⟨request, hrequest, hreq⟩ := Fallible.exists_ok_of_any (selectBoundary (scopedWork 5))
    (fun decision => decision.action = .request ∧ decision.requestScopes = [7]) (by decide +kernel)
  obtain ⟨wait, hwait, hawait⟩ := Fallible.exists_ok_of_any (selectBoundary (scopedWork 6))
    (fun decision => decision.action = .wait ∧ decision.awaitedScopes = [7]) (by decide +kernel)
  obtain ⟨resume, hresume, hres⟩ := Fallible.exists_ok_of_any (selectBoundary (scopedWork 7))
    (fun decision => decision.selected = some 1 ∧ decision.shadowed = [2]) (by decide +kernel)
  have hreq := of_decide_eq_true hreq
  have hawait := of_decide_eq_true hawait
  have hres := of_decide_eq_true hres
  exact
    ⟨⟨by decide +kernel, request, hrequest, hreq.1, hreq.2, ladder_contract _ request hrequest⟩,
      ⟨by decide +kernel, wait, hwait, hawait.1, hawait.2, ladder_contract _ wait hwait⟩,
      by decide +kernel, resume, hresume, hres.1, hres.2, ladder_contract _ resume hresume⟩

end Flory
