import Mathlib.Algebra.Order.BigOperators.Group.Finset
import Flory.Ladder

/-!
# How Often a Run is Replanned

A log grows by the ladder's decisions and by any other events. Each boundary that selects a planner
was decided on the log before it, where the planner had selections left and the episode had replans
left. The bounds are read off that.

The episode is counted from the last freeze all of whose vertices have succeeded. A creation behind
such a freeze may make it an unfinished one again, but not once another event has followed it: what
a decision saw finished stays finished, because the decision itself follows it.

## Main results

* `Grown.decided`: every selection was decided on the log before it.
* `replanning_bounded`: no prefix of a log exceeds the bounds of its policy.
-/

namespace Flory

open Except (ok)

/-! ### Selections -/

/-- The planner an event selects to resume at. -/
def Event.selection (e : Event) : Option VertexId :=
  e.body.boundary?.bind (·.selected)

/-- The planners a log selects, one for each replan. -/
def selections (events : List Event) : List VertexId :=
  events.filterMap Event.selection

/-- The planners of a log. -/
def plannersOf (events : List Event) : List VertexId :=
  events.filterMap fun e => if e.body.isPlanner then e.vertexId else none

/-- Whether an event is a freeze. -/
def EventBody.isFreeze : EventBody → Bool
  | .subgraph (.frozen _) => true
  | _ => false

/-- The freezes of a part of a log all of whose vertices have succeeded. -/
def resolvedFreezes (events : List Event) : List Event → List ℕ
  | [] => []
  | e :: rest =>
    if e.body.isFreeze && freezeResolved events rest then
      e.runSeq :: resolvedFreezes events rest
    else
      resolvedFreezes events rest

/-- The selections after a point of the log. -/
def selectionsAfter (seq : ℕ) (events : List Event) : List VertexId :=
  selections (events.filter fun e => decide (seq < e.runSeq))

section Folds

variable {events before after rest : List Event} {e : Event} {last : ℕ}

/-- The last resolved freeze is the last of the resolved ones. -/
theorem lastResolved_eq :
    lastResolved events last rest = (resolvedFreezes events rest).getLast?.getD last := by
  induction rest generalizing last with
  | nil => rfl
  | cons e rest ih =>
    rw [lastResolved, resolvedFreezes]
    split
    · rename_i hbody
      rw [ih]
      simp only [hbody, EventBody.isFreeze, Bool.true_and]
      split <;> cases resolvedFreezes events rest <;> simp [List.getLast?_cons]
    · rename_i hbody
      have hnot : e.body.isFreeze = false := by
        unfold EventBody.isFreeze
        split
        · exact absurd ‹_› (hbody _)
        · rfl
      rw [ih, hnot]
      rfl

/-- The number of selections of a planner. -/
theorem replansAt_eq_count (planner : VertexId) :
    replansAt events planner = (selections events).count planner := by
  unfold replansAt selections
  induction events with
  | nil => rfl
  | cons e rest ih =>
    cases hsel : e.body.boundary?.bind (·.selected) with
    | none => simp [Event.selection, hsel, ih]
    | some P => by_cases hP : P = planner <;> simp [Event.selection, hsel, hP, ih]

/-- Successes stay. -/
theorem freezeResolved_mono (h : freezeResolved events rest = true) (after : List Event) :
    freezeResolved (events ++ after) rest = true := by
  simp only [freezeResolved, Bool.and_eq_true, List.all_eq_true] at h ⊢
  refine ⟨h.1, fun v hv => ?_⟩
  have hsome := h.2 v hv
  simp only [succeededAt, Option.isSome_map, List.getLast?_isSome] at hsome ⊢
  rw [List.filter_append]
  exact List.append_ne_nil_of_left_ne_nil hsome _

/-- What follows another event is not created by a freeze before it. -/
theorem freezeResolved_append (he : e.body.isCreated = false) :
    freezeResolved events (rest ++ e :: after) = freezeResolved events rest := by
  have hcreat : (rest ++ e :: after).takeWhile (fun e => e.body.isCreated) =
      rest.takeWhile fun e => e.body.isCreated := by
    induction rest with
    | nil => simp [he]
    | cons first rest ih =>
      rw [List.cons_append, List.takeWhile_cons, List.takeWhile_cons, ih]
  simp only [freezeResolved, hcreat]

/-- **What is finished before another event stays finished.** -/
theorem resolvedFreezes_append (before after : List Event) (he : e.body.isCreated = false) :
    List.Sublist
      (resolvedFreezes before before ++ resolvedFreezes (before ++ e :: after) (e :: after))
      (resolvedFreezes (before ++ e :: after) (before ++ e :: after)) := by
  suffices hpart : ∀ part, List.Sublist
      (resolvedFreezes before part ++ resolvedFreezes (before ++ e :: after) (e :: after))
      (resolvedFreezes (before ++ e :: after) (part ++ e :: after)) from hpart before
  intro part
  induction part with
  | nil => exact List.Sublist.refl _
  | cons first part ih =>
    rw [List.cons_append, resolvedFreezes.eq_2 _ first, resolvedFreezes.eq_2 _ first,
      freezeResolved_append he]
    split
    · rename_i hres
      simp only [Bool.and_eq_true] at hres
      rw [if_pos (by simp [hres.1, freezeResolved_mono hres.2])]
      exact ih.cons_cons _
    · split
      · exact ih.cons _
      · exact ih

/-- The resolved freezes have their numbers from the log. -/
theorem resolvedFreezes_sublist (events rest : List Event) :
    List.Sublist (resolvedFreezes events rest) (rest.map (·.runSeq)) := by
  induction rest with
  | nil => exact List.Sublist.refl _
  | cons e rest ih =>
    rw [resolvedFreezes, List.map_cons]
    split
    · exact ih.cons_cons _
    · exact ih.cons _

/-- A resolved freeze is an event of the log that creates and selects nothing. -/
theorem exists_freeze {seq : ℕ} (h : seq ∈ resolvedFreezes events rest) :
    ∃ before e after, rest = before ++ e :: after ∧ e.runSeq = seq ∧ e.body.isCreated = false ∧
      e.selection = none ∧ seq ∈ resolvedFreezes events (e :: after) := by
  induction rest with
  | nil => cases h
  | cons e rest ih =>
    by_cases hrest : seq ∈ resolvedFreezes events rest
    · obtain ⟨before, f, after, rfl, hf⟩ := ih hrest
      exact ⟨e :: before, f, after, rfl, hf⟩
    have hhead := h
    rw [resolvedFreezes] at hhead
    split at hhead
    · rename_i hfreez
      obtain ⟨n, hbody⟩ : ∃ n, e.body = .subgraph (.frozen n) := by
        unfold EventBody.isFreeze at hfreez
        split at hfreez
        · exact ⟨_, ‹_›⟩
        · cases hfreez
      exact ⟨[], e, rest, rfl, ((List.mem_cons.mp hhead).resolve_right hrest).symm,
        by simp [hbody, EventBody.isCreated],
        by simp [Event.selection, hbody, EventBody.boundary?], h⟩
    · exact absurd hhead hrest

theorem selections_append : selections (before ++ after) = selections before ++ selections after :=
  List.filterMap_append

end Folds

/-! ### Growing logs -/

/-- The numbers of a log begin at one and increase. -/
structure Increasing (events : List Event) : Prop where
  positive : ∀ e ∈ events, 0 < e.runSeq
  increasing : events.Pairwise fun first second => first.runSeq < second.runSeq

/-- **A log grown by the ladder.** A decision is taken on the whole log under the policy, whatever
the failure, the locked rows and the prices, and its drafts are appended. Any event that is no
boundary may come in between. -/
inductive Grown (policy : RecoveryPolicy) : List Event → Prop
  | nil : Grown policy []
  | other {log : List Event} (h : Grown policy log) (e : Event) (hbody : e.body.boundary? = none)
      (hincreasing : Increasing (log ++ [e])) : Grown policy (log ++ [e])
  | decision {log : List Event} (h : Grown policy log) (context : DecisionContext)
      (hevents : context.events = log) (hpolicy : context.policy = policy)
      {decision : BoundaryDecision} {drafts : List EventDraft}
      (hdecided : decideRecovery context = ok (decision, drafts)) (new : List Event)
      (hnew : new.map (·.body) = drafts.map (·.body)) (hincreasing : Increasing (log ++ new)) :
      Grown policy (log ++ new)

/-- A log on which a selection may be decided. -/
structure Selectable (policy : RecoveryPolicy) (log : List Event) (planner : VertexId) : Prop where
  known : planner ∈ plannersOf log
  counted : replansAt log planner < policy.maxReplansPerPlanner
  episode : replanEpisode log < policy.maxReplansPerEpisode

/-- Every selection was decided on the log before it. -/
def Decided (policy : RecoveryPolicy) (log : List Event) : Prop :=
  ∀ before e after planner, log = before ++ e :: after → e.selection = some planner →
    Selectable policy before planner

section Bounds

variable {policy : RecoveryPolicy} {log before after : List Event} {e : Event} {planner : VertexId}

theorem Decided.left (h : Decided policy (before ++ after)) : Decided policy before :=
  fun earlier e later planner hspl =>
    h earlier e (later ++ after) planner (by rw [hspl, List.append_assoc, List.cons_append])

theorem Increasing.left (h : Increasing (before ++ after)) : Increasing before :=
  ⟨fun e he => h.positive e (List.mem_append_left _ he), (List.pairwise_append.mp h.increasing).1⟩

/-- One more event. -/
theorem Decided.snoc (h : Decided policy log)
    (he : ∀ planner, e.selection = some planner → Selectable policy log planner) :
    Decided policy (log ++ [e]) := by
  intro before b after planner hspl hsel
  rcases List.eq_nil_or_concat after with rfl | ⟨init, last, rfl⟩
  · obtain ⟨rfl, hlast⟩ := List.append_inj' hspl rfl
    obtain rfl := (List.cons.inj hlast).1
    exact he planner hsel
  · rw [List.concat_eq_append, ← List.cons_append, ← List.append_assoc] at hspl
    exact h before b init planner (List.append_inj' hspl rfl).1 hsel

/-- A decision that selects a planner finds its log selectable. -/
theorem selectable_of_selectBoundary {context : DecisionContext} {decision : BoundaryDecision}
    (h : selectBoundary context = ok decision) (hsel : decision.selected = some planner) :
    Selectable context.policy context.events planner := by
  obtain ⟨_, -, hres⟩ := (ladder_decision h).resumes planner hsel
  refine ⟨?_, hres.counted, hres.episode⟩
  obtain ⟨created, hcreat, hbody⟩ := hres.above.created
  obtain ⟨hmem, hid⟩ := List.mem_filter.mp (List.mem_of_getLast? hcreat)
  simp only [Bool.and_eq_true, beq_iff_eq] at hid
  exact List.mem_filterMap.mpr ⟨created, hmem, by simp [hbody, EventBody.isPlanner, hid.2]⟩

/-- The events of a decision: nothing, one that selects nothing, or its boundary and what selects
nothing. -/
theorem decideRecovery_new {context : DecisionContext} {decision : BoundaryDecision}
    {drafts : List EventDraft} (h : decideRecovery context = ok (decision, drafts))
    {new : List Event} (hnew : new.map (·.body) = drafts.map (·.body)) :
    new = [] ∨ ∃ first rest, new = first :: rest ∧ (∀ e ∈ rest, e.selection = none) ∧
      ∀ planner, first.selection = some planner →
        Selectable context.policy context.events planner := by
  have hquiet : ∀ (body : EventBody) (events : List Event), body.boundary? = none →
      (events.map (·.body) = [body] ∨ events = []) → ∀ e ∈ events, e.selection = none := by
    rintro body events hbody (heven | rfl) e he
    · have hmem := List.mem_map_of_mem (f := fun e : Event => e.body) he
      rw [heven, List.mem_singleton] at hmem
      rw [Event.selection, hmem, hbody]
      rfl
    · cases he
  unfold decideRecovery at h
  split at h
  · cases h
  rename_i found hsel
  split at h
  · obtain ⟨-, rfl⟩ := Prod.mk.inj (Except.ok.inj h)
    exact .inl (List.map_eq_nil_iff.mp hnew)
  · split at h
    · cases h
    rename_i request hreq
    obtain ⟨-, rfl⟩ := Prod.mk.inj (Except.ok.inj h)
    have hbody : request.body.boundary? = none := by
      unfold cancelRequestEvent at hreq
      split at hreq
      · cases hreq
      · obtain rfl := Except.ok.inj hreq
        rfl
    have hnone := hquiet _ new hbody (.inl hnew)
    rcases new with - | ⟨first, rest⟩
    · exact .inl rfl
    refine .inr ⟨first, rest, rfl, fun e he => hnone e (List.mem_cons_of_mem _ he), ?_⟩
    intro planner hplan
    rw [hnone first List.mem_cons_self] at hplan
    cases hplan
  · obtain ⟨-, rfl⟩ := Prod.mk.inj (Except.ok.inj h)
    rcases new with - | ⟨first, rest⟩
    · exact .inl rfl
    rw [replanEvents, List.map_cons, List.map_cons] at hnew
    obtain ⟨hfir, hrest⟩ := List.cons.inj hnew
    refine .inr ⟨first, rest, rfl, hquiet (.subgraphShadowed found.shadowed) rest rfl ?_, ?_⟩
    · split at hrest
      · exact .inl hrest
      · exact .inr (List.map_eq_nil_iff.mp hrest)
    intro planner hplan
    rw [Event.selection, hfir] at hplan
    exact selectable_of_selectBoundary hsel hplan

/-- **Every selection was decided on the log before it.** -/
theorem Grown.decided (h : Grown policy log) : Decided policy log ∧ Increasing log := by
  induction h with
  | nil => exact ⟨fun before e after _ hspl => by simp at hspl, by simp, List.Pairwise.nil⟩
  | other _ e hbody hinc ih =>
    refine ⟨ih.1.snoc fun planner hplan => ?_, hinc⟩
    rw [Event.selection, hbody] at hplan
    cases hplan
  | decision _ context heven hpol hdec new hnew hinc ih =>
    refine ⟨?_, hinc⟩
    rcases decideRecovery_new hdec hnew with rfl | ⟨first, rest, rfl, hrest, hfir⟩
    · rw [List.append_nil]
      exact ih.1
    rw [heven, hpol] at hfir
    have hboun := ih.1.snoc hfir
    -- The events behind the boundary select nothing.
    clear hnew hinc hdec
    rw [List.append_cons]
    generalize _ ++ [first] = grown at hboun
    induction rest generalizing grown with
    | nil => rwa [List.append_nil]
    | cons e rest ihrest =>
      rw [List.append_cons]
      refine ihrest (fun e he => hrest e (List.mem_cons_of_mem _ he)) _
        (hboun.snoc fun planner hplan => ?_)
      rw [hrest e List.mem_cons_self] at hplan
      cases hplan

/-- The last selection of a log. -/
theorem exists_last_selection (h : selections log ≠ []) :
    ∃ before e after planner, log = before ++ e :: after ∧ e.selection = some planner ∧
      selections after = [] := by
  induction log with
  | nil => exact absurd rfl h
  | cons e rest ih =>
    by_cases hrest : selections rest = []
    · cases hsel : e.selection with
      | none =>
        refine absurd ?_ h
        rw [selections, List.filterMap_cons_none hsel]
        exact hrest
      | some planner => exact ⟨[], e, rest, planner, rfl, hsel, hrest⟩
    · obtain ⟨before, b, after, planner, rfl, hb⟩ := ih hrest
      exact ⟨e :: before, b, after, planner, rfl, hb⟩

/-- **The bound of a planner.** -/
theorem Decided.replansAt_le (h : Decided policy log) (planner : VertexId) :
    replansAt log planner ≤ policy.maxReplansPerPlanner := by
  induction log using List.reverseRecOn with
  | nil => exact Nat.zero_le _
  | append_singleton log e ih =>
    have hbef := ih h.left
    rw [replansAt_eq_count, selections_append, List.count_append, ← replansAt_eq_count]
    cases hsel : e.selection with
    | none => simpa [selections, hsel] using hbef
    | some P =>
      by_cases hP : P = planner
      · subst hP
        have hselec := h log e [] P rfl hsel
        simpa [selections, hsel, Nat.succ_le_iff] using hselec.counted
      · simpa [selections, hsel, hP] using hbef

/-- The selections a decision counts, and its own. -/
theorem length_selectionsAfter_le (h : Decided policy (before ++ e :: after))
    (hsel : e.selection = some planner) (haft : selections after = []) :
    (selectionsAfter (lastResolved before 0 before) (before ++ e :: after)).length ≤
      policy.maxReplansPerEpisode := by
  have hepis := (h before e after planner rfl hsel).episode
  have hbef : (selectionsAfter (lastResolved before 0 before) before).length ≤
      replanEpisode before := by
    rw [selectionsAfter, selections, replanEpisode, ← List.filter_filter]
    generalize before.filter (fun e => decide (lastResolved before 0 before < e.runSeq)) = part
    induction part with
    | nil => exact Nat.le_refl _
    | cons first part ih =>
      unfold Event.selection at ih ⊢
      cases hboun : first.body.boundary? with
      | none => simpa [hboun] using ih
      | some payload =>
        cases hselec : payload.selected <;> simp [hboun, hselec] <;> omega
  have hrest : (selectionsAfter (lastResolved before 0 before) (e :: after)).length ≤ 1 := by
    have hsub : List.Sublist (selectionsAfter (lastResolved before 0 before) (e :: after))
        (selections (e :: after)) := List.filter_sublist.filterMap _
    have hone : selections (e :: after) = [planner] := by
      rw [selections, List.filterMap_cons_some hsel]
      exact congrArg _ haft
    rw [hone] at hsub
    exact hsub.length_le
  rw [selectionsAfter, List.filter_append, selections_append, List.length_append]
  change (selectionsAfter _ before).length + (selectionsAfter _ (e :: after)).length ≤ _
  omega

theorem isCreated_of_selection (h : e.selection = some planner) : e.body.isCreated = false := by
  unfold Event.selection EventBody.boundary? at h
  split at h
  · rename_i hbody
    rw [hbody]
    rfl
  · cases h

/-- **The bound of an episode.** -/
theorem Decided.selectionsAfter_le (h : Decided policy log) (hinc : Increasing log) :
    (selectionsAfter (lastResolved log 0 log) log).length ≤ policy.maxReplansPerEpisode := by
  by_cases hnone : selections log = []
  · have hsub : List.Sublist (selectionsAfter (lastResolved log 0 log) log) (selections log) :=
      List.filter_sublist.filterMap _
    rw [hnone] at hsub
    rw [List.sublist_nil.mp hsub]
    exact Nat.zero_le _
  obtain ⟨before, e, after, _, rfl, hsel, haft⟩ := exists_last_selection hnone
  -- What was resolved when the last selection was decided is still resolved.
  have hle : lastResolved before 0 before ≤
      lastResolved (before ++ e :: after) 0 (before ++ e :: after) := by
    have hsub := (List.sublist_append_left _ _).trans
      (resolvedFreezes_append before after (isCreated_of_selection hsel))
    have hsor := (List.pairwise_map.mpr hinc.increasing).sublist
      (resolvedFreezes_sublist (before ++ e :: after) (before ++ e :: after))
    rw [lastResolved_eq, lastResolved_eq]
    rcases List.eq_nil_or_concat (resolvedFreezes before before) with hnil | ⟨init, seq, hseq⟩
    · rw [hnil]
      exact Nat.zero_le _
    rw [List.concat_eq_append] at hseq
    have hmem : seq ∈ resolvedFreezes (before ++ e :: after) (before ++ e :: after) :=
      hsub.subset (by simp [hseq])
    rcases List.eq_nil_or_concat
      (resolvedFreezes (before ++ e :: after) (before ++ e :: after)) with hnil | ⟨all, last, hlast⟩
    · rw [hnil] at hmem
      cases hmem
    rw [List.concat_eq_append] at hlast
    rw [hlast] at hmem hsor
    rw [hseq, hlast, List.getLast?_concat, List.getLast?_concat]
    rcases List.mem_append.mp hmem with hin | hin
    · exact ((List.pairwise_append.mp hsor).2.2 seq hin last List.mem_cons_self).le
    · exact (List.mem_singleton.mp hin).le
  refine le_trans (List.Sublist.length_le ?_) (length_selectionsAfter_le h hsel haft)
  refine List.Sublist.filterMap _ (List.monotone_filter_right _ fun e he => ?_)
  simp only [decide_eq_true_eq] at he ⊢
  omega

/-- **The bound of the run by its finished freezes.** -/
theorem Decided.length_selections_le (h : Decided policy log) (hinc : Increasing log) :
    (selections log).length ≤
      policy.maxReplansPerEpisode * (1 + (resolvedFreezes log log).length) := by
  induction hlen : log.length using Nat.strong_induction_on generalizing log with
  | _ n ih =>
  subst hlen
  by_cases hnone : selections log = []
  · simp [hnone]
  obtain ⟨before, e, after, _, rfl, hsel, haft⟩ := exists_last_selection hnone
  have hepis := length_selectionsAfter_le h hsel haft
  have hsub := (List.sublist_append_left _ _).trans
    (resolvedFreezes_append before after (isCreated_of_selection hsel))
  rcases List.eq_nil_or_concat (resolvedFreezes before before) with hnil | ⟨init, seq, hseq⟩
  · -- Nothing was finished yet, so the episode holds all selections.
    have hall : (before ++ e :: after).filter (fun e => decide (0 < e.runSeq)) =
        before ++ e :: after :=
      List.filter_eq_self.mpr fun e he => by simpa using hinc.positive e he
    rw [lastResolved_eq, hnil, selectionsAfter] at hepis
    change (selections ((before ++ e :: after).filter fun e => decide (0 < e.runSeq))).length ≤ _
      at hepis
    rw [hall] at hepis
    exact hepis.trans (Nat.le_mul_of_pos_right _ (by omega))
  · -- The selections up to the last finished freeze belong to a shorter log.
    rw [List.concat_eq_append] at hseq
    have hlast : lastResolved before 0 before = seq := by
      rw [lastResolved_eq, hseq, List.getLast?_concat]
      rfl
    obtain ⟨earlier, freeze, later, hbef, rfl, hcreat, hquiet, hin⟩ :=
      exists_freeze (show seq ∈ resolvedFreezes before before by simp [hseq])
    have hwhole : before ++ e :: after = earlier ++ freeze :: (later ++ e :: after) := by
      rw [hbef, List.append_assoc, List.cons_append]
    have hshor := ih earlier.length (by rw [hwhole]; simp) ((hwhole ▸ h).left)
      ((hwhole ▸ hinc).left) rfl
    have hfin : (resolvedFreezes earlier earlier).length + 1 ≤
        (resolvedFreezes before before).length := by
      have hgrown := resolvedFreezes_append earlier later hcreat
      rw [← hbef] at hgrown
      have hlen := hgrown.length_le
      have hpos := List.length_pos_of_mem hin
      rw [List.length_append] at hlen
      omega
    have hcount : (selections (before ++ e :: after)).length ≤ (selections earlier).length +
        (selectionsAfter freeze.runSeq (before ++ e :: after)).length := by
      rw [hwhole, selectionsAfter, List.filter_append, selections_append, selections_append,
        List.length_append, List.length_append]
      have hnum := hwhole ▸ hinc.increasing
      have hbeh := (List.pairwise_cons.mp (List.pairwise_append.mp hnum).2.1).1
      have hkept : (later ++ e :: after).filter (fun e => decide (freeze.runSeq < e.runSeq)) =
          later ++ e :: after :=
        List.filter_eq_self.mpr fun e he => by simpa using hbeh e he
      have hfreez : selections (freeze :: (later ++ e :: after)) =
          selections (later ++ e :: after) := List.filterMap_cons_none hquiet
      rw [List.filter_cons_of_neg (by simp), hkept, hfreez]
      omega
    rw [hlast] at hepis
    calc (selections (before ++ e :: after)).length
      _ ≤ policy.maxReplansPerEpisode * (1 + (resolvedFreezes earlier earlier).length) +
          policy.maxReplansPerEpisode := by omega
      _ = policy.maxReplansPerEpisode * (1 + (resolvedFreezes earlier earlier).length + 1) :=
          (Nat.mul_succ _ _).symm
      _ ≤ _ := Nat.mul_le_mul_left _ (by have hle := hsub.length_le; omega)

/-- **The bound of the run by its planners.** -/
theorem Decided.length_selections_le_planners (h : Decided policy log) :
    (selections log).length ≤ policy.maxReplansPerPlanner * (plannersOf log).toFinset.card := by
  have hplan : (selections log).toFinset ⊆ (plannersOf log).toFinset := by
    intro planner hplann
    obtain ⟨e, he, hselec⟩ := List.mem_filterMap.mp (List.mem_toFinset.mp hplann)
    obtain ⟨before, after, hspl⟩ := List.append_of_mem he
    have hsel := h before e after planner hspl hselec
    rw [List.mem_toFinset, hspl, plannersOf, List.filterMap_append]
    exact List.mem_append_left _ hsel.known
  rw [← List.sum_toFinset_count_eq_length]
  calc ∑ planner ∈ (selections log).toFinset, (selections log).count planner
    _ ≤ (selections log).toFinset.card • policy.maxReplansPerPlanner :=
        Finset.sum_le_card_nsmul _ _ _ fun planner _ =>
          (replansAt_eq_count planner).symm ▸ h.replansAt_le planner
    _ ≤ policy.maxReplansPerPlanner * (plannersOf log).toFinset.card := by
        rw [Nat.nsmul_eq_mul, Nat.mul_comm]
        exact Nat.mul_le_mul_left _ (Finset.card_le_card hplan)

end Bounds

/-- **Replanning is bounded.** In every prefix of a log grown under a policy each planner is
selected at most `maxReplansPerPlanner` times, at most `maxReplansPerEpisode` selections follow the
last freeze all of whose vertices have succeeded, and so the replans are bounded by the planners and
by the finished freezes. -/
theorem replanning_bounded (policy : RecoveryPolicy) (log : List Event) (hgrown : Grown policy log)
    (start : List Event) (hstart : start <+: log) :
    (∀ planner, replansAt start planner ≤ policy.maxReplansPerPlanner) ∧
    (selectionsAfter (lastResolved start 0 start) start).length ≤ policy.maxReplansPerEpisode ∧
    (selections start).length ≤ min (policy.maxReplansPerPlanner * (plannersOf start).toFinset.card)
        (policy.maxReplansPerEpisode * (1 + (resolvedFreezes start start).length)) := by
  obtain ⟨hdec, hinc⟩ := hgrown.decided
  obtain ⟨_, rfl⟩ := hstart
  exact ⟨hdec.left.replansAt_le, hdec.left.selectionsAfter_le hinc.left,
    le_min hdec.left.length_selections_le_planners
      (hdec.left.length_selections_le hinc.left)⟩

/-- A log without boundaries is grown. -/
theorem grown_of_quiet {policy : RecoveryPolicy} {log : List Event}
    (hquiet : ∀ e ∈ log, e.body.boundary? = none) (hinc : Increasing log) :
    Grown policy log := by
  induction log using List.reverseRecOn with
  | nil => exact .nil
  | append_singleton log e ih =>
    refine .other (ih (fun e he => hquiet e (List.mem_append_left _ he)) hinc.left) e ?_ hinc
    exact hquiet e (List.mem_append_right _ List.mem_cons_self)

/-- The log of `failedWork` and the decision taken on it. -/
def replannedWork : List Event :=
  failedWork.events ++ ((decideRecovery failedWork).toOption.elim [] (·.2)).zipIdx.map fun draft =>
    { body := draft.1.body, vertexId := draft.1.vertexId, runId := 1, runSeq := draft.2 + 5 }

/-- The ladder grew that log. -/
theorem grown_replannedWork : Grown failedWork.policy replannedWork := by
  have hinc : Increasing replannedWork := ⟨by decide +kernel, by decide +kernel⟩
  have hstart : Grown failedWork.policy failedWork.events :=
    grown_of_quiet (by decide +kernel) hinc.left
  unfold replannedWork at hinc ⊢
  cases hrun : decideRecovery failedWork with
  | error => exact (List.append_nil failedWork.events).symm ▸ hstart
  | ok result =>
    rw [hrun] at hinc
    refine hstart.decision failedWork rfl rfl hrun _ ?_ hinc
    have hdraf := congrArg (List.map (·.body)) (List.zipIdx_map_fst 0 result.2)
    rw [List.map_map] at hdraf ⊢
    exact hdraf

/-- It replans once, at the planner. -/
theorem replanning_bounded_replannedWork :
    Grown failedWork.policy replannedWork ∧ selections replannedWork = [1] ∧
      replansAt replannedWork 1 ≤ failedWork.policy.maxReplansPerPlanner :=
  ⟨grown_replannedWork, by decide +kernel,
    (replanning_bounded failedWork.policy replannedWork grown_replannedWork replannedWork
      (List.prefix_refl _)).1 1⟩

end Flory
