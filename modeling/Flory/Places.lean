import Flory.Pivot

/-!
# The Place of a Scope

A scope row belongs to a run and remembers the sequence number it was opened at. No function
changes either; the rows of a run are locked in the order of those numbers. Two scopes of one run
were opened by two events, so their numbers differ.

The second half says what one insertion into the event log does to the rows that are locked: it
moves no scope, and it changes the queue only where it creates or shadows a vertex.

## Main results

* `apart_of_reachable`: scopes of one run were opened at different numbers, in every reachable
  world.
* `appendOne_effect`: what an insertion does to scopes and queue.
-/

namespace Flory

open Except (ok)

variable {db : Db} {e : Event} {s : ScopeId} {db' : Db} {cfg : Config} {session : Session}
  {draft : EventDraft} {payload : ScopePayload}

/-! ### Places -/

/-- The run of a scope and the number it was opened at. -/
def ScopeRow.place (row : ScopeRow) : RunId × ℕ :=
  (row.runId, row.openedSeq)

namespace ScopeRow

variable (row : ScopeRow)

/-- An answered request leaves the scope where it is. -/
@[simp] theorem place_answer (outcome : RequestOutcome) : (row.answer outcome).place = row.place := by
  unfold answer
  split <;> rfl

/-- A deferred request leaves the scope where it is. -/
@[simp] theorem place_defer (now : Time) : (row.defer now).place = row.place := by
  unfold defer
  split <;> rfl

end ScopeRow

variable {row : ScopeRow}

/-- The projection of a `txn/scope` leaves a scope where it is, and places a new one at the
event. -/
theorem place_projectScope : (projectScope db e s payload).place =
    ((db.scopes.lookup s).map ScopeRow.place).getD (e.runId, e.runSeq) := by
  unfold projectScope
  cases db.scopes.lookup s with
  | none | some =>
    dsimp only
    split
    · split
      · exact ScopeRow.place_answer _ _
      · exact ScopeRow.place_answer _ _
      · rfl
    · rfl

/-- The same scopes at the same places. -/
def SamePlaces (db db' : Db) : Prop :=
  ∀ s, (db'.scopes.lookup s).map ScopeRow.place = (db.scopes.lookup s).map ScopeRow.place

variable {row' : ScopeRow}

namespace SamePlaces

variable {db db' db'' : Db}

theorem of_eq (h : db'.scopes = db.scopes) : SamePlaces db db' :=
  fun s => by rw [h]

theorem trans (h : SamePlaces db db') (h' : SamePlaces db' db'') : SamePlaces db db'' :=
  fun s => (h' s).trans (h s)

/-- A row written over one at the same place. -/
theorem setScope (hrow : db.scopes.lookup s = some row) (hplace : row'.place = row.place) :
    SamePlaces db (db.setScope s row') := by
  intro s'
  rw [Db.lookup_setScope]
  split
  · rename_i hs
    rw [hs, hrow, Option.map_some, Option.map_some, hplace]
  · rfl

/-- A scope is still there. -/
theorem exists_row (h : SamePlaces db db') (hrow : db.scopes.lookup s = some row) :
    ∃ row', db'.scopes.lookup s = some row' ∧ row'.place = row.place := by
  have hs := h s
  rw [hrow, Option.map_some] at hs
  exact Option.map_eq_some_iff.mp hs

/-- A scope was there before. -/
theorem exists_row_before (h : SamePlaces db db') (hrow : db'.scopes.lookup s = some row') :
    ∃ row, db.scopes.lookup s = some row ∧ row.place = row'.place := by
  have hs := (h s).symm
  rw [hrow, Option.map_some] at hs
  exact Option.map_eq_some_iff.mp hs

/-- The scope rows of a run are the same ones. -/
theorem scopeOf_isSome (h : SamePlaces db db') (runId : RunId) (s : ScopeId) :
    (db'.scopeOf runId s).isSome = (db.scopeOf runId s).isSome := by
  have hto : ∀ {db db' : Db}, SamePlaces db db' → (db.scopeOf runId s).isSome →
      (db'.scopeOf runId s).isSome := by
    intro db db' h hsome
    obtain ⟨_, hrow⟩ := Option.isSome_iff_exists.mp hsome
    obtain ⟨hlook, hrun⟩ := Db.scopeOf_eq_some_iff.mp hrow
    obtain ⟨row', hrow', hplace⟩ := h.exists_row hlook
    exact Option.isSome_iff_exists.mpr ⟨row', Db.scopeOf_eq_some_iff.mpr
      ⟨hrow', (congrArg Prod.fst hplace).trans hrun⟩⟩
  have hback : SamePlaces db' db := fun s => (h s).symm
  rw [Bool.eq_iff_iff]
  exact ⟨hto hback, hto h⟩

end SamePlaces

/-! ### Openings -/

/-- What a change of the database does to the places of scopes: the old ones stay, and a new one is
at an event of the log. -/
structure Opens (db db' : Db) : Prop where
  log : ∀ e ∈ db.log, e ∈ db'.log
  scopes : ∀ s row', db'.scopes.lookup s = some row' →
    (∃ row, db.scopes.lookup s = some row ∧ row.place = row'.place) ∨
      ∃ e ∈ db'.log, e.scopeId = some s ∧ (e.runId, e.runSeq) = row'.place

namespace Opens

variable {db db' db'' : Db}

/-- Several changes. -/
theorem trans (h : Opens db db') (h' : Opens db' db'') : Opens db db'' := by
  refine ⟨fun e he => h'.log e (h.log e he), fun s row'' hrow'' => ?_⟩
  rcases h'.scopes s row'' hrow'' with ⟨row', hrow', hplace'⟩ | hnew
  · rcases h.scopes s row' hrow' with ⟨row, hrow, hplace⟩ | ⟨e, he, hs, hplace⟩
    · exact .inl ⟨row, hrow, hplace.trans hplace'⟩
    · exact .inr ⟨e, h'.log e he, hs, hplace.trans hplace'⟩
  · exact .inr hnew

theorem of_same (hlog : ∀ e ∈ db.log, e ∈ db'.log) (h : SamePlaces db db') : Opens db db' :=
  ⟨hlog, fun _ _ hrow' => .inl (h.exists_row_before hrow')⟩

theorem of_eq (hlog : db'.log = db.log) (h : db'.scopes = db.scopes) : Opens db db' :=
  of_same (fun _ he => hlog ▸ he) (.of_eq h)

theorem push {runId : RunId} : Opens db (db.push runId draft) :=
  of_same (fun e he => by rw [Db.push_log]; exact List.mem_append_left _ he) (.of_eq rfl)

theorem setScope (hrow : db.scopes.lookup s = some row) (hplace : row'.place = row.place) :
    Opens db (db.setScope s row') :=
  of_same (fun _ he => he) (.setScope hrow hplace)

/-- Storing a `txn/scope`. -/
theorem pushState {runId : RunId} :
    Opens db (db.pushState runId s payload) := by
  have hevent : db.stamp runId (scopeEvent s payload) ∈ (db.pushState runId s payload).log := by
    change _ ∈ db.log ++ [_]
    simp
  refine ⟨fun e he => List.mem_append_left _ he, fun s' row' hrow' => ?_⟩
  rw [lookup_pushState] at hrow'
  split at hrow'
  · rename_i hs
    subst hs
    cases hrow'
    cases hold : db.scopes.lookup s' with
    | some row => exact .inl ⟨row, rfl, by rw [place_projectScope, hold]; rfl⟩
    | none => exact .inr ⟨_, hevent, rfl, by rw [place_projectScope, hold]; rfl⟩
  · exact .inl ⟨row', hrow', rfl⟩

/-- Storing a failure. -/
theorem pushFailure {runId : RunId} :
    Opens db (db.pushFailure runId draft) := by
  refine ⟨fun e he => List.mem_append_left _ he, fun s row' hrow' => .inl ?_⟩
  have hfen : (db.pushFailure runId draft).scopes = fencedScopes coordinator
    (db.push runId draft) (db.stamp runId draft) := rfl
  rw [hfen] at hrow'
  unfold fencedScopes at hrow'
  simp only [coordinator_inheritCopy, Bool.false_eq_true, if_false, Db.push_scopes] at hrow'
  split at hrow'
  · rw [Table.lookup_mapRows] at hrow'
    obtain ⟨row, hrow, rfl⟩ := Option.map_eq_some_iff.mp hrow'
    refine ⟨row, hrow, ?_⟩
    split <;> rfl
  · exact ⟨row', hrow', rfl⟩

end Opens

/-- **A worker opens scopes at events only.** -/
theorem WorkerStep.opens {me : WorkerId} {pc pc' : Pc} (h : WorkerStep cfg me db pc db' pc') :
    Opens db db' := by
  cases h with
  | duplicate _ hrow | stillSuspended _ hrow =>
    exact .setScope (Db.scopeOf_eq_some_iff.mp hrow).1 (ScopeRow.place_answer _ _)
  | deferred _ hrow => exact .setScope (Db.scopeOf_eq_some_iff.mp hrow).1 (ScopeRow.place_defer _ _)
  | suspended | opened | suspendedConfirm | committed | suspendedCancel => exact .pushState
  | requested _ hrow =>
    refine Opens.push.trans (.of_same (fun _ he => he) ?_)
    exact SamePlaces.setScope (Db.scopeOf_eq_some_iff.mp hrow).1 (ScopeRow.place_answer _ _)
  | refused | failedCall | failedAbsent => exact .pushFailure
  | refusedUnstarted => exact Opens.push.trans .pushFailure
  | suspendedPivot => exact Opens.pushFailure.trans .pushState
  | barrier => exact Opens.push.trans .push
  | started | succeeded | retried => exact .push
  | sealed => exact Opens.push.trans (.of_same (fun e he => List.mem_append_left _ he)
      (.of_eq rfl))
  | confirmed => exact Opens.push.trans (.of_eq rfl rfl)
  | admitted hrow =>
    refine Opens.trans ?_ .push
    exact .setScope (Db.scopeOf_eq_some_iff.mp hrow).1 rfl
  | @passed item result row hrow =>
    have hpas : Opens db (db.push item.item.runId (vertexEvent item.item .txnPivotPassed)) := .push
    refine Opens.trans (hpas.trans ?_) .push
    exact .setScope (Db.scopeOf_eq_some_iff.mp hrow).1 rfl
  | reopened hrow => exact .setScope (Db.scopeOf_eq_some_iff.mp hrow).1 rfl
  | cancelCompleted hrow =>
    refine Opens.push.trans (.of_same (fun _ he => he) ?_)
    exact SamePlaces.setScope (Db.scopeOf_eq_some_iff.mp hrow).1 rfl
  | _ => exact .of_eq rfl rfl

/-- The Engine opens no scope. -/
theorem EnvironmentStep.opens (h : EnvironmentStep db db') : Opens db db' := by
  have hlog : ∀ e ∈ db.log, e ∈ db'.log := by
    obtain ⟨_, hnew, -⟩ := h.log
    exact fun e he => hnew ▸ List.mem_append_left _ he
  refine ⟨hlog, fun s row' hrow' => .inl ?_⟩
  cases h with
  | freeze _ hchan => exact ⟨row', hchan.scopes ▸ hrow', rfl⟩
  | engineAppend _ _ hchan =>
    rcases hchan.scopes s with hsame | ⟨row, seq, hrow, -, -, hreq⟩
    · exact ⟨row', hsame ▸ hrow', rfl⟩
    rw [hreq] at hrow'
    cases hrow'
    exact ⟨row, hrow, rfl⟩
  | _ => exact ⟨row', hrow', rfl⟩

/-- Every scope is at the place of an event of its own. -/
def Opened (db : Db) : Prop :=
  ∀ s row, db.scopes.lookup s = some row →
    ∃ e ∈ db.log, e.scopeId = some s ∧ (e.runId, e.runSeq) = row.place

/-- Scopes stay at events. -/
theorem Opened.opens (h : Opened db) (hopens : Opens db db') : Opened db' := by
  intro s row' hrow'
  rcases hopens.scopes s row' hrow' with ⟨row, hrow, hplace⟩ | hnew
  · obtain ⟨e, he, hs, hat⟩ := h s row hrow
    exact ⟨e, hopens.log e he, hs, hat.trans hplace⟩
  · exact hnew

/-- Scopes are at events, in every reachable world. -/
theorem opened_of_reachable {world : World} (h : Reachable cfg world) : Opened world.db := by
  refine h.invariant (I := fun world => Opened world.db) ?_ fun mid mid' a hopen _ hstep => ?_
  · intro s row hrow
    exact absurd hrow (by simp [World.initial])
  rcases step_cases hstep with ⟨w, hmove⟩ | ⟨henv, -⟩
  · exact hopen.opens hmove.step.opens
  · exact hopen.opens henv.opens

/-- **No two scopes share a place.** -/
def Apart (db : Db) : Prop :=
  ∀ s s' row row', db.scopes.lookup s = some row → db.scopes.lookup s' = some row' →
    row.place = row'.place → s = s'

/-- Scopes that stay in their places stay apart. -/
theorem Apart.same (h : Apart db) (hsame : SamePlaces db db') : Apart db' := by
  intro s s' row row' hrow hrow' hplace
  obtain ⟨old, hold, hplac⟩ := hsame.exists_row_before hrow
  obtain ⟨old', hold', hplac'⟩ := hsame.exists_row_before hrow'
  exact h s s' old old' hold hold' (hplac.trans (hplace.trans hplac'.symm))

/-- **Scopes of one run were opened at different numbers.** -/
theorem apart_of_reachable {world : World} (h : Reachable cfg world) : Apart world.db := by
  intro s s' row row' hrow hrow' hplace
  obtain ⟨e, he, hs, hat⟩ := opened_of_reachable h s row hrow
  obtain ⟨e', he', hs', hat'⟩ := opened_of_reachable h s' row' hrow'
  have hsame : (e.runId, e.runSeq) = (e'.runId, e'.runSeq) := hat.trans (hplace.trans hat'.symm)
  obtain ⟨hrun, _⟩ := Prod.mk.inj hsame
  -- numbers increase along the log, so events of one run with one number are one event
  have hord := (ordered_of_reachable h).order
  rw [List.pairwise_iff_getElem] at hord
  obtain ⟨i, hi, rfl⟩ := List.mem_iff_getElem.mp he
  obtain ⟨j, hj, rfl⟩ := List.mem_iff_getElem.mp he'
  rcases Nat.lt_trichotomy i j with hlt | heq | hgt
  · have := hord i j hi hj hlt hrun
    omega
  · subst heq
    exact Option.mem_unique hs hs'
  · have := hord j i hj hi hgt hrun.symm
    omega

/-! ### One insertion -/

/-- The vertices an event takes out of the queue. -/
def EventDraft.shadowed (draft : EventDraft) : List VertexId :=
  match draft.body with
  | .subgraphShadowed vertexIds => vertexIds
  | _ => []

/-- Whether an event creates a vertex. -/
def EventDraft.creates (draft : EventDraft) (v : VertexId) : Prop :=
  draft.body.isCreated = true ∧ draft.vertexId = some v

/-- What an insertion does to the rows that are locked. -/
structure Effect (runId : RunId) (draft : EventDraft) (db db' : Db) : Prop where
  scopes : SamePlaces db db'
  queue : ∀ v, db'.queue.lookup v = db.queue.lookup v ∨
    (v ∈ draft.shadowed ∧ db'.queue.lookup v = none) ∨
    (draft.creates v ∧ db.queue.lookup v = none ∧
      ∃ row, db'.queue.lookup v = some row ∧ row.runId = runId)

/-- **What an insertion does to scopes and queue**, when a `txn/scope` names a scope that is
there. -/
theorem appendOne_effect (hcopy : session.inheritCopy = false) {runId : RunId}
    (h : appendOne session runId db draft = ok db')
    (hscope : ∀ payload s, draft.body = .txnScope payload → draft.scopeId = some s →
      (db.scopes.lookup s).isSome) : Effect runId draft db db' := by
  cases projected_of_appendOne hcopy h with
  | note | idle | tried | confirmed => exact ⟨.of_eq rfl, fun _ => .inl rfl⟩
  | @shadowed _ vertexIds hbody =>
    refine ⟨.of_eq rfl, fun v => ?_⟩
    simp only [Table.lookup_filterRows, Db.push_queue]
    by_cases hv : v ∈ vertexIds
    · refine .inr (.inl ⟨by simpa [EventDraft.shadowed, show draft.body = _ from hbody] using hv, ?_⟩)
      rw [Option.filter_eq_none_iff]
      simp [hv]
    · refine .inl ?_
      cases db.queue.lookup v <;> simp [Option.filter, hv]
  | requested _ hscop =>
    have hkept : SamePlaces db db' ∧ db'.queue = db.queue := by
      refine Fallible.foldlM_invariant (I := fun mid => SamePlaces db mid ∧ mid.queue = db.queue)
        (b := db.push runId draft) (fun mid s mid' _ hmid hturn => ?_) ⟨.of_eq rfl, rfl⟩ hscop
      obtain ⟨row, hrow, -, -, rfl⟩ := registerRequest_eq_ok.mp hturn
      exact ⟨hmid.1.trans (.setScope (Db.scopeOf_eq_some_iff.mp hrow).1 rfl), hmid.2⟩
    exact ⟨hkept.1, fun v => .inl (by rw [hkept.2])⟩
  | @queued payload w hbody _ hver hnew =>
    refine ⟨.of_eq rfl, fun v => ?_⟩
    simp only [Table.lookup_insert_eq, Db.push_queue]
    split
    · rename_i hv
      subst hv
      exact .inr (.inr ⟨⟨by rw [show draft.body = _ from hbody]; rfl, hver⟩, hnew, _, rfl, rfl⟩)
    · exact .inl rfl
  | fenced hbody =>
    refine ⟨fun s => ?_, fun _ => .inl rfl⟩
    simp only [fenceOnScopedFailure, fencedScopes, coordinator_inheritCopy, hbody, Db.push_scopes,
      Bool.false_eq_true, if_false, Table.lookup_mapRows, Option.map_map]
    cases db.scopes.lookup s with
    | none => rfl
    | some =>
      simp only [Option.map_some, Function.comp_apply]
      split <;> rfl
  | scope hbody hs =>
    obtain ⟨row, hrow⟩ := Option.isSome_iff_exists.mp (hscope _ _ hbody hs)
    exact ⟨.setScope hrow (by simp [place_projectScope, hrow]), fun _ => .inl rfl⟩
  | passed _ _ hrow | cancelled _ _ _ hrow =>
    exact ⟨.setScope (Db.scopeOf_eq_some_iff.mp hrow).1 rfl, fun _ => .inl rfl⟩
  | cancelling _ _ _ hrow =>
    exact ⟨.setScope (Db.scopeOf_eq_some_iff.mp hrow).1 (ScopeRow.place_answer _ _),
      fun _ => .inl rfl⟩

end Flory
