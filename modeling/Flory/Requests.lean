import Flory.Pivot

/-!
# The Engine's Requests and Shadows

The two events of the Engine that reach beyond the log. A `replan/cancel-requested` marks and
fences every scope it names; a `subgraph/shadowed` takes the vertices it names out of the
work queue. The relation `EngineInsert` gives the database after each single event of the
Engine, so that an invariant about either event is proved event by event.

## Main results

* `appendOne_engineInsert`: every accepted event of the Engine is one of the listed kinds.
* `requested_of_reachable`: a scope carries a request exactly when the log does, and a
  requested scope is fenced.
-/

namespace Flory

open Except (ok)
open Fallible (bind_eq_ok foldlM_invariant)

variable {runId : RunId} {row : ScopeRow} {draft : EventDraft} {world : World} {cfg : Config}

/-! ### One event of the Engine -/

/-- **The database after one event of the Engine**: a note leaves the tables alone, a request
marks open, unrequested scopes, and a shadow removes unclaimed work of closed scopes. -/
inductive EngineInsert (db : Db) (runId : RunId) (draft : EventDraft) : Db → Prop
  | note (hrequest : ∀ payload, draft.body ≠ .replanCancelRequested payload)
      (hshadow : ∀ vertexIds, draft.body ≠ .subgraphShadowed vertexIds) :
      EngineInsert db runId draft (db.push runId draft)
  | requested {payload : CancelRequestPayload} {db' : Db}
      (hbody : draft.body = .replanCancelRequested payload)
      (hnodup : payload.scopeIds.Nodup)
      (hnamed : ∀ s ∈ payload.scopeIds, ∃ row, db.scopeOf runId s = some row ∧
        row.state = .opened ∧ row.cancelRequestedSeq = none ∧
        db'.scopes.lookup s = some (row.request (db.nextSeq runId) db.now))
      (hothers : ∀ s, s ∉ payload.scopeIds → db'.scopes.lookup s = db.scopes.lookup s)
      (hdb : db' = { db.push runId draft with scopes := db'.scopes }) :
      EngineInsert db runId draft db'
  | shadowed {vertexIds : List VertexId} {db' : Db}
      (hbody : draft.body = .subgraphShadowed vertexIds)
      (hclosed : ∀ v ∈ vertexIds, ∀ s row, db.scopes.lookup s = some row → row.runId = runId →
        (∃ cv ∈ db.vertices, cv.vertexId = v ∧ cv.runId = runId ∧ cv.scopeId = some s) →
        row.state = .cancelled ∨ row.state = .committed)
      (hfree : ∀ v ∈ vertexIds, ∀ row, db.queue.lookup v = some row → row.claimedBy = none)
      (hqueue : ∀ v, db'.queue.lookup v = if v ∈ vertexIds then none else db.queue.lookup v)
      (hdb : db' = { db.push runId draft with queue := db'.queue }) :
      EngineInsert db runId draft db'

variable {db db' : Db} {e : Event}

/-- A request marks every scope it names, once, and no other. -/
theorem foldlM_registerRequest {scopeIds : List ScopeId}
    (h : scopeIds.foldlM (registerRequest e) db = ok db') :
    scopeIds.Nodup ∧ (∀ s ∈ scopeIds, ∃ row, db.scopeOf e.runId s = some row ∧
      row.state = .opened ∧ row.cancelRequestedSeq = none ∧
      db'.scopes.lookup s = some (row.request e.runSeq db.now)) ∧
    (∀ s, s ∉ scopeIds → db'.scopes.lookup s = db.scopes.lookup s) ∧
    db' = { db with scopes := db'.scopes } := by
  induction scopeIds generalizing db with
  | nil =>
    cases h
    exact ⟨.nil, by simp, fun _ _ => rfl, rfl⟩
  | cons s rest ih =>
    simp only [List.foldlM_cons, bind_eq_ok] at h
    obtain ⟨_, hmid, hrest⟩ := h
    obtain ⟨hnod, hnam, hoth, hdb⟩ := ih hrest
    obtain ⟨row, hrow, hopen, hnone, rfl⟩ := registerRequest_eq_ok.mp hmid
    have hset := db.lookup_setScope s (row.request e.runSeq db.now)
    -- A scope that is named twice would have to be unrequested after its request.
    have hfresh : s ∉ rest := by
      intro hs
      obtain ⟨row', hrow', -, hnone, -⟩ := hnam s hs
      rw [Db.scopeOf_eq_some_iff, hset, if_pos rfl] at hrow'
      obtain rfl := Option.some.inj hrow'.1
      simp [ScopeRow.request] at hnone
    refine ⟨List.nodup_cons.mpr ⟨hfresh, hnod⟩, ?_, ?_, hdb⟩
    · intro s' hs'
      rcases List.mem_cons.mp hs' with rfl | hs'
      · exact ⟨row, hrow, hopen, hnone, by rw [hoth _ hfresh, hset, if_pos rfl]⟩
      obtain ⟨row', hrow', hfac⟩ := hnam s' hs'
      rw [Db.scopeOf_eq_some_iff, hset, if_neg (fun heq : s' = s => hfresh (heq ▸ hs'))] at hrow'
      exact ⟨row', Db.scopeOf_eq_some_iff.mpr hrow', hfac⟩
    · intro s' hs'
      obtain ⟨hne, hs'⟩ := not_or.mp (mt List.mem_cons.mpr hs')
      rw [hoth s' hs', hset, if_neg hne]

/-- The scopes that hold up a shadow, one by one. -/
theorem closed_of_unclosedScopes {vertexIds : List VertexId}
    (h : unclosedScopes db runId vertexIds = []) {v : VertexId} (hv : v ∈ vertexIds) {s : ScopeId}
    (hrow : db.scopes.lookup s = some row) (hrun : row.runId = runId)
    (hcreated : ∃ cv ∈ db.vertices, cv.vertexId = v ∧ cv.runId = runId ∧ cv.scopeId = some s) :
    row.state = .cancelled ∨ row.state = .committed := by
  by_contra hopen
  obtain ⟨cv, hcv, hid, hcvR, hcvS⟩ := hcreated
  obtain ⟨e, he, hcreat⟩ := mem_vertices.mp hcv
  obtain ⟨hbody, hver, herun, hesc, -⟩ := created?_eq_some_iff.mp hcreat
  have hmem : (s, row) ∈ unclosedScopes db runId vertexIds := by
    rw [unclosedScopes, List.mem_insertionSort, Table.mem_rowsWhere]
    refine ⟨hrow, ?_⟩
    simp only [Bool.and_eq_true, beq_iff_eq, bne_iff_ne, List.any_eq_true]
    refine ⟨⟨⟨hrun, fun hstate => hopen (.inl hstate)⟩, fun hstate => hopen (.inr hstate)⟩,
      v, hv, e, ?_, hesc.trans hcvS⟩
    simp [Db.createdOf, he, hbody, EventBody.isCreated, herun, hcvR, hver, hid]
  rw [h] at hmem
  cases hmem

/-- **Every accepted event of the Engine** is of a listed kind. -/
theorem appendOne_engineInsert (hdraft : engineDraft draft = true)
    (h : appendOne engine runId db draft = ok db') : EngineInsert db runId draft db' := by
  cases projected_of_appendOne rfl h with
  | note =>
    exact .note (fun _ heq => by simp_all [EventBody.isNote])
      fun _ heq => by simp_all [EventBody.isNote]
  | fenced hbody =>
    rw [fenceOnScopedFailure_engine hdraft hbody]
    exact .note (fun _ heq => by simp_all) fun _ heq => by simp_all
  | requested hbody hscop =>
    obtain ⟨hnod, hnam, hoth, hdb⟩ := foldlM_registerRequest hscop
    exact .requested hbody hnod hnam hoth hdb
  | @shadowed _ vertexIds hbody hclos hfree =>
    have hver : (db.push runId draft).vertices = db.vertices :=
      vertices_append rfl (by simp_all [EventBody.isCreated])
    refine .shadowed hbody (fun v hv s row hrow hrun hcreat => ?_)
      (leasedWork_eq_nil_iff.mp hfree) (fun v => ?_) rfl
    · exact closed_of_unclosedScopes hclos hv hrow hrun (hver.symm ▸ hcreat)
    simp only [Table.lookup_filterRows, Db.push_queue]
    by_cases hv : v ∈ vertexIds <;> cases db.queue.lookup v <;> simp [hv]
  | _ => simp_all [engineDraft]

/-- What every event of the Engine keeps, a batch of the Engine keeps. -/
theorem engineAppend_invariant {I : Db → Prop} {drafts : List EventDraft}
    (hdraf : drafts.all engineDraft = true) (h : appendEvents engine runId drafts db = ok db')
    (hins : ∀ mid draft mid', draft ∈ drafts → engineDraft draft = true → I mid →
      appendOne engine runId mid draft = ok mid' → EngineInsert mid runId draft mid' → I mid')
    (hinit : I db) : I db' := by
  unfold appendEvents at h
  split at h
  · cases h
  refine foldlM_invariant (fun mid draft mid' hmem hmid hone => ?_) hinit h
  have hdraft := List.all_eq_true.mp hdraf _ hmem
  exact hins mid draft mid' hmem hdraft hmid hone (appendOne_engineInsert hdraft hone)

/-- A single event of the Engine is a step of the system. -/
theorem step_appendOne (cfg : Config) (hdraft : engineDraft draft = true)
    (hone : appendOne engine runId world.db draft = ok db') :
    step cfg world (.engineAppend runId [draft]) = some { world with db := db' } := by
  have happ : appendEvents engine runId [draft] world.db = ok db' := by
    simp [appendEvents, hone, bind, Except.bind, pure, Except.pure]
  simp [step, hdraft, happ, World.commit]

/-- What every event of the Engine keeps in a reachable world, a batch of the Engine keeps. -/
theorem engineAppend_invariant_of {I : World → Prop} {drafts : List EventDraft}
    (hreach : Reachable cfg world) (hdraf : drafts.all engineDraft = true)
    (h : appendEvents engine runId drafts world.db = ok db')
    (hins : ∀ mid draft mid', Reachable cfg mid → I mid → draft ∈ drafts →
      step cfg mid (.engineAppend runId [draft]) = some { mid with db := mid' } →
      EngineInsert mid.db runId draft mid' → I { mid with db := mid' })
    (hinit : I world) : I { world with db := db' } := by
  refine (engineAppend_invariant
    (I := fun db => Reachable cfg { world with db := db } ∧ I { world with db := db }) hdraf h
    (fun mid draft mid' hmem hdraft hmid hone hmid' => ?_) ⟨hreach, hinit⟩).2
  have hstep : step cfg { world with db := mid } (.engineAppend runId [draft]) =
      some { world with db := mid' } := step_appendOne cfg hdraft hone
  exact ⟨hmid.1.tail trivial hstep, hins ⟨mid, _⟩ draft mid' hmid.1 hmid.2 hmem hstep hmid'⟩

/-! ### Requests on scope rows -/

/-- The sequence number of the request a scope row carries. -/
def Db.requestSeq (db : Db) (s : ScopeId) : Option ℕ :=
  (db.scopes.lookup s).bind ScopeRow.cancelRequestedSeq

theorem requestSeq_eq {s : ScopeId} (h : db.scopes.lookup s = some row) :
    db.requestSeq s = row.cancelRequestedSeq := by
  rw [Db.requestSeq, h, Option.bind_some]

theorem requestedSeq_answer {outcome : RequestOutcome} :
    (row.answer outcome).cancelRequestedSeq = row.cancelRequestedSeq := by
  unfold ScopeRow.answer
  split <;> rfl

theorem requestedSeq_defer {now : Time} :
    (row.defer now).cancelRequestedSeq = row.cancelRequestedSeq := by
  unfold ScopeRow.defer
  split <;> rfl

/-- A state write keeps the request, and a new row has none. -/
theorem requestedSeq_projectScope (s : ScopeId) (payload : ScopePayload) :
    (projectScope db e s payload).cancelRequestedSeq = db.requestSeq s := by
  cases hrow : db.scopes.lookup s with
  | none => rw [projectScope_new hrow, Db.requestSeq, hrow]; rfl
  | some =>
    rw [requestSeq_eq hrow]
    unfold projectScope
    simp only [hrow]
    split
    · split
      · exact requestedSeq_answer
      · exact requestedSeq_answer
      · rfl
    · rfl

/-- A write that keeps the request of its row keeps every request. -/
theorem requestSeq_write {t : ScopeId}
    (hwrite : ∀ s, db'.scopes.lookup s = if s = t then some row else db.scopes.lookup s)
    (hrow : row.cancelRequestedSeq = db.requestSeq t) (s : ScopeId) :
    db'.requestSeq s = db.requestSeq s := by
  rw [Db.requestSeq, hwrite]
  split
  · rename_i hs
    rw [hs, Option.bind_some, hrow]
  · rfl

/-- A recorded failure keeps every request. -/
theorem requestSeq_pushFailure (s : ScopeId) :
    (db.pushFailure runId draft).requestSeq s = db.requestSeq s := by
  change (AList.lookup s (fencedScopes coordinator _ _)).bind _ = _
  simp only [fencedScopes, coordinator, Bool.false_eq_true, if_false]
  split
  · rw [Table.lookup_mapRows, Db.push_scopes, Db.requestSeq]
    cases db.scopes.lookup s with
    | none => rfl
    | some =>
      simp only [Option.map_some, Option.bind_some]
      split <;> rfl
  · rfl

theorem requestSeq_pushState {t : ScopeId} {payload : ScopePayload} (s : ScopeId) :
    (db.pushState runId t payload).requestSeq s = db.requestSeq s :=
  requestSeq_write (lookup_pushState db runId t · payload) (requestedSeq_projectScope t payload) s

/-- **A worker makes and withdraws no request.** -/
theorem WorkerStep.requestSeq {me : WorkerId} {pc pc' : Pc} (h : WorkerStep cfg me db pc db' pc')
    (s : ScopeId) : db'.requestSeq s = db.requestSeq s := by
  have hlook : ∀ {runId t row}, db.scopeOf runId t = some row →
      row.cancelRequestedSeq = db.requestSeq t := fun hrow =>
    (requestSeq_eq (Db.scopeOf_eq_some_iff.mp hrow).1).symm
  cases h with
  | duplicate hpc hrow | stillSuspended hpc hrow | requested hpc hrow =>
    refine requestSeq_write (fun s => Db.lookup_setScope _ _ _ s) ?_ s
    exact requestedSeq_answer.trans (hlook hrow)
  | deferred hpc hrow =>
    refine requestSeq_write (fun s => Db.lookup_setScope _ _ _ s) ?_ s
    exact requestedSeq_defer.trans (hlook hrow)
  | suspended | opened | suspendedConfirm | committed | suspendedCancel =>
    exact requestSeq_pushState s
  | refused | failedCall | failedAbsent =>
    exact requestSeq_pushFailure s
  | refusedUnstarted => exact requestSeq_pushFailure s
  | admitted hrow | passed hrow | reopened hrow | cancelCompleted hrow =>
    refine requestSeq_write (fun s => Db.lookup_setScope _ _ _ s) ?_ s
    exact (hlook hrow :)
  | suspendedPivot =>
    exact (requestSeq_pushState s).trans (requestSeq_pushFailure s)
  | _ => rfl

/-- An event that requests the cancellation of a scope. -/
def Event.Requests (e : Event) (s : ScopeId) : Prop :=
  ∃ payload, e.body = .replanCancelRequested payload ∧ s ∈ payload.scopeIds

/-- **Requests in the log and on the rows**: a requested scope carries the request's
sequence number and is fenced, and the request a row carries is in the log. -/
structure Requested (db : Db) : Prop where
  event : ∀ e ∈ db.log, ∀ s, e.Requests s → ∃ row, db.scopes.lookup s = some row ∧
    row.runId = e.runId ∧ row.cancelRequestedSeq = some e.runSeq ∧ row.fencedAt.isSome
  row : ∀ s row seq, db.scopes.lookup s = some row → row.cancelRequestedSeq = some seq →
    ∃ e ∈ db.log, e.runId = row.runId ∧ e.runSeq = seq ∧ e.Requests s

theorem WorkerEvent.not_requests {pc : Pc} (h : WorkerEvent db db' pc e) (s : ScopeId) :
    ¬ e.Requests s := by
  rintro ⟨_, _, -⟩
  cases h <;> simp_all [EventBody.isPlain, EventBody.isSucceeded]

/-- A move of a worker keeps requests and rows in step. -/
theorem Requested.move {world' : World} {a : Action} {w : WorkerId} (h : Requested world.db)
    (hreach : Reachable cfg world) (hmove : WorkerMove cfg world a world' w) :
    Requested world'.db := by
  have hscop := scoped_of_reachable hreach
  have hfroz := frozen_of_reachable hreach
  obtain ⟨_, hlog, hnew⟩ := hmove.step.log
  constructor
  · intro e he s hreq
    rw [hlog] at he
    rcases List.mem_append.mp he with he | he
    · obtain ⟨row, hrow, hrun, hseq, hfen⟩ := h.event e he s hreq
      obtain ⟨row', hrow', hchan⟩ := (hmove.step.scopeChange hscop hfroz _ s).row hrow
      refine ⟨row', hrow', hchan.run.trans hrun, ?_, hchan.fence hfen⟩
      rw [← requestSeq_eq hrow', hmove.step.requestSeq s, requestSeq_eq hrow, hseq]
    · exact absurd hreq ((hnew.origin e he).not_requests s)
  · intro s row' seq hrow' hseq
    rw [← requestSeq_eq hrow', hmove.step.requestSeq s] at hseq
    obtain ⟨row, hrow, hrowS⟩ := Option.bind_eq_some_iff.mp hseq
    obtain ⟨e, he, hrun, hsame, hreq⟩ := h.row s row seq hrow hrowS
    obtain ⟨_, hrow₂, hchan⟩ := (hmove.step.scopeChange hscop hfroz _ s).row hrow
    obtain rfl := Option.mem_unique hrow₂ hrow'
    exact ⟨e, by rw [hlog]; exact List.mem_append_left _ he, hrun.trans hchan.run.symm, hsame, hreq⟩

/-- With the scope rows kept and no request added, nothing moves. -/
theorem Requested.append {new : List Event} (h : Requested db) (hscop : db'.scopes = db.scopes)
    (hlog : db'.log = db.log ++ new) (hnew : ∀ e ∈ new, ∀ s, ¬ e.Requests s) : Requested db' := by
  constructor
  · intro e he s hreq
    rw [hlog] at he
    rw [hscop]
    rcases List.mem_append.mp he with he | he
    · exact h.event e he s hreq
    · exact absurd hreq (hnew e he s)
  · intro s row seq hrow hseq
    rw [hscop] at hrow
    obtain ⟨e, he, hfac⟩ := h.row s row seq hrow hseq
    exact ⟨e, by rw [hlog]; exact List.mem_append_left _ he, hfac⟩

/-- One event of the Engine keeps requests and rows in step. -/
theorem Requested.insert (h : Requested db) (hins : EngineInsert db runId draft db') :
    Requested db' := by
  cases hins with
  | note hreq =>
    refine h.append rfl rfl fun e he s => ?_
    obtain rfl := List.mem_singleton.mp he
    rintro ⟨payload, hbody, -⟩
    exact hreq payload hbody
  | shadowed hbody hclos hfree hqueue hdb =>
    refine h.append (by rw [hdb]; rfl) (by rw [hdb]; rfl) fun e he s => ?_
    obtain rfl := List.mem_singleton.mp he
    rintro ⟨payload, hreq, -⟩
    cases hbody.symm.trans hreq
  | requested hbody hnod hnam hoth hdb =>
    rename_i payload
    have hlog : db'.log = db.log ++ [db.stamp runId draft] := by rw [hdb]; rfl
    constructor
    · intro e he s hrequests
      rw [hlog] at he
      rcases List.mem_append.mp he with he | he
      · obtain ⟨row, hrow, hrun, hseq, hfen⟩ := h.event e he s hrequests
        by_cases hs : s ∈ payload.scopeIds
        · obtain ⟨_, hrow₂, -, hnone, -⟩ := hnam s hs
          obtain rfl := Option.some.inj (hrow.symm.trans (Db.scopeOf_eq_some_iff.mp hrow₂).1)
          rw [hnone] at hseq
          cases hseq
        · exact ⟨row, (hoth s hs).trans hrow, hrun, hseq, hfen⟩
      · obtain rfl := List.mem_singleton.mp he
        obtain ⟨_, hbody₂, hs⟩ := hrequests
        obtain rfl := EventBody.replanCancelRequested.inj (hbody.symm.trans hbody₂)
        obtain ⟨row, hrow, -, -, hrow'⟩ := hnam s hs
        exact ⟨_, hrow', (Db.scopeOf_eq_some_iff.mp hrow).2, rfl, rfl⟩
    · intro s row' seq hrow' hseq
      by_cases hs : s ∈ payload.scopeIds
      · obtain ⟨row, hrow, -, -, hnew⟩ := hnam s hs
        obtain rfl := Option.mem_unique hnew hrow'
        refine ⟨db.stamp runId draft, ?_, (Db.scopeOf_eq_some_iff.mp hrow).2.symm,
          Option.some.inj hseq, payload, hbody, hs⟩
        rw [hlog]
        exact List.mem_append_right _ (List.mem_singleton_self _)
      · obtain ⟨e, he, hfac⟩ := h.row s row' seq ((hoth s hs).symm.trans hrow') hseq
        refine ⟨e, ?_, hfac⟩
        rw [hlog]
        exact List.mem_append_left _ he

/-- The environment keeps requests and rows in step. -/
theorem Requested.environment (h : Requested db) (henv : EnvironmentStep db db') :
    Requested db' := by
  cases henv with
  | engineAppend hdraf happ =>
    exact engineAppend_invariant hdraf happ (fun _ _ _ _ _ hmid _ hins => hmid.insert hins) h
  | freeze hfreez hchan =>
    obtain ⟨_, hlog, hmap, -⟩ := hchan.log
    refine h.append hchan.scopes hlog fun e he s => ?_
    rintro ⟨_, hbody, -⟩
    rcases body_of_freezeDrafts (hmap ▸ List.mem_map_of_mem he) with hfroz | ⟨_, hcreat⟩
    · cases hfroz.symm.trans hbody
    · cases hcreat.symm.trans hbody
  | _ => exact h.append rfl (List.append_nil _).symm (by simp)

/-- **Requests and rows are in step in every reachable world.** -/
theorem requested_of_reachable (h : Reachable cfg world) : Requested world.db := by
  refine h.invariant_of (I := fun world => Requested world.db) (fun _ hreach => hreach)
    ⟨by simp [World.initial], by simp [World.initial]⟩ ?_
  intro mid mid' a hmid _ hreq _ hstep
  rcases step_cases hstep with ⟨w, hmove⟩ | ⟨henv, -⟩
  · exact hreq.move hmid hmove
  · exact hreq.environment henv

end Flory
