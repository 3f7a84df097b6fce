import Flory.LockOrder

/-!
# A Transaction Keeps the Order

What `Flory.LockOrder` says of the locks of a transaction is kept by each of its turns: by taking
an awaited lock, by the next statement, by rows that are skipped when locked. What it writes at its
end is what it may do under its locks.

## Main results

* `Point.Sound.takes`: taking an awaited lock.
* `Point.Sound.statement`: the next statement, and the end.
-/

namespace Flory

open Except (error ok)
open RowLocks (Lock Statement covering)

variable {l : Lock Lockable} {later : List ScopeId}

/-! ### Taking an awaited lock -/

/-- The locks after a turn that took one, or found it superfluous. -/
structure Takes (held : List (Lock Lockable)) (wanted : Lock Lockable)
    (held' : List (Lock Lockable)) : Prop where
  keeps : ∀ l ∈ held, l ∈ held'
  only : ∀ l ∈ held', l ∈ held ∨ l = wanted ∧ covering held wanted = false
  covered : covering held' wanted = true

namespace Takes

variable {rank : RunId → ℕ} {db : Db}
  {held held' rest : List (Lock Lockable)} {wanted : Lock Lockable}

theorem regained (h : covering held wanted = true) : Takes held wanted held :=
  ⟨fun _ hl => hl, fun _ hl => .inl hl, h⟩

/-- A granted lock. -/
theorem granted (h : covering held wanted = false) : Takes held wanted (wanted :: held) :=
  ⟨fun _ hl => List.mem_cons_of_mem _ hl,
    fun _ hl => (List.mem_cons.mp hl).elim (fun heq => .inr ⟨heq, h⟩) .inl,
    RowLocks.covering_of_mem List.mem_cons_self⟩

/-- A row locked or awaited for update is still so. -/
theorem mem (h : Takes held wanted held') {row : Lockable}
    (hmem : forUpdate row ∈ held ++ wanted :: rest) : forUpdate row ∈ held' ++ rest := by
  rcases List.mem_append.mp hmem with hheld | hwan
  · exact List.mem_append_left _ (h.keeps _ hheld)
  rcases List.mem_cons.mp hwan with rfl | hrest
  · exact List.mem_append_left _ (RowLocks.mem_of_covering h.covered)
  · exact List.mem_append_right _ hrest

theorem covering (h : Takes held wanted held') (hl : RowLocks.covering held l = true) :
    RowLocks.covering held' l = true :=
  RowLocks.covering_mono h.keeps hl

/-- Collected scopes stay below those to come. -/
theorem collecting (h : Takes held wanted held')
    (hcol : Collecting rank db held (wanted :: rest) later) :
    Collecting rank db held' rest later := by
  obtain ⟨pending, hawait, hasc⟩ := hcol
  cases pending with
  | nil => cases hawait
  | cons s pending =>
    obtain ⟨hwan, hrest⟩ := List.cons.inj hawait
    have hsor := List.pairwise_cons.mp hasc.sorted
    refine ⟨pending, hrest, fun l hl => ?_, fun s₀ hs₀ s' hs' => ?_, hsor.2⟩
    · rcases h.only l hl with hold | ⟨hl, -⟩
      · exact hasc.scopes l hold
      · exact ⟨s, hl.trans hwan⟩
    rcases h.only _ hs₀ with hold | ⟨heq, -⟩
    · exact hasc.below s₀ hold s' (List.mem_cons_of_mem _ hs')
    rw [hwan] at heq
    cases heq
    exact hsor.1 s' hs'

theorem scopeHeld (h : Takes held wanted held') {start : AttemptStart}
    (hscope : ScopeHeld db held start) : ScopeHeld db held' start :=
  fun s hs => ⟨h.keeps _ (hscope s hs).1, (hscope s hs).2⟩

end Takes

section Turns

variable {rank : RunId → ℕ} {home : VertexId → RunId} {db : Db}
  {held held' locks locks' rest : List (Lock Lockable)} {wanted : Lock Lockable}
  {a : Appending} {p : Point} {draft : EventDraft} {e : Event} {own : Db}
  {runId : RunId} {v : VertexId}

/-- More locks secure more. -/
theorem Secured.mono (h : Secured db locks a)
    (hsub : ∀ s, forUpdate (.scope s) ∈ locks → forUpdate (.scope s) ∈ locks') :
    Secured db locks' a := by
  cases h with
  | coordinator hses hlock hrow hdraf hwrit =>
    exact .coordinator hses (hsub _ hlock) hrow hdraf hwrit
  | engine hses hall hwrit hdeq =>
    exact .engine hses (fun s row hrow hrun => hsub s (hall s row hrow hrun)) hwrit hdeq

/-- An append that takes a lock: the run row, or else queued work it shadows. -/
theorem Inserting.takes (h : Inserting home db held (wanted :: rest) a)
    (htak : Takes held wanted held') : Inserting home db held' rest a := by
  cases h with
  | waiting hawait hheld hins =>
    obtain ⟨rfl, hrest⟩ := List.cons.inj hawait
    refine .running (RowLocks.mem_of_covering htak.covered) (fun l hl => ?_) ?_ ?_ ?_
    · rcases htak.only l hl with hold | ⟨hl, -⟩
      · exact .inl (hheld l hold)
      · exact .inr (.inl hl)
    · simp [hrest]
    · simp [hins]
    · simp [hins]
  | running hrun hheld hawait hshad hcreat =>
    refine .running (htak.keeps _ hrun) (fun l hl => ?_) (fun l hl => ?_) (fun d hd v hv => ?_)
      hcreat
    · rcases htak.only l hl with hold | ⟨hl, hnew⟩
      · exact hheld l hold
      rcases hawait wanted List.mem_cons_self with hcov | ⟨v, _, hwan, -, hhome, -⟩
      · rw [hnew] at hcov
        cases hcov
      · exact .inr (.inr ⟨v, hl.trans hwan, hhome⟩)
    · exact (hawait l (List.mem_cons_of_mem _ hl)).imp_left htak.covering
    · obtain ⟨hhome, hlock⟩ := hshad d hd v hv
      exact ⟨hhome, hlock.imp_left htak.mem⟩

/-- **Taking an awaited lock keeps what holds of the locks.** -/
theorem Point.Sound.takes (h : p.Sound rank home db held (wanted :: rest))
    (htak : Takes held wanted held') : p.Sound rank home db held' rest := by
  cases p with
  | claim | attempt | cancel | pivot | engine => cases h.2
  | scopeAppend => cases h.1.2
  | candidates | claimed => cases h.1
  | candidate => exact htak.collecting h
  | attemptScope =>
    exact ⟨htak.collecting h.1, fun s hs => ⟨htak.mem (h.2 s hs).1, (h.2 s hs).2⟩⟩
  | attemptLease =>
    refine ⟨htak.scopeHeld h.scope, fun k hk => htak.mem (h.lease k hk), fun l hl => ?_,
      fun l hl => h.waits l (List.mem_cons_of_mem _ hl)⟩
    rcases htak.only l hl with hold | ⟨rfl, -⟩
    · exact h.holds l hold
    · exact .inr (h.waits l List.mem_cons_self)
  | attemptRow =>
    refine ⟨htak.scopeHeld h.scope, fun k hk => htak.keeps _ (h.lease k hk), fun l hl => ?_,
      fun l hl => (h.waits l (List.mem_cons_of_mem _ hl)).imp_right htak.covering, h.queue⟩
    rcases htak.only l hl with hold | ⟨rfl, hnew⟩
    · exact h.holds l hold
    rcases h.waits l List.mem_cons_self with hrun | hcov
    · exact .inr (.inr hrun)
    · rw [hnew] at hcov
      cases hcov
  | cancelScope | pivotScope => exact ⟨htak.collecting h.1, htak.mem h.2.1, h.2.2⟩
  | engineScopes =>
    exact ⟨htak.collecting h.1, fun s row hrow hrun => htak.mem (h.2 s row hrow hrun)⟩
  | append => exact ⟨htak.collecting h.1, h.2.1.mono fun s => htak.mem, h.2.2⟩
  | insert => exact ⟨h.1.mono fun s => htak.keeps _, h.2.takes htak⟩
  | dequeue => cases h.1.1

/-! ### What an append does -/

/-- What some insertions do to the rows that are locked. -/
structure Effects (runId : RunId) (drafts : List EventDraft) (db db' : Db) : Prop where
  scopes : SamePlaces db db'
  queue : ∀ v, db'.queue.lookup v = db.queue.lookup v ∨
    ((∀ row, db'.queue.lookup v = some row → row.runId = runId) ∧
      ((∃ d ∈ drafts, v ∈ d.shadowed) ∨
        (∃ d ∈ drafts, d.creates v) ∧ db.queue.lookup v = none))

/-- One more insertion. -/
theorem Effects.cons {drafts : List EventDraft} {mid db' : Db} (h : Effect runId draft db mid)
    (hrest : Effects runId drafts mid db') : Effects runId (draft :: drafts) db db' := by
  refine ⟨h.scopes.trans hrest.scopes, fun v => ?_⟩
  have hmore : ∀ {P : EventDraft → Prop}, (∃ d ∈ drafts, P d) → ∃ d ∈ draft :: drafts, P d :=
    fun ⟨d, hd, hp⟩ => ⟨d, List.mem_cons_of_mem _ hd, hp⟩
  rcases hrest.queue v with hkept | ⟨hrun, hshad | ⟨hcreated, hnone⟩⟩
  · rw [hkept]
    rcases h.queue v with hsame | ⟨hmem, hnone⟩ | ⟨hcreat, hnone, row, hrow, hrun⟩
    · exact .inl hsame
    · refine .inr ⟨fun row hrow => ?_, .inl ⟨draft, List.mem_cons_self, hmem⟩⟩
      rw [hnone] at hrow
      cases hrow
    refine .inr ⟨fun row' hrow' => ?_, .inr ⟨⟨draft, List.mem_cons_self, hcreat⟩, hnone⟩⟩
    rw [hrow] at hrow'
    cases hrow'
    exact hrun
  · exact .inr ⟨hrun, .inl (hmore hshad)⟩
  rcases h.queue v with hsame | ⟨hmem, -⟩ | ⟨hcreat, hnone', -⟩
  · exact .inr ⟨hrun, .inr ⟨hmore hcreated, hsame ▸ hnone⟩⟩
  · exact .inr ⟨hrun, .inl ⟨draft, List.mem_cons_self, hmem⟩⟩
  · exact .inr ⟨hrun, .inr ⟨⟨draft, List.mem_cons_self, hcreat⟩, hnone'⟩⟩

/-- The insertions of an append. -/
theorem effects_of_foldlM (session : Session) (hcopy : session.inheritCopy = false)
    {drafts : List EventDraft} {db' : Db}
    (hscope : ∀ d ∈ drafts, ∀ (mid : Db), SamePlaces db mid →
      checkEventOwnership session mid (mid.stamp runId d) = ok () →
      ∀ payload s, d.body = .txnScope payload → d.scopeId = some s →
      (mid.scopes.lookup s).isSome = true)
    (h : drafts.foldlM (appendOne session runId) db = ok db') : Effects runId drafts db db' := by
  induction drafts generalizing db with
  | nil =>
    cases h
    exact ⟨.of_eq rfl, fun _ => .inl rfl⟩
  | cons draft drafts ih =>
    simp only [List.foldlM, Fallible.bind_eq_ok] at h
    obtain ⟨mid, hmid, hrest⟩ := h
    have hown := (appendOne_ok hcopy hmid).2.2.1
    have hone : Effect runId draft db mid := appendOne_effect hcopy hmid
      (hscope draft List.mem_cons_self db (.of_eq rfl) hown)
    refine .cons hone (ih (fun d hd mid' hsame => ?_) hrest)
    exact hscope d (List.mem_cons_of_mem _ hd) mid' (hone.scopes.trans hsame)

theorem not_coordinator_of_engine (h : checkEventOwnership engine db e = ok ()) :
    floryEventOwner e.body ≠ some .coordinator := by
  intro hown
  simp [checkEventOwnership, hown, engine, SessionUser.owner] at h

theorem not_engine_of_coordinator (h : checkEventOwnership coordinator db e = ok ()) :
    floryEventOwner e.body ≠ some .engine := by
  intro hown
  simp [checkEventOwnership, hown, coordinator, SessionUser.owner] at h

/-- **What an append has done so far.** -/
theorem Secured.effects (h : Secured db held a) (hview : a.view db = ok own) :
    Effects a.runId a.inserted db own := by
  cases h with
  | @coordinator s hses _ hrow hdraf hwrit =>
    have hbase : SamePlaces db (a.written.elim db fun entry => db.setScope entry.1 entry.2) ∧
        (a.written.elim db fun entry => db.setScope entry.1 entry.2).queue = db.queue := by
      cases hcase : a.written with
      | none => exact ⟨.of_eq rfl, rfl⟩
      | some entry =>
        obtain ⟨hs, row, hlook, hplace⟩ := hwrit entry hcase
        exact ⟨.setScope (hs ▸ hlook) hplace, rfl⟩
    have hfold := effects_of_foldlM a.session (by rw [hses]; rfl)
      (fun d hd mid hsame _ payload s' _ hs' => ?_) hview
    · refine ⟨hbase.1.trans hfold.scopes, fun v => ?_⟩
      have hv := hfold.queue v
      rw [hbase.2] at hv
      exact hv
    · -- the scope of the append has its row, and the events name no other scope
      have hmid : (mid.scopeOf a.runId s).isSome = true := by
        rw [(hbase.1.trans hsame).scopeOf_isSome]
        exact hrow
      obtain ⟨row, hrow⟩ := Option.isSome_iff_exists.mp hmid
      rcases hdraf d (List.mem_append_left _ hd) with hnone | hsome
      · rw [hnone] at hs'
        cases hs'
      rw [hsome] at hs'
      cases hs'
      rw [(Db.scopeOf_eq_some_iff.mp hrow).1]
      rfl
  | engine hses _ hwrit =>
    rw [Appending.view, hwrit] at hview
    refine effects_of_foldlM a.session (by rw [hses]; rfl)
      (fun d _ mid _ hown payload s hbody _ => ?_) hview
    rw [hses] at hown
    refine absurd ?_ (not_coordinator_of_engine hown)
    rw [show (mid.stamp a.runId d).body = d.body from rfl, hbody]
    rfl

/-- What an append has done so far it may do. -/
theorem Inserting.guarantee (h : Inserting home db held [] a)
    (heff : Effects a.runId a.inserted db own) : Guarantee home held db own := by
  cases h with
  | waiting hawait => cases hawait
  | running hrun _ _ hshad hcreat =>
    have hhome : ∀ v, own.queue.lookup v = db.queue.lookup v ∨
        (home v = a.runId ∧ (∀ row, own.queue.lookup v = some row → row.runId = a.runId) ∧
          (db.queue.lookup v = none ∨ forUpdate (.queue v) ∈ held)) := by
      intro v
      rcases heff.queue v with hsame | ⟨hruns, ⟨d, hd, hv⟩ | ⟨⟨d, hd, hv⟩, hnone⟩⟩
      · exact .inl hsame
      · obtain ⟨hhome, hlock⟩ := hshad d hd v hv
        rw [List.append_nil] at hlock
        exact .inr ⟨hhome, hruns, hlock.symm⟩
      · exact .inr ⟨hcreat d hd v hv, hruns, .inl hnone⟩
    refine ⟨heff.scopes, fun v => ?_, fun hhom v row hrow => ?_⟩
    · rcases hhome v with hsame | ⟨hv, -, hlock⟩
      · exact .inl (by rw [hsame])
      · exact .inr ⟨hv ▸ hrun, hlock⟩
    rcases hhome v with hsame | ⟨hv, hruns, -⟩
    · exact hhom v row (hsame ▸ hrow)
    · rw [hv]
      exact hruns row hrow

/-! ### The locks of an insertion -/

/-- The scope lock of the guard. -/
theorem guardLocks_scope (h : l ∈ guardLocks db e) :
    ∃ s, l.row = .scope s ∧ e.scopeId = some s ∧ (db.scopeOf e.runId s).isSome = true := by
  unfold guardLocks at h
  split at h
  · cases hs : e.scopeId with
    | none => simp [hs] at h
    | some s =>
      simp only [hs, Option.elim_some, scopeLock] at h
      split at h
      · rename_i hrow
        obtain rfl := List.mem_singleton.mp h
        exact ⟨s, rfl, rfl, hrow⟩
      · cases h
  · cases h

/-- The scope lock of the fence. -/
theorem fenceLocks_scope (h : l ∈ fenceLocks db e) :
    ∃ s, l.row = .scope s ∧ e.scopeId = some s ∧ (db.scopeOf e.runId s).isSome = true := by
  unfold fenceLocks at h
  split at h
  · rename_i s _ hs
    split at h
    · rename_i hany
      obtain ⟨_, hrow, -⟩ := (Option.any_eq_true _ _).mp hany
      obtain rfl := List.mem_singleton.mp h
      exact ⟨s, rfl, hs, by rw [hrow]; rfl⟩
    · cases h
  · cases h

/-- The locks of the projection. -/
theorem projectionLocks_scope (h : l ∈ projectionLocks db e) :
    floryEventOwner e.body = some .coordinator ∧
      (l = forKeyShare (.run e.runId) ∨ ∃ s, l.row = .scope s ∧ e.scopeId = some s) := by
  unfold projectionLocks at h
  split at h
  any_goals
    rename_i s hbody hs
    refine ⟨by rw [hbody]; rfl, ?_⟩
    split at h
    · simp only [List.mem_cons, List.not_mem_nil, or_false] at h
      first
      | exact .inr ⟨s, by rw [h]; rfl, hs⟩
      | exact h.imp_right fun heq => ⟨s, by rw [heq]; rfl, hs⟩
    · cases h
  cases h

/-- The locks of a request. -/
theorem requestLocks_scope (h : l ∈ requestLocks db e) :
    floryEventOwner e.body = some .engine ∧
      ∃ s, l.row = .scope s ∧ (db.scopeOf e.runId s).isSome = true := by
  unfold requestLocks at h
  split at h
  · rename_i payload hbody
    obtain ⟨s, hs, rfl⟩ := List.mem_map.mp h
    obtain ⟨_, hrow, -⟩ := (Option.any_eq_true _ _).mp (List.mem_filter.mp hs).2
    exact ⟨by rw [hbody]; rfl, s, rfl, by rw [hrow]; rfl⟩
  · cases h

/-- The locks of a shadow. -/
theorem shadowLocks_queue (h : l ∈ shadowLocks db e) :
    floryEventOwner e.body = some .engine ∧
      ∃ v ∈ e.toEventDraft.shadowed, l = forUpdate (.queue v) ∧
        (db.queue.lookup v).isSome = true := by
  unfold shadowLocks at h
  split at h
  · rename_i vertexIds hbody
    obtain ⟨v, hv, rfl⟩ := List.mem_map.mp h
    obtain ⟨hmem, hsome⟩ := List.mem_filter.mp hv
    refine ⟨by rw [hbody]; rfl, v, ?_, rfl, hsome⟩
    rw [EventDraft.shadowed, hbody]
    exact hmem
  · cases h

/-- The locks an insertion of the Coordinator takes. -/
theorem eventLocks_coordinator (h : l ∈ eventLocks coordinator db own e) :
    l = forKeyShare (.run e.runId) ∨ ∃ s, l.row = .scope s ∧ e.scopeId = some s := by
  rcases List.mem_append.mp h with hguard | hrest
  · obtain ⟨s, hrow, hs, -⟩ := guardLocks_scope hguard
    exact .inr ⟨s, hrow, hs⟩
  split at hrest
  · rename_i hown
    have heng := not_engine_of_coordinator hown
    simp only [List.mem_cons, List.mem_append] at hrest
    rcases hrest with hrun | ((hshad | hreq) | hfen) | hproj
    · exact .inl hrun
    · exact absurd (shadowLocks_queue hshad).1 heng
    · exact absurd (requestLocks_scope hreq).1 heng
    · obtain ⟨s, hrow, hs, -⟩ := fenceLocks_scope hfen
      exact .inr ⟨s, hrow, hs⟩
    · exact (projectionLocks_scope hproj).2
  · cases hrest

/-- The locks an insertion of the Engine takes. -/
theorem eventLocks_engine (h : l ∈ eventLocks engine db own e) :
    l = forKeyShare (.run e.runId) ∨
      (∃ s, l.row = .scope s ∧ (own.scopeOf e.runId s).isSome = true) ∨
      ∃ v ∈ e.toEventDraft.shadowed, l = forUpdate (.queue v) ∧
        (db.queue.lookup v).isSome = true := by
  rcases List.mem_append.mp h with hguard | hrest
  · obtain ⟨s, hrow, -, hsome⟩ := guardLocks_scope hguard
    exact .inr (.inl ⟨s, hrow, hsome⟩)
  split at hrest
  · rename_i hown
    simp only [List.mem_cons, List.mem_append] at hrest
    rcases hrest with hrun | ((hshad | hreq) | hfen) | hproj
    · exact .inl hrun
    · exact .inr (.inr (shadowLocks_queue hshad).2)
    · exact .inr (.inl (requestLocks_scope hreq).2)
    · obtain ⟨s, hrow, -, hsome⟩ := fenceLocks_scope hfen
      exact .inr (.inl ⟨s, hrow, hsome⟩)
    · exact absurd (projectionLocks_scope hproj).1 (not_coordinator_of_engine hown)
  · cases hrest

theorem covering_of_update (h : forUpdate l.row ∈ held) : covering held l = true :=
  RowLocks.covering_iff.mpr ⟨_, h, rfl, rfl⟩

/-- The locks of one more insertion are covered, but for queued work that the Engine shadows. -/
theorem Secured.eventLocks (h : Secured db held a) (hrun : forUpdate (.run a.runId) ∈ held)
    (hview : a.view db = ok own) (hdraft : draft ∈ a.rest) :
    ∀ l ∈ eventLocks a.session db own (own.stamp a.runId draft), covering held l = true ∨
      ∃ v ∈ draft.shadowed, l = forUpdate (.queue v) ∧ a.session = Flory.engine ∧
        (db.queue.lookup v).isSome = true := by
  intro l hl
  have hsame := (h.effects hview).scopes
  cases h with
  | coordinator hses hlock _ hdraf =>
    rw [hses] at hl
    refine .inl (covering_of_update ?_)
    rcases eventLocks_coordinator hl with rfl | ⟨s, hrow, hs⟩
    · exact hrun
    rw [hrow]
    rcases hdraf draft (List.mem_append_right _ hdraft) with hnone | hsome
    · exact absurd (hs.symm.trans hnone) (by simp)
    · obtain rfl := Option.mem_unique hs hsome
      exact hlock
  | engine hses hall =>
    rw [hses] at hl
    rcases eventLocks_engine hl with rfl | ⟨s, hrow, hsome⟩ | ⟨v, hv, hqueue, hsome⟩
    · exact .inl (covering_of_update hrun)
    · rw [hsame.scopeOf_isSome] at hsome
      obtain ⟨row, hscope⟩ := Option.isSome_iff_exists.mp hsome
      obtain ⟨hlook, hof⟩ := Db.scopeOf_eq_some_iff.mp hscope
      refine .inl (covering_of_update ?_)
      rw [hrow]
      exact hall s row hlook hof
    · exact .inr ⟨v, hv, hqueue, hses, hsome⟩

/-- What the condition says of a shadow. -/
theorem draftOrderly_shadowed (h : draftOrderly home db runId draft = true)
    (hv : v ∈ draft.shadowed) :
    home v = runId ∧ ∀ row, db.queue.lookup v = some row → row.scopeId.isSome = true := by
  unfold EventDraft.shadowed at hv
  split at hv
  · rename_i vertexIds hbody
    rw [draftOrderly, hbody] at h
    have hall := List.all_eq_true.mp h v hv
    rw [Bool.and_eq_true] at hall
    refine ⟨by simpa using hall.1, fun row hrow => ?_⟩
    simpa [hrow] using hall.2
  · cases hv

/-- What the condition says of a created vertex. -/
theorem draftOrderly_creates (h : draftOrderly home db runId draft = true) (hv : draft.creates v) :
    home v = runId := by
  obtain ⟨hbody, hver⟩ := hv
  cases hcase : draft.body with
  | vertexCreated => simpa [draftOrderly, hcase, hver] using h
  | _ => simp [hcase, EventBody.isCreated] at hbody

/-- An accepted shadow locks the queued work it names. -/
theorem mem_eventLocks {session : Session} (hacc : refusesShadow session own e = false)
    (hv : v ∈ e.toEventDraft.shadowed) (hsome : (db.queue.lookup v).isSome = true) :
    forUpdate (.queue v) ∈ eventLocks session db own e := by
  unfold EventDraft.shadowed at hv
  split at hv
  · rename_i vertexIds hbody
    have hmem : forUpdate (.queue v) ∈ shadowLocks db e := by
      rw [shadowLocks, hbody]
      exact List.mem_map.mpr ⟨v, List.mem_filter.mpr ⟨hv, hsome⟩, rfl⟩
    have hguard : checkNoCancelAfterPivot session own e = ok () := by
      unfold checkNoCancelAfterPivot
      rw [hbody]
      simp
    rw [refusesShadow, hbody, Bool.or_eq_false_iff] at hacc
    cases hown : checkEventOwnership session own e with
    | error => simp [hown, Except.toOption] at hacc
    | ok =>
      refine List.mem_append_right _ ?_
      simp only [hguard, hown]
      simp [hmem]
  · cases hv

/-- One more insertion. -/
theorem Inserting.next {rest : List EventDraft} (h : Inserting home db held [] a)
    (hsec : Secured db held a) (hview : a.view db = ok own) (hrest : a.rest = draft :: rest)
    (hacc : refusesShadow a.session own (own.stamp a.runId draft) = false)
    (hord : draftOrderly home db a.runId draft = true) :
    Inserting home db held (eventLocks a.session db own (own.stamp a.runId draft))
      (a.next draft rest) := by
  cases h with
  | waiting hawait => cases hawait
  | running hrun hheld _ hshad hcreat =>
    refine .running hrun hheld (fun l hl => ?_) (fun d hd v hv => ?_) (fun d hd v hv => ?_)
    · rcases hsec.eventLocks hrun hview (hrest ▸ List.mem_cons_self) l hl with
        hcov | ⟨v, hv, hqueue, hses, hsome⟩
      · exact .inl hcov
      obtain ⟨row, hrow⟩ := Option.isSome_iff_exists.mp hsome
      obtain ⟨hhome, hscop⟩ := draftOrderly_shadowed hord hv
      exact .inr ⟨v, row, hqueue, hses, hhome, hrow, hscop row hrow⟩
    · rcases List.mem_append.mp hd with hd | hd
      · obtain ⟨hhome, hlock⟩ := hshad d hd v hv
        rw [List.append_nil] at hlock
        exact ⟨hhome, hlock.imp_left (List.mem_append_left _)⟩
      obtain rfl := List.mem_singleton.mp hd
      refine ⟨(draftOrderly_shadowed hord hv).1, ?_⟩
      cases hrow : db.queue.lookup v with
      | none => exact .inr rfl
      | some =>
        exact .inl (List.mem_append_right _ (mem_eventLocks hacc hv (by rw [hrow]; rfl)))
    · rcases List.mem_append.mp hd with hd | hd
      · exact hcreat d hd v hv
      · obtain rfl := List.mem_singleton.mp hd
        exact draftOrderly_creates hord hv

/-- An append stays secured by one more insertion. -/
theorem Secured.next {rest : List EventDraft} (h : Secured db held a)
    (hrest : a.rest = draft :: rest) : Secured db held (a.next draft rest) := by
  cases h with
  | coordinator hses hlock hrow hdraf hwrit =>
    refine .coordinator hses hlock hrow (fun d hd => hdraf d ?_) hwrit
    rw [hrest]
    simpa [Appending.next] using hd
  | engine hses hall hwrit hdeq => exact .engine hses hall hwrit hdeq

/-! ### The next statement -/

/-- A candidate locks the scope row it names. -/
theorem candidate_locks (db : Db) (row : QueueRow) :
    row.scopeId.elim [] (scopeLock db row.runId) =
      (row.scopeId.filter fun s => (db.scopeOf row.runId s).isSome).toList.map
        fun s => forUpdate (.scope s) := by
  cases row.scopeId with
  | none => rfl
  | some =>
    simp only [Option.elim_some, scopeLock, Option.filter]
    split <;> simp_all

/-- The scopes of the candidates, one by one. -/
theorem candidateScopes_cons (db : Db) (v : VertexId) (row : QueueRow)
    (rest : List (VertexId × QueueRow)) :
    candidateScopes db ((v, row) :: rest) =
      (row.scopeId.filter fun s => (db.scopeOf row.runId s).isSome).toList ++
        candidateScopes db rest := by
  simp only [candidateScopes, List.filterMap_cons]
  cases row.scopeId.filter fun s => (db.scopeOf row.runId s).isSome <;> rfl

theorem Collecting.ascending (h : Collecting rank db held [] later) :
    Ascending rank db held later := by
  obtain ⟨pending, hawait, hasc⟩ := h
  cases pending with
  | nil => exact hasc
  | cons => cases hawait

theorem ascending_nil (h : later.Pairwise fun s s' => s = s' ∨ openedBefore rank db s s' = true) :
    Ascending rank db [] later :=
  ⟨by simp, by simp, h⟩

theorem collecting_one (s : ScopeId) : Collecting rank db [] [forUpdate (.scope s)] [] :=
  ⟨[s], rfl, ascending_nil (List.pairwise_singleton _ _)⟩

/-- An append with more locks on queued work of its run. -/
theorem Inserting.more {new : List (Lock Lockable)} (h : Inserting home db held [] a)
    (hnew : ∀ l ∈ new, ∃ v, l = forUpdate (.queue v) ∧ home v = a.runId) :
    Inserting home db (new ++ held) [] a := by
  cases h with
  | waiting hawait => cases hawait
  | running hrun hheld _ hshad hcreat =>
    refine .running (List.mem_append_right _ hrun) (fun l hl => ?_) (by simp)
      (fun d hd v hv => ?_) hcreat
    · rcases List.mem_append.mp hl with hl | hl
      · exact .inr (.inr (hnew l hl))
      · exact hheld l hl
    obtain ⟨hhome, hlock⟩ := hshad d hd v hv
    rw [List.append_nil] at hlock ⊢
    exact ⟨hhome, hlock.imp_left (List.mem_append_right _)⟩

/-- A lease leaves the work with its owner. -/
theorem guarantee_writeLease (worker : WorkerId) (leaseMs : ℕ) (v : VertexId) :
    Guarantee home held db (writeLease worker leaseMs v db) := by
  unfold writeLease
  cases hrow : db.queue.lookup v with
  | none => exact .of_eq rfl rfl
  | some row =>
    have hlook : ∀ u, (leaseRow db worker leaseMs v row).2.queue.lookup u =
        if u = v then some (row.claim worker (db.now + leaseMs)) else db.queue.lookup u :=
      fun u => Table.lookup_insert_eq
    refine ⟨.of_eq rfl, fun u => .inl ?_, fun hhom u row' hrow' => ?_⟩
    · rw [hlook]
      split
      · rename_i hu
        rw [hu, hrow]
        rfl
      · rfl
    · rw [hlook] at hrow'
      split at hrow'
      · rename_i hu
        cases hrow'
        rw [hu]
        exact hhom v row hrow
      · exact hhom u row' hrow'

/-- The deletion after an append. -/
theorem guarantee_commitDequeue {locked : List Lockable} (hsec : Secured db held a)
    (hins : Inserting home db held [] a)
    (hloc : ∀ k ∈ locked, ∃ v, k = .queue v ∧ forUpdate k ∈ held ∧ home v = a.runId) :
    Guarantee home held db (a.commitDequeue locked db) := by
  unfold Appending.commitDequeue
  cases hview : a.view db with
  | error => exact .of_eq rfl rfl
  | ok own =>
    have hown := hins.guarantee (hsec.effects hview)
    have hlook : ∀ v, (own.queue.filterRows fun v _ => !locked.contains (.queue v)).lookup v =
        if .queue v ∈ locked then none else own.queue.lookup v := by
      intro v
      rw [Table.lookup_filterRows]
      cases own.queue.lookup v with
      | none => simp
      | some =>
        by_cases hv : Lockable.queue v ∈ locked <;> simp [Option.filter, hv]
    refine ⟨hown.scopes, fun v => ?_, fun hhom v row hrow => ?_⟩
    · by_cases hv : Lockable.queue v ∈ locked
      · obtain ⟨v', heq, hlock, hhome⟩ := hloc _ hv
        cases heq
        cases hins with
        | waiting hawait => cases hawait
        | running hrun => exact .inr ⟨hhome ▸ hrun, .inr hlock⟩
      · simp only [hlook, if_neg hv]
        exact hown.queue v
    · simp only [hlook] at hrow
      split at hrow
      · cases hrow
      · exact hown.homed hhom v row hrow

/-- What a statement leads to: points that are sound with the locks it takes, and a write that is
allowed under those held. The rows it skips when locked are queued work, and come last. -/
def Follows (rank : RunId → ℕ) (home : VertexId → RunId) (db : Db) (held : List (Lock Lockable)) :
    Statement Lockable Point Db → Prop
  | .lock locks next => next.Sound rank home db held locks
  | .skipLocked rows next =>
    (∀ k ∈ rows, ∃ v, k = .queue v) ∧
    (∀ l ∈ held, (∃ s, l = forUpdate (.scope s)) ∨ (∃ r, l = forUpdate (.run r)) ∨
      ∃ v, l = forUpdate (.queue v)) ∧
    ∀ free : List Lockable, (∀ k ∈ free, k ∈ rows) →
      (next free).Sound rank home db (free.map (⟨·, .update⟩) ++ held) []
  | .finish write => Guarantee home held db (write db)

theorem follows_nothing : Follows rank home db held nothing :=
  .of_eq rfl rfl

/-- An append of one event to a scope whose row is locked. -/
theorem follows_append {s : ScopeId} (h : Collecting rank db held [] [])
    (hlock : forUpdate (.scope s) ∈ held ++ []) (hrow : (db.scopeOf runId s).isSome = true)
    (hdraft : draft.scopeId = some s) {written : Option (ScopeId × ScopeRow)}
    (hwrit : ∀ entry, written = some entry → entry.1 = s ∧
      ∃ row, db.scopes.lookup s = some row ∧ entry.2.place = row.place)
    (dequeues : Option ScopeId) :
    Follows rank home db held (goOn (.append
      { session := coordinator, runId := runId, written := written, rest := [draft],
        dequeues := dequeues })) := by
  refine ⟨h, .coordinator rfl hlock hrow (fun d hd => ?_) hwrit, rfl⟩
  obtain rfl := List.mem_singleton.mp hd
  exact .inr hdraft

/-- The decision of a cancellation. -/
theorem follows_cancelDecision {call : CancelCall}
    (h : (Point.cancelScope call).Sound rank home db held []) :
    Follows rank home db held (cancelDecision call db) := by
  obtain ⟨hcol, hlock, hsome⟩ := h
  unfold cancelDecision
  split
  · exact follows_nothing
  rename_i row hrow
  have hlook := (Db.scopeOf_eq_some_iff.mp hrow).1
  split
  · split
    · exact .setScope hlook (ScopeRow.place_answer _ _)
    · exact follows_nothing
  split
  · exact .setScope hlook (ScopeRow.place_answer _ _)
  split
  · unfold cancelOpen
    split
    · exact follows_nothing
    split
    · exact follows_nothing
    split
    · exact .setScope hlook (ScopeRow.place_defer _ _)
    split
    · exact follows_append hcol hlock hsome rfl (fun _ hent => by cases hent) _
    · exact follows_append hcol hlock hsome rfl (fun _ hent => by cases hent) _
  · exact follows_nothing

/-- The next event of an append, and what follows the last one. -/
theorem follows_insertNext (h : (Point.insert a).Sound rank home db held [])
    (hord : (Point.insert a).orderly rank home db = true) (hhom : Homed home db) :
    Follows rank home db held (insertNext a db) := by
  obtain ⟨hsec, hins⟩ := h
  unfold insertNext
  split
  · exact follows_nothing
  rename_i own hview
  have hguar := hins.guarantee (hsec.effects hview)
  split
  · rename_i draft rest hrest
    split
    · exact follows_nothing
    · rename_i hacc
      simp only [Point.orderly, hrest, List.head?_cons, Option.all_some] at hord
      exact ⟨hsec.next hrest, hins.next hsec hview hrest (Bool.not_eq_true _ ▸ hacc) hord⟩
  · rename_i s _ _
    -- the pending work is of the run, so its vertices are at home there
    have hown : Homed home own := hguar.homed hhom
    have hqueue : ∀ k ∈ (pendingWork own a.runId s).map Lockable.queue,
        ∃ v, k = .queue v ∧ home v = a.runId := by
      intro k hk
      obtain ⟨v, hv, rfl⟩ := List.mem_map.mp hk
      obtain ⟨⟨v, row⟩, hrow, rfl⟩ := List.mem_map.mp hv
      obtain ⟨hlook, hpen⟩ := Table.mem_rowsWhere.mp hrow
      simp only [Bool.and_eq_true, beq_iff_eq] at hpen
      exact ⟨v, rfl, (hown v row hlook).symm.trans hpen.1.1⟩
    refine ⟨fun k hk => (hqueue k hk).imp fun _ h => h.1, fun l hl => ?_, fun free hfree =>
      ⟨⟨rfl, hsec.mono fun s hs => List.mem_append_right _ hs,
        hins.more fun l hl => ?_⟩, fun k hk => ?_⟩⟩
    · cases hins with
      | waiting hawait => cases hawait
      | running _ hheld =>
        exact (hheld l hl).imp_right (.imp (fun hrun => ⟨_, hrun⟩) (.imp fun _ h => h.1))
    · obtain ⟨k, hk, rfl⟩ := List.mem_map.mp hl
      obtain ⟨v, rfl, hv⟩ := hqueue k (hfree k hk)
      exact ⟨v, rfl, hv⟩
    · obtain ⟨v, hkv, hv⟩ := hqueue k (hfree k hk)
      exact ⟨v, hkv, List.mem_append_left _ (List.mem_map.mpr ⟨k, hk, rfl⟩), hv⟩
  · rw [Follows, Appending.commit, hview]
    exact hguar

/-- A candidate of a claim: its scope is locked, or its row is skipped when locked. -/
theorem follows_candidate {worker : WorkerId} {leaseMs : ℕ} {row : QueueRow} {found : Bool}
    {todo : List (VertexId × QueueRow)}
    (h : (Point.candidate worker leaseMs v row found todo).Sound rank home db held []) :
    Follows rank home db held ((Point.candidate worker leaseMs v row found todo).statement db) := by
  simp only [Point.statement]
  split
  · exact ⟨rfl, Collecting.ascending h⟩
  · refine ⟨fun k hk => ?_, fun l hl => .inl ((Collecting.ascending h).scopes l hl),
      fun free _ => ⟨rfl, fun hnil => ?_⟩⟩
    · unfold leasable at hk
      split at hk
      · exact ⟨v, List.mem_singleton.mp hk⟩
      · cases hk
    · subst hnil
      exact Collecting.ascending h

/-- An attempt locks its scope first. -/
theorem follows_attempt {worker : WorkerId} {start : AttemptStart}
    (h : (Point.attempt worker start).Sound rank home db held []) :
    Follows rank home db held ((Point.attempt worker start).statement db) := by
  obtain ⟨rfl, -⟩ := h
  cases hs : start.scopeId with
  | none =>
    simp only [Point.statement, hs]
    exact ⟨⟨[], rfl, ascending_nil .nil⟩, fun s hsome => by rw [hs] at hsome; cases hsome⟩
  | some s =>
    simp only [Point.statement, hs]
    split
    · rename_i hrow
      refine ⟨collecting_one s, fun s' hsome => ?_⟩
      obtain rfl := Option.mem_unique hs hsome
      exact ⟨List.mem_singleton_self _, hrow⟩
    · exact follows_nothing

/-- Then the row of its lease. -/
theorem follows_attemptScope {worker : WorkerId} {start : AttemptStart}
    (h : (Point.attemptScope worker start).Sound rank home db held []) :
    Follows rank home db held ((Point.attemptScope worker start).statement db) := by
  simp only [Point.statement]
  split
  · split
    · have hscope : ScopeHeld db held start := by
        intro s hs
        have hheld := h.2 s hs
        rw [List.append_nil] at hheld
        exact hheld
      refine ⟨hscope, fun k hk => List.mem_append_right _ ?_,
        fun l hl => .inl (h.1.ascending.scopes l hl), fun l hl => ?_⟩
      · simp [leaseLock, hk]
      · simpa [leaseLock] using hl
    · exact follows_nothing
  · exact follows_nothing

/-- And then what the new row refers to. -/
theorem follows_attemptLease {worker : WorkerId} {start : AttemptStart}
    (h : (Point.attemptLease worker start).Sound rank home db held [])
    (hord : (Point.attemptLease worker start).orderly rank home db = true) :
    Follows rank home db held ((Point.attemptLease worker start).statement db) := by
  simp only [Point.statement]
  split
  · rename_i hlease
    refine ⟨h.scope, fun k hk => ?_, fun l hl => (h.holds l hl).imp_right .inl, fun l hl => ?_,
      fun hsour => ?_⟩
    · have hmem := h.lease k hk
      rw [List.append_nil] at hmem
      exact hmem
    · simp only [attemptReferences, List.mem_cons, Option.mem_toList,
        Option.map_eq_some_iff] at hl
      rcases hl with rfl | ⟨s, hs, rfl⟩
      · exact .inl rfl
      · exact .inr (covering_of_update (h.scope s hs).1)
    · simp only [holdsLease, hsour] at hlease
      obtain ⟨row, hrow, -⟩ := (Option.any_eq_true _ _).mp hlease
      simp only [Point.orderly, hsour, hrow] at hord
      refine ⟨row, hrow, ?_⟩
      simpa using hord
  · exact follows_nothing

/-- The admission of a pivot is appended under the lock of its scope. -/
theorem follows_pivotScope {s : ScopeId}
    (h : (Point.pivotScope runId s v).Sound rank home db held []) :
    Follows rank home db held ((Point.pivotScope runId s v).statement db) := by
  simp only [Point.statement]
  split
  · rename_i row hrow
    split
    · refine follows_append h.1 h.2.1 h.2.2 rfl (fun entry hent => ?_) _
      cases hent
      exact ⟨rfl, row, (Db.scopeOf_eq_some_iff.mp hrow).1, rfl⟩
    · exact follows_nothing
  · exact follows_nothing

/-- The Engine locks the scopes of a run in the order in which they were opened. -/
theorem follows_engine {decision : Decide}
    (h : (Point.engine runId decision).Sound rank home db held []) (hapart : Apart db) :
    Follows rank home db held ((Point.engine runId decision).statement db) := by
  obtain ⟨rfl, -⟩ := h
  refine ⟨⟨(runScopes db runId).map Prod.fst, by rw [List.map_map]; rfl, ascending_nil ?_⟩,
    fun s row hrow hrun => ?_⟩
  · rw [List.append_nil]
    exact (runScopes_sorted hapart runId).imp .inr
  · obtain ⟨entry, hent, rfl⟩ := List.mem_map.mp (mem_runScopes hrow hrun)
    exact List.mem_map.mpr ⟨entry, hent, rfl⟩

/-- **The next statement keeps what holds of the locks**, and what it writes is allowed under
them. -/
theorem Point.Sound.statement (h : p.Sound rank home db held [])
    (hord : p.orderly rank home db = true) (hapart : Apart db) (hhom : Homed home db) :
    Follows rank home db held (p.statement db) := by
  cases p with
  | claim =>
    obtain ⟨rfl, -⟩ := h
    exact ⟨rfl, ascending_nil (by simpa [Point.orderly] using hord)⟩
  | candidates worker leaseMs rest =>
    cases rest with
    | nil => exact follows_nothing
    | cons candidate rest =>
      obtain ⟨v, row⟩ := candidate
      refine ⟨_, candidate_locks db row, ?_⟩
      rw [← candidateScopes_cons db v row rest]
      exact h.2
  | candidate => exact follows_candidate h
  | claimed worker leaseMs v rest locked =>
    cases locked with
    | nil => exact ⟨rfl, h.2 rfl⟩
    | cons => exact guarantee_writeLease worker leaseMs v
  | attempt => exact follows_attempt h
  | attemptScope => exact follows_attemptScope h
  | attemptLease => exact follows_attemptLease h hord
  | attemptRow => exact .of_eq rfl rfl
  | cancel call =>
    obtain ⟨rfl, -⟩ := h
    simp only [Point.statement]
    split
    · rename_i hrow
      exact ⟨collecting_one _, List.mem_singleton_self _, hrow⟩
    · exact follows_nothing
  | cancelScope => exact follows_cancelDecision h
  | pivot runId s v =>
    obtain ⟨rfl, -⟩ := h
    simp only [Point.statement]
    split
    · rename_i hany
      obtain ⟨row, hrow, -⟩ := (Option.any_eq_true _ _).mp hany
      exact ⟨collecting_one _, List.mem_singleton_self _, by rw [hrow]; rfl⟩
    · exact follows_nothing
  | pivotScope => exact follows_pivotScope h
  | scopeAppend =>
    obtain ⟨⟨rfl, -⟩, hrow, hdraf⟩ := h
    simp only [Point.statement, scopeLock, if_pos hrow]
    refine ⟨collecting_one _, .coordinator rfl (List.mem_singleton_self _) hrow hdraf
      (fun entry hent => ?_), rfl⟩
    cases hent
  | engine => exact follows_engine h hapart
  | engineScopes =>
    simp only [Point.statement]
    split
    · exact follows_nothing
    · exact ⟨h.1, .engine rfl h.2 rfl rfl, rfl⟩
  | append =>
    simp only [Point.statement]
    split
    · exact follows_nothing
    split
    · have hsec := h.2.1
      rw [List.append_nil] at hsec
      exact ⟨hsec, .waiting rfl h.1.ascending.scopes h.2.2⟩
    · exact follows_nothing
  | insert => exact follows_insertNext h hord hhom
  | dequeue => exact guarantee_commitDequeue h.1.2.1 h.1.2.2 h.2

end Turns

end Flory
