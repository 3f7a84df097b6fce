import Flory.Steps

/-!
# Steps, Row by Row

The moves of a worker seen from a single row of one table. Where `WorkerStep` gives the
whole database after a move, the relations below say what the move can do to one scope,
one bracket, one cancel member, one attempt or one queue row, and from which program point.
Nearly every move leaves a given row alone, so the invariants of the later modules have a
handful of cases each.

## Main results

* `WorkerStep.bracket`, `WorkerStep.member`, `WorkerStep.attempt`,
  `WorkerStep.queue`: the possible changes of one row.
* `WorkerStep.log`: the events a move adds, with their origin.
-/

namespace Flory

variable {db : Db} {runId : RunId} {s : ScopeId} {e : Event}

/-! ### The members of a cancellation -/

/-- The brackets a cancellation has to undo. -/
theorem mem_undoable {key : String} {bracket : BracketRow} :
    (key, bracket) ∈ undoable db runId s ↔ db.brackets.lookup key = some bracket ∧
      bracket.runId = runId ∧ bracket.scopeId = s ∧ bracket.state = .sealed ∧
      bracket.inverseTool.isSome := by
  simp only [undoable, Table.mem_rowsWhere, Bool.and_eq_true, beq_iff_eq]
  tauto

/-- The vertices of the brackets a cancellation has to undo. -/
def undoneVertices (db : Db) (runId : RunId) (s : ScopeId) : List VertexId :=
  (undoable db runId s).map fun entry => entry.2.tryVertexId

/-- The rows a cancellation lists. -/
theorem mem_memberRows {key : MemberKey} {row : MemberRow} :
    (key, row) ∈ memberRows db runId s ↔ ∃ k bracket tool,
      (k, bracket) ∈ undoable db runId s ∧ bracket.inverseTool = some tool ∧
      key = ⟨runId, s, bracket.tryVertexId⟩ ∧
      row = memberRow db runId (undoneVertices db runId s) k bracket tool := by
  simp only [memberRows, List.mem_filterMap, Option.map_eq_some_iff, Prod.mk.injEq, Prod.exists,
    undoneVertices]
  constructor
  · rintro ⟨k, bracket, hmem, tool, htool, rfl, rfl⟩
    exact ⟨k, bracket, tool, hmem, htool, rfl, rfl⟩
  · rintro ⟨k, bracket, tool, hmem, htool, rfl, rfl⟩
    exact ⟨k, bracket, hmem, tool, htool, rfl, rfl⟩

/-- A cancellation lists every bracket it has to undo. -/
theorem cancelMembers_isSome {k : String} {bracket : BracketRow}
    (h : (k, bracket) ∈ undoable db runId s) :
    ((cancelMembers db runId s).lookup ⟨runId, s, bracket.tryVertexId⟩).isSome := by
  obtain ⟨tool, htool⟩ := Option.isSome_iff_exists.mp (mem_undoable.mp h).2.2.2.2
  have hmem := mem_memberRows.mpr ⟨k, bracket, tool, h, htool, rfl, rfl⟩
  rw [cancelMembers, Table.lookup_insertAll, Option.isSome_or, Bool.or_eq_true, Option.isSome_map]
  exact .inr (List.find?_isSome.mpr ⟨_, hmem, by simp⟩)

/-- A completed cancellation leaves no sealed bracket. -/
theorem cancelBrackets_state {key : String} {row : BracketRow}
    (h : (cancelBrackets db runId s).lookup key = some row) (hrun : row.runId = runId)
    (hs : row.scopeId = s) : row.state ≠ .sealed := by
  rw [cancelBrackets, Table.lookup_mapRows] at h
  obtain ⟨_, -, rfl⟩ := Option.map_eq_some_iff.mp h
  split at hrun
  · rename_i hguard
    rw [if_pos hguard]
    exact BracketState.noConfusion
  rename_i hguard
  rw [if_neg hguard] at hs ⊢
  exact fun hstate => hguard ⟨hrun, hs, hstate⟩

/-! ### Scopes -/

/-- `row'` is `row` in another state: what identifies the scope is kept, and a fence is
never lowered. -/
structure ScopeRow.Becomes (row : ScopeRow) (state : ScopeState) (row' : ScopeRow) : Prop where
  state_eq : row'.state = state
  runId_eq : row'.runId = row.runId
  pivot_eq : row'.pivotVertexId = row.pivotVertexId
  required_eq : row'.requiredTryVertices = row.requiredTryVertices
  key_eq : row'.cancelIdempotencyKey = row.cancelIdempotencyKey
  fence_le : row.fencedAt.isSome → row'.fencedAt.isSome

namespace ScopeRow

variable (row : ScopeRow)

theorem becomes_self : row.Becomes row.state row :=
  ⟨rfl, rfl, rfl, rfl, rfl, id⟩

theorem becomes_answer (outcome : RequestOutcome) : row.Becomes row.state (row.answer outcome) := by
  unfold answer
  split <;> exact ⟨rfl, rfl, rfl, rfl, rfl, id⟩

theorem becomes_defer (now : Time) : row.Becomes row.state (row.defer now) := by
  unfold defer
  split <;> exact ⟨rfl, rfl, rfl, rfl, rfl, id⟩

theorem becomes_fence (now : Time) : row.Becomes row.state (row.fence now) :=
  ⟨rfl, rfl, rfl, rfl, rfl, fun _ => rfl⟩

theorem becomes_request (seq : ℕ) (now : Time) : row.Becomes row.state (row.request seq now) :=
  ⟨rfl, rfl, rfl, rfl, rfl, fun _ => rfl⟩

/-- Changes of state compose, and the last one stands. -/
theorem Becomes.trans {row row' row'' : ScopeRow} {state state' : ScopeState}
    (h : row.Becomes state row') (h' : row'.Becomes state' row'') : row.Becomes state' row'' where
  state_eq := h'.state_eq
  runId_eq := h'.runId_eq.trans h.runId_eq
  pivot_eq := h'.pivot_eq.trans h.pivot_eq
  required_eq := h'.required_eq.trans h.required_eq
  key_eq := h'.key_eq.trans h.key_eq
  fence_le := h'.fence_le ∘ h.fence_le

end ScopeRow

/-- An unguarded state write keeps everything else of an existing row. -/
theorem projectScope_becomes {row : ScopeRow} (h : db.scopes.lookup s = some row) (e : Event)
    (payload : ScopePayload) : row.Becomes payload.state (projectScope db e s payload) := by
  obtain ⟨state, _, _, _, _⟩ := payload
  have hset : row.Becomes state { row with state := state } := ⟨rfl, rfl, rfl, rfl, rfl, id⟩
  simp only [projectScope, h]
  split
  · cases state with
    | suspended | cancelled => exact hset.trans (ScopeRow.becomes_answer _ _)
    | _ => exact hset
  · exact hset

/-- The row a `txn/scope` writes for a scope that has none. -/
theorem projectScope_new {payload : ScopePayload} (h : db.scopes.lookup s = none) :
    projectScope db e s payload =
      { runId := e.runId, state := payload.state, openedSeq := e.runSeq
        memberVertices := payload.memberVertices
        requiredTryVertices := payload.requiredTryVertices } := by
  simp only [projectScope, h]
  split
  · split <;> simp [ScopeRow.answer]
  · rfl

/-- One scope row of two tables: the same, or touched without a change of its state. -/
def Db.Touched (db db' : Db) (s : ScopeId) : Prop :=
  db'.scopes.lookup s = db.scopes.lookup s ∨ ∃ row row', db.scopes.lookup s = some row ∧
    db'.scopes.lookup s = some row' ∧ row.Becomes row.state row'

/-- A touched row is still there. -/
theorem Db.Touched.row {db db' : Db} {s : ScopeId} (h : db.Touched db' s) {row : ScopeRow}
    (hrow : db.scopes.lookup s = some row) :
    ∃ row', db'.scopes.lookup s = some row' ∧ row.Becomes row.state row' := by
  rcases h with hsame | ⟨row₀, row', hrow₀, hrow', hbec⟩
  · exact ⟨row, hsame.trans hrow, row.becomes_self⟩
  · obtain rfl := Option.mem_unique hrow₀ hrow
    exact ⟨row', hrow', hbec⟩

/-- A recorded failure keeps every scope row, up to its fence. -/
theorem touched_pushFailure (db : Db) (runId : RunId) (draft : EventDraft) (s : ScopeId) :
    db.Touched (db.pushFailure runId draft) s := by
  change AList.lookup s (fencedScopes coordinator _ _) = _ ∨ ∃ row row', _ ∧
    AList.lookup s (fencedScopes coordinator _ _) = some row' ∧ _
  simp only [fencedScopes, coordinator, Bool.false_eq_true, if_false]
  split
  · rw [Table.lookup_mapRows, Db.push_scopes]
    cases hrow : db.scopes.lookup s with
    | none => exact .inl rfl
    | some row =>
      refine .inr ⟨row, _, rfl, rfl, ?_⟩
      dsimp only
      split
      · exact row.becomes_fence _
      · exact row.becomes_self
  · exact .inl rfl

/-- A state write, row by row. -/
theorem lookup_pushState (db : Db) (runId : RunId) (scopeId s : ScopeId) (payload : ScopePayload) :
    (db.pushState runId scopeId payload).scopes.lookup s = if s = scopeId then
        some (projectScope db (db.stamp runId (scopeEvent scopeId payload)) scopeId payload)
      else db.scopes.lookup s :=
  Db.lookup_setScope _ _ _ _

variable {cfg : Config} {me : WorkerId} {db db' : Db} {pc pc' : Pc}

/-! ### Brackets -/

/-- The bracket row the success of an item seals. -/
def sealedRow (db : Db) (item : WorkItem) (s : ScopeId) (deadline : Time) : BracketRow :=
  projectTry (db.stamp item.runId (vertexEvent item (.txnTry (tryPayload item deadline)))) s
    item.vertexId (tryPayload item deadline)

/-- **What a move can do to one bracket row.** -/
inductive BracketStep (db : Db) (pc : Pc) (key : String) :
    Option BracketRow → Option BracketRow → Prop
  | kept (old : Option BracketRow) : BracketStep db pc key old old
  | sealed {item : WorkItem} {result : Execution} {deadline : Time} {s : ScopeId}
      (hpc : pc = .succeed item result deadline) (hs : item.scopeId = some s)
      (htry : item.tool.txn.mode.isTry = true) (hkey : item.tool.txn.idempotencyKey = key)
      (hexists : (db.scopes.lookup s).isSome) :
      BracketStep db pc key none (some (sealedRow db item s deadline))
  | confirmed {item : ScopedItem} {bracket : SealedBracket} {rest : List SealedBracket}
      {row : BracketRow} (hpc : pc = .confirmed item bracket rest)
      (hscope : row.scopeId = item.scopeId) (hstate : row.state = .sealed) :
      BracketStep db pc key (some row) (some { row with state := .confirmed })
  | cancelled {c : Cancellation} {row : BracketRow} {scope : ScopeRow}
      (hpc : pc = .completeCancel c) (hscope : row.scopeId = c.scopeId)
      (hrow : db.scopes.lookup c.scopeId = some scope) (hcancelling : scope.state = .cancelling)
      (hstate : row.state = .sealed) :
      BracketStep db pc key (some row) (some { row with state := .cancelled })

/-- **Brackets, row by row.** -/
theorem WorkerStep.bracket (h : WorkerStep cfg me db pc db' pc') (key : String) :
    BracketStep db pc key (db.brackets.lookup key) (db'.brackets.lookup key) := by
  cases h with
  | sealed hscope htry hkey hexis =>
    refine Table.insert_rel (fun _ => .kept) ?_ key
    rw [hkey]
    exact .sealed rfl hscope htry rfl hexis
  | confirmed hrow hrun hscope hstate =>
    refine Table.insert_rel (fun _ => .kept) ?_ key
    rw [hrow]
    exact .confirmed rfl hscope hstate
  | cancelCompleted hrow hstate hkey hmem =>
    change BracketStep db _ key _ (AList.lookup key (cancelBrackets db _ _))
    rw [cancelBrackets, Table.lookup_mapRows]
    cases hlook : db.brackets.lookup key with
    | none => exact .kept _
    | some row =>
      rw [Option.map_some]
      split
      · rename_i hguard
        exact .cancelled rfl hguard.2.1 (Db.scopeOf_eq_some_iff.mp hrow).1 hstate hguard.2.2
      · exact .kept _
  | _ => exact .kept _

/-! ### Cancel members -/

/-- **What a move can do to one cancel-member row.** -/
inductive MemberStep (cfg : Config) (me : WorkerId) (db db' : Db) (pc : Pc) (key : MemberKey) :
    Option MemberRow → Option MemberRow → Prop
  | kept (old : Option MemberRow) : MemberStep cfg me db db' pc key old old
  | listed {request : CancelRequest} {k : String} {bracket : BracketRow} {tool : String}
      {scope scope' : ScopeRow} (hpc : pc.request? = some request)
      (hscope : db.scopes.lookup request.scopeId = some scope) (hopen : scope.state = .opened)
      (hlease : liveLease db request.runId request.scopeId = false)
      (hscope' : db'.scopes.lookup request.scopeId = some scope')
      (hcancelling : scope'.state = .cancelling) (hrun : scope'.runId = request.runId)
      (hundo : (k, bracket) ∈ undoable db request.runId request.scopeId)
      (htool : bracket.inverseTool = some tool)
      (hkey : key = ⟨request.runId, request.scopeId, bracket.tryVertexId⟩) :
      MemberStep cfg me db db' pc key none (some (memberRow (db.push request.runId request.event)
        request.runId (undoneVertices db request.runId request.scopeId) k bracket tool))
  | claimed {c : Cancellation} {row : MemberRow} {rest : List (MemberKey × MemberRow)}
      (hpc : pc = .claimMember c)
      (hclaim : claimableMembers db c.runId c.scopeId = (key, row) :: rest) :
      MemberStep cfg me db db' pc key (some row) (some (row.claim me (db.now + cfg.leaseMs)))
  | completed {c : Cancellation} {member : CancelMember} {row : MemberRow}
      (hpc : pc = .completeMember c member) (hkey : key = ⟨c.runId, c.scopeId, member.vertexId⟩)
      (hclaimed : row.claimedBy = some me) :
      MemberStep cfg me db db' pc key (some row) (some row.complete)

/-- The members a worker may claim. -/
theorem mem_claimableMembers {key : MemberKey} {row : MemberRow} :
    (key, row) ∈ claimableMembers db runId s ↔ db.members.lookup key = some row ∧
      key.runId = runId ∧ key.scopeId = s ∧ row.completed = false ∧
      leaseOver db.now row.leaseUntil = true := by
  simp only [claimableMembers, List.mem_insertionSort, Table.mem_rowsWhere, Bool.and_eq_true,
    beq_iff_eq, Bool.not_eq_true']
  tauto

/-- **Cancel members, row by row.** -/
theorem WorkerStep.member (h : WorkerStep cfg me db pc db' pc') (key : MemberKey) :
    MemberStep cfg me db db' pc key (db.members.lookup key) (db'.members.lookup key) := by
  cases h with
  | requested hpc hrow hstate hlease hres haut =>
    rename_i request row
    change MemberStep cfg me db _ _ key _ (AList.lookup key (Table.insertAll _ _))
    rw [Table.lookup_insertAll, Db.push_members]
    cases hold : db.members.lookup key with
    | some => exact .kept _
    | none =>
      rw [Option.none_or]
      cases hfind : (memberRows (db.push request.runId request.event) request.runId
          request.scopeId).find? fun row => decide (key = row.1) with
      | none => exact .kept _
      | some entry =>
        have hkey : key = entry.1 := by simpa using List.find?_some hfind
        have hmem : (key, entry.2) ∈ memberRows (db.push request.runId request.event)
            request.runId request.scopeId := hkey ▸ List.mem_of_find?_eq_some hfind
        obtain ⟨k, _, _, hundo, htool, hkey', hrow'⟩ := mem_memberRows.mp hmem
        rw [Option.map_some, hrow']
        refine .listed hpc (Db.scopeOf_eq_some_iff.mp hrow).1 hstate hlease
          ((Db.lookup_setScope _ _ _ _).trans (if_pos rfl)) rfl ?_ hundo htool hkey'
        exact (row.becomes_answer .requested).runId_eq.trans (Db.scopeOf_eq_some_iff.mp hrow).2
  | memberClaimed hclaim =>
    refine Table.insert_rel (fun _ => .kept) ?_ key
    rw [(mem_claimableMembers.mp (hclaim ▸ List.mem_cons_self)).1]
    exact .claimed rfl hclaim
  | memberCompleted hrow hclaimed =>
    refine Table.insert_rel (fun _ => .kept) ?_ key
    rw [hrow]
    exact .completed rfl rfl hclaimed
  | _ => exact .kept _

/-! ### Attempts -/

/-- The attempt the next transaction of a worker resolves, with its outcome. -/
def Pc.resolves : Pc → Option (ℕ × AttemptOutcome)
  | .resolve _ _ attemptId response => response.outcome.evidence.map (Prod.mk attemptId)
  | .occurred _ result => some (result.attemptId, .succeeded)
  | .absent _ result _ => some (result.attemptId, .confirmedAbsent)
  | _ => none

/-- **What a move can do to one attempt row.** -/
inductive AttemptStep (me : WorkerId) (db db' : Db) (pc : Pc) (id : ℕ) :
    Option AttemptRow → Option AttemptRow → Prop
  | kept (old : Option AttemptRow) : AttemptStep me db db' pc id old old
  | recorded {site : Site} {attempt : ℕ} (old : Option AttemptRow) (hpc : pc = .record site attempt)
      (hid : id = db.nextAttemptId)
      (hscope : ∀ s, site.call.scopeId = some s → ∃ row,
        db.scopes.lookup s = some row ∧ row.runId = site.call.runId ∧
        row.state ∈ site.call.operation.admissible)
      (hlease : holdsLease db me (site.call.start attempt) = true)
      (hnext : db'.nextAttemptId = db.nextAttemptId + 1) :
      AttemptStep me db db' pc id old (some ((site.call.start attempt).row me))
  | resolved {row : AttemptRow} {outcome : AttemptOutcome} (hpc : pc.resolves = some (id, outcome))
      (hopen : row.outcome = none) :
      AttemptStep me db db' pc id (some row) (some { row with outcome := some outcome })

/-- Resolving an attempt, row by row. -/
theorem attemptStep_resolve {id attemptId : ℕ} {outcome : AttemptOutcome}
    (hpc : pc.resolves = some (attemptId, outcome)) :
    AttemptStep me db db' pc id (db.attempts.lookup id)
      ((resolveAttempt db attemptId outcome).attempts.lookup id) := by
  rw [resolveAttempt, Table.lookup_mapRows]
  cases hrow : db.attempts.lookup id with
  | none => exact .kept _
  | some row =>
    rw [Option.map_some]
    split
    · rename_i hguard
      obtain ⟨rfl, hopen⟩ := hguard
      exact .resolved hpc hopen
    · exact .kept _

/-- **Attempts, row by row.** -/
theorem WorkerStep.attempt (h : WorkerStep cfg me db pc db' pc') (id : ℕ) :
    AttemptStep me db db' pc id (db.attempts.lookup id) (db'.attempts.lookup id) := by
  cases h with
  | recorded hscope hlease =>
    refine Table.insert_rel (fun _ => .kept) (.recorded _ rfl rfl (fun s hs => ?_) hlease rfl) id
    obtain ⟨row, hrow, hstate⟩ := hscope s hs
    obtain ⟨hlook, hrun⟩ := Db.scopeOf_eq_some_iff.mp hrow
    exact ⟨row, hlook, hrun, hstate⟩
  | resolved hout => exact attemptStep_resolve (by simp [Pc.resolves, hout])
  | occurred | absent => exact attemptStep_resolve rfl
  | _ => exact .kept _

theorem WorkerStep.nextAttemptId_le (h : WorkerStep cfg me db pc db' pc') :
    db.nextAttemptId ≤ db'.nextAttemptId := by
  cases h with
  | recorded => exact Nat.le_succ _
  | _ => exact Nat.le_refl _

/-! ### The queue -/

/-- **What a move can do to one queue row.** -/
inductive QueueStep (cfg : Config) (me : WorkerId) (db : Db) (pc : Pc) (v : VertexId) :
    Option QueueRow → Option QueueRow → Prop
  | kept (old : Option QueueRow) : QueueStep cfg me db pc v old old
  | claimed {row : QueueRow} (hpc : pc = .claim) (hready : ready db .coordinator row = true)
      (hadmissible : floryClaimAdmissible
        ((row.scopeId.bind (db.scopeOf row.runId)).map floryScopeClaimState) row.payload = true) :
      QueueStep cfg me db pc v (some row) (some (row.claim me (db.now + cfg.leaseMs)))
  | completed {item : WorkItem} {row : QueueRow} (hpc : pc = .complete item)
      (hv : item.vertexId = v) (hclaimed : row.claimedBy = some me) :
      QueueStep cfg me db pc v (some row) none
  | released {item : ScopedItem} {row : QueueRow} (hpc : pc = .release item)
      (hv : item.item.vertexId = v) (hclaimed : row.claimedBy = some me) :
      QueueStep cfg me db pc v (some row) (some (row.release (db.now + cfg.pollMs)))
  | dequeued {request : CancelRequest} {row : QueueRow} (hpc : pc.request? = some request)
      (hrun : row.runId = request.runId) (hscope : row.scopeId = some request.scopeId)
      (hlease : leaseLive db.now row.leaseUntil = false)
      (hexists : (db.scopes.lookup request.scopeId).isSome) :
      QueueStep cfg me db pc v (some row) none

/-- **The queue, row by row.** -/
theorem WorkerStep.queue (h : WorkerStep cfg me db pc db' pc') (v : VertexId) :
    QueueStep cfg me db pc v (db.queue.lookup v) (db'.queue.lookup v) := by
  cases h with
  | requested hpc hrow hstate hlease hres haut =>
    rename_i request scope
    change QueueStep cfg me db _ v _ (AList.lookup v (withoutPendingWork db _ _))
    rw [withoutPendingWork, Table.lookup_filterRows]
    cases hqueued : db.queue.lookup v with
    | none => exact .kept _
    | some row =>
      by_cases hgone : (row.runId == request.runId && row.scopeId == some request.scopeId &&
          !leaseLive db.now row.leaseUntil) = true
      · rw [Option.filter_some, hgone]
        simp only [Bool.and_eq_true, beq_iff_eq, Bool.not_eq_true'] at hgone
        exact .dequeued hpc hgone.1.1 hgone.1.2 hgone.2
          (Option.isSome_iff_exists.mpr ⟨scope, (Db.scopeOf_eq_some_iff.mp hrow).1⟩)
      · rw [Option.filter_some, Bool.eq_false_iff.mpr hgone]
        exact .kept _
  | claimed hrow hready hadm =>
    refine Table.insert_rel (fun _ => .kept) ?_ v
    rw [hrow]
    exact .claimed rfl hready hadm
  | completed hrow hclaim =>
    rename_i item row
    change QueueStep cfg me db _ v _ (AList.lookup v (AList.erase _ db.queue))
    by_cases hv : v = item.vertexId
    · subst hv
      rw [AList.lookup_erase, hrow]
      exact .completed rfl rfl hclaim
    · rw [AList.lookup_erase_ne hv]
      exact .kept _
  | released hrow hclaim =>
    refine Table.insert_rel (fun _ => .kept) ?_ v
    rw [hrow]
    exact .released rfl rfl hclaim
  | _ => exact .kept _

/-! ### The log -/

/-- Whether an event belongs to the pivot gate of a scope: an admission, a passed pivot, a
cancellation or a confirm. -/
def EventBody.isGate : EventBody → Bool
  | .vertexStarted .pivotPhase | .txnPivotPassed | .txnCancel _ | .txnConfirm _ => true
  | _ => false

/-- Whether an event of a worker is neither a success, nor a try, nor of the pivot gate. -/
def EventBody.isPlain : EventBody → Bool
  | .vertexStarted (.attempt _) | .vertexStarted .barrierPhase => true
  | .vertexRetried _ _ | .vertexFailed _ | .txnScope _ => true
  | _ => false

/-- **The events a move adds**, with the program point they come from. -/
inductive WorkerEvent (db db' : Db) (pc : Pc) (e : Event) : Prop
  | plain (hbody : e.body.isPlain = true)
  | barrier {item : WorkItem} (hpc : pc = .barrier item) (hbody : e.body.isSucceeded = true)
      (hv : e.vertexId = some item.vertexId)
  | sealed {item : WorkItem} {result : Execution} {deadline : Time} {s : ScopeId}
      (hpc : pc = .succeed item result deadline) (hbody : e.body.isSucceeded = true)
      (hv : e.vertexId = some item.vertexId) (hscope : item.scopeId = some s)
      (htry : item.tool.txn.mode.isTry = true)
      (hkey : db.brackets.lookup item.tool.txn.idempotencyKey = none)
      (hkey' : (db'.brackets.lookup item.tool.txn.idempotencyKey).isSome)
  | succeeded {item : WorkItem} {result : Execution} {deadline : Time}
      (hpc : pc = .succeed item result deadline) (hbody : e.body.isSucceeded = true)
      (hv : e.vertexId = some item.vertexId)
      (hplain : item.scopeId = none ∨ item.tool.txn.mode.isTry = false)
  | pivotSucceeded {item : ScopedItem} {result : Execution} {row' : ScopeRow}
      (hpc : pc = .pass item result) (hbody : e.body.isSucceeded = true)
      (hv : e.vertexId = some item.item.vertexId)
      (hrow' : db'.scopes.lookup item.scopeId = some row') (hstate' : row'.state = .pivotPassed)
  | tried {item : WorkItem} {result : Execution} {deadline : Time} {payload : TryPayload}
      (hpc : pc = .succeed item result deadline) (hbody : e.body = .txnTry payload)
  | admitted {item : ScopedItem} {row row' : ScopeRow} (hpc : pc = .admitPivot item)
      (hbody : e.body = .vertexStarted .pivotPhase) (hrun : e.runId = item.item.runId)
      (hv : e.vertexId = some item.item.vertexId) (hs : e.scopeId = some item.scopeId)
      (hrow : db.scopes.lookup item.scopeId = some row) (hstate : row.state = .opened)
      (hfence : row.fencedAt = none) (hrow' : db'.scopes.lookup item.scopeId = some row')
      (hstate' : row'.state = .pivotInflight)
      (hpivot' : row'.pivotVertexId = some item.item.vertexId)
  | passed {item : ScopedItem} {result : Execution} {row row' : ScopeRow}
      (hpc : pc = .pass item result)
      (hbody : e.body = .txnPivotPassed) (hrun : e.runId = item.item.runId)
      (hv : e.vertexId = some item.item.vertexId) (hs : e.scopeId = some item.scopeId)
      (hrow : db.scopes.lookup item.scopeId = some row) (hstate : row.state = .pivotInflight)
      (hpivot : row.pivotVertexId = some item.item.vertexId)
      (hrow' : db'.scopes.lookup item.scopeId = some row') (hstate' : row'.state = .pivotPassed)
  | confirmed {item : ScopedItem} {bracket : SealedBracket} {rest : List SealedBracket} {key : String}
      (hpc : pc = .confirmed item bracket rest) (hbody : e.body = .txnConfirm key)
      (hs : e.scopeId = some item.scopeId)
  | requested {request : CancelRequest} {row row' : ScopeRow} {payload : CancelPayload}
      (hpc : pc.request? = some request) (hbody : e.body = .txnCancel payload)
      (hphase : payload.phase = .requested) (hs : e.scopeId = some request.scopeId)
      (hrow : db.scopes.lookup request.scopeId = some row) (hstate : row.state = .opened)
      (hrow' : db'.scopes.lookup request.scopeId = some row') (hstate' : row'.state = .cancelling)
  | completed {c : Cancellation} {row row' : ScopeRow} {payload : CancelPayload}
      (hpc : pc = .completeCancel c) (hbody : e.body = .txnCancel payload)
      (hphase : payload.phase = .completed) (hs : e.scopeId = some c.scopeId)
      (hrow : db.scopes.lookup c.scopeId = some row) (hstate : row.state = .cancelling)
      (hrow' : db'.scopes.lookup c.scopeId = some row') (hstate' : row'.state = .cancelled)

/-- What a move adds to the log: events of known origin, none of them inherited, and at
most one success and one event of the pivot gate. -/
structure LogStep (db db' : Db) (pc : Pc) (new : List Event) : Prop where
  origin : ∀ e ∈ new, WorkerEvent db db' pc e
  own : ∀ e ∈ new, e.inherited = false ∧ e.ignorable = false
  once : new.Pairwise fun e e' => (e.body.isGate && e'.body.isGate) = false ∧
    (e.body.isSucceeded && e'.body.isSucceeded) = false

theorem LogStep.nil : LogStep db db' pc [] :=
  ⟨by simp, by simp, .nil⟩

theorem LogStep.one (horig : WorkerEvent db db' pc e) (hown : e.inherited = false)
    (hign : e.ignorable = false) : LogStep db db' pc [e] :=
  ⟨by simpa using horig, by simp [hown, hign], List.pairwise_singleton _ _⟩

/-- Two events. -/
theorem LogStep.two {e' : Event} (horig : WorkerEvent db db' pc e)
    (horig' : WorkerEvent db db' pc e') (hown : e.inherited = false ∧ e.ignorable = false)
    (hown' : e'.inherited = false ∧ e'.ignorable = false)
    (hgate : (e.body.isGate && e'.body.isGate) = false)
    (hsuc : (e.body.isSucceeded && e'.body.isSucceeded) = false) :
    LogStep db db' pc [e, e'] := by
  refine ⟨by simpa using ⟨horig, horig'⟩, by simpa using ⟨hown, hown'⟩, ?_⟩
  refine .cons (fun e'' he'' => ?_) (List.pairwise_singleton _ _)
  obtain rfl := List.mem_singleton.mp he''
  exact ⟨hgate, hsuc⟩

/-- **The log, event by event.** -/
theorem WorkerStep.log (h : WorkerStep cfg me db pc db' pc') :
    ∃ new, db'.log = db.log ++ new ∧ LogStep db db' pc new := by
  cases h with
  | suspended | opened | started
  | refused | retried | failedCall
  | failedAbsent | suspendedConfirm | committed
  | suspendedCancel => exact ⟨_, rfl, .one (.plain rfl) rfl rfl⟩
  | requested hpc hrow hstate =>
    exact ⟨_, rfl, .one (.requested hpc rfl rfl rfl (Db.scopeOf_eq_some_iff.mp hrow).1 hstate
      ((Db.lookup_setScope _ _ _ _).trans (if_pos rfl)) rfl) rfl rfl⟩
  | barrier =>
    exact ⟨[_, _], List.append_assoc _ _ _, .two (.plain rfl) (.barrier rfl rfl rfl) ⟨rfl, rfl⟩
      ⟨rfl, rfl⟩ rfl rfl⟩
  | refusedUnstarted | suspendedPivot =>
    exact ⟨[_, _], List.append_assoc _ _ _, .two (.plain rfl) (.plain rfl) ⟨rfl, rfl⟩ ⟨rfl, rfl⟩
      rfl rfl⟩
  | sealed hscope htry hkey =>
    refine ⟨[_, _], List.append_assoc _ _ _, .two (.tried rfl rfl)
      (.sealed rfl rfl rfl hscope htry hkey ?_) ⟨rfl, rfl⟩ ⟨rfl, rfl⟩ rfl rfl⟩
    change (AList.lookup _ (AList.insert _ _ db.brackets)).isSome
    rw [AList.lookup_insert]
    rfl
  | succeeded hplain => exact ⟨_, rfl, .one (.succeeded rfl rfl rfl hplain) rfl rfl⟩
  | admitted hrow hstate hfen =>
    exact ⟨_, rfl, .one (.admitted rfl rfl rfl rfl rfl (Db.scopeOf_eq_some_iff.mp hrow).1 hstate
      hfen ((Db.lookup_setScope _ _ _ _).trans (if_pos rfl)) rfl rfl) rfl rfl⟩
  | passed hrow hstate hpiv =>
    rename_i item result row
    exact ⟨[_, _], List.append_assoc _ _ _, .two (.passed rfl rfl rfl rfl item.inScope
      (Db.scopeOf_eq_some_iff.mp hrow).1 hstate hpiv
      ((Db.lookup_setScope _ _ _ _).trans (if_pos rfl)) rfl)
      (.pivotSucceeded rfl rfl rfl ((Db.lookup_setScope _ _ _ _).trans (if_pos rfl)) rfl)
      ⟨rfl, rfl⟩ ⟨rfl, rfl⟩ rfl rfl⟩
  | confirmed =>
    exact ⟨_, rfl, .one (.confirmed rfl rfl rfl) rfl rfl⟩
  | cancelCompleted hrow hstate =>
    exact ⟨_, rfl, .one (.completed rfl rfl rfl rfl (Db.scopeOf_eq_some_iff.mp hrow).1 hstate
      ((Db.lookup_setScope _ _ _ _).trans (if_pos rfl)) rfl) rfl rfl⟩
  | _ => exact ⟨[], (List.append_nil _).symm, .nil⟩

theorem WorkerEvent.not_created (h : WorkerEvent db db' pc e) : e.body.isCreated = false := by
  cases h <;> cases hbody : e.body <;>
    simp_all [EventBody.isCreated, EventBody.isPlain, EventBody.isSucceeded]

/-! ### The environment -/

/-- The events of a freeze: its own, and the creations. -/
theorem body_of_freezeDrafts {frozen : List FrozenVertex} {seq : ℕ} {draft : EventDraft}
    (h : draft ∈ freezeDrafts frozen seq) :
    draft.body = .subgraph (.frozen seq) ∨ ∃ payload, draft.body = .vertexCreated payload := by
  rcases List.mem_cons.mp h with rfl | hcreat
  · exact .inl rfl
  · obtain ⟨fv, -, rfl⟩ := List.mem_map.mp hcreat
    exact .inr ⟨_, rfl⟩

section

variable (h : EnvironmentStep db db')

include h

/-- The environment touches scopes without changing their state. -/
theorem EnvironmentStep.scope (s : ScopeId) : db.Touched db' s := by
  cases h with
  | freeze hfreez hchan => exact .inl (by rw [hchan.scopes])
  | engineAppend _ _ hchan =>
    refine (hchan.scopes s).imp_right ?_
    rintro ⟨row, seq, hrow, -, -, hrow'⟩
    exact ⟨row, _, hrow, hrow', row.becomes_request seq _⟩
  | _ => exact .inl rfl

/-- The environment leaves the state of every scope alone. -/
theorem EnvironmentStep.scope_state (s : ScopeId) :
    (db'.scopes.lookup s).map ScopeRow.state = (db.scopes.lookup s).map ScopeRow.state := by
  rcases h.scope s with hsame | ⟨row, row', hrow, hrow', hbec⟩
  · rw [hsame]
  · rw [hrow, hrow', Option.map_some, Option.map_some, hbec.state_eq]

theorem EnvironmentStep.brackets : db'.brackets = db.brackets := by
  cases h with
  | freeze hfreez hchan | engineAppend _ _ hchan => exact hchan.brackets
  | _ => rfl

theorem EnvironmentStep.members : db'.members = db.members := by
  cases h with
  | freeze hfreez hchan | engineAppend _ _ hchan => exact hchan.members
  | _ => rfl

theorem EnvironmentStep.attempts : db'.attempts = db.attempts := by
  cases h with
  | freeze hfreez hchan | engineAppend _ _ hchan => exact hchan.attempts
  | _ => rfl

theorem EnvironmentStep.nextAttemptId : db'.nextAttemptId = db.nextAttemptId := by
  cases h with
  | freeze hfreez hchan | engineAppend _ _ hchan => exact hchan.nextAttemptId
  | _ => rfl

/-- The events of the environment: those of a freeze, and the Engine's own. -/
theorem EnvironmentStep.log :
    ∃ new, db'.log = db.log ++ new ∧ ∀ e ∈ new, e.inherited = false ∧
      (EngineEvent db e ∨ (∃ seq, e.body = .subgraph (.frozen seq)) ∨
        ∃ fv : FrozenVertex, e.toEventDraft = fv.draft) := by
  cases h with
  | freeze hfreez hchan =>
    obtain ⟨new, hlog, hmap, hnew⟩ := hchan.log
    refine ⟨new, hlog, fun e he => ⟨(hnew e he).2, .inr ?_⟩⟩
    have hmem : e.toEventDraft ∈ freezeDrafts _ _ := hmap ▸ List.mem_map_of_mem he
    rcases List.mem_cons.mp hmem with hfroz | hcreat
    · exact .inl ⟨_, congrArg EventDraft.body hfroz⟩
    · obtain ⟨fv, -, hfv⟩ := List.mem_map.mp hcreat
      exact .inr ⟨fv, hfv.symm⟩
  | engineAppend _ _ hchan =>
    obtain ⟨new, hlog, hnew⟩ := hchan.log
    exact ⟨new, hlog, fun e he => ⟨(hnew e he).notInherited, .inl (hnew e he)⟩⟩
  | _ => exact ⟨[], (List.append_nil _).symm, by simp⟩

end

end Flory
