import Flory.Causality
import Flory.Undo

/-!
# The Order of Inverses

A cancellation gives each member the length of the longest causal path to it among the
members, and claims hand out the deepest member that is not leased. That is reverse causal
order under two conditions. The depth counts paths through members only, so the members
have to be convex in the causal order; and a claim passes over a leased member, so a second
worker must not claim while a deeper member is leased.

## Main results

* `listed_of_reachable`: the depths of the members respect the causal order, in the runs
  whose cancellations are decided on convex members.
* `inverses_in_reverse_order`: under the conditions, a member is claimed only when every
  member behind it in the causal order is completed.
* `inverse_before_its_dependent`: without them, it is not so.
-/

namespace Flory

variable {runId : RunId} {s : ScopeId} {key : MemberKey}

/-! ### The conditions -/

/-- The members a cancellation lists are convex in the causal order: every vertex on a causal
path between two of them is one of them. -/
def decidesConvex (world : World) (a : Action) : Prop :=
  ∀ w request, a = .advance w → (world.workers w).request? = some request →
    liveLease world.db request.runId request.scopeId = false →
    Dag.Convex (parentEdge world.db request.runId)
      (undoneVertices world.db request.runId request.scopeId)

/-- Whether a claim of a cancel member passes over no leased member that is deeper. -/
def claimsDeepest (world : World) : Action → Bool
  | .advance w =>
    match world.workers w with
    | .claimMember c =>
      match claimableMembers world.db c.runId c.scopeId with
      | (_, row) :: _ => !world.db.members.anyRow fun key member => key.runId == c.runId &&
          key.scopeId == c.scopeId && !member.completed &&
          !leaseOver world.db.now member.leaseUntil &&
          decide (row.dependencyDepth < member.dependencyDepth)
      | [] => true
    | _ => true
  | _ => true

/-- The conditions under which inverses run in reverse causal order: no try is sealed behind
the cancellation of its scope, the members of a cancellation are convex, and no claim passes
over a leased deeper member. -/
structure OrdersInverses (world : World) (a : Action) : Prop where
  tries : triesSealed world a = true
  convex : decidesConvex world a
  deepest : claimsDeepest world a = true

/-! ### What a step does to the members -/

/-- A member that was claimed at some time. -/
def MemberRow.isTouched (row : MemberRow) : Bool :=
  row.claimedBy.isSome || row.completed

/-- Deeper members come first, and members of one depth in the order of their vertices. -/
theorem memberOrder_iff {a b : MemberKey × MemberRow} : memberOrder a b = true ↔
    b.2.dependencyDepth < a.2.dependencyDepth ∨
      (a.2.dependencyDepth = b.2.dependencyDepth ∧ a.1.vertexId ≤ b.1.vertexId) := by
  simp [memberOrder]

instance : Std.Total (α := MemberKey × MemberRow) fun a b => memberOrder a b = true where
  total a b := by
    simp only [memberOrder_iff]
    rcases Nat.lt_trichotomy a.2.dependencyDepth b.2.dependencyDepth with hlt | heq | hlt
    · exact .inr (.inl hlt)
    · exact (Nat.le_total a.1.vertexId b.1.vertexId).imp (fun h => .inr ⟨heq, h⟩)
        fun h => .inr ⟨heq.symm, h⟩
    · exact .inl (.inl hlt)

instance : IsTrans (MemberKey × MemberRow) fun a b => memberOrder a b = true where
  trans a b c hab hbc := by
    simp only [memberOrder_iff] at hab hbc ⊢
    rcases hab with hab | ⟨hab, hab'⟩ <;> rcases hbc with hbc | ⟨hbc, hbc'⟩
    · exact .inl (Nat.lt_trans hbc hab)
    · exact .inl (hbc ▸ hab)
    · exact .inl (hab ▸ hbc)
    · exact .inr ⟨hab.trans hbc, Nat.le_trans hab' hbc'⟩

variable {row row' : MemberRow}

/-- The claimed member is the deepest of those that may be claimed. -/
theorem depth_le_of_claim {db : Db} {rest : List (MemberKey × MemberRow)}
    (h : claimableMembers db runId s = (key, row) :: rest) {key' : MemberKey}
    (hmem : (key', row') ∈ claimableMembers db runId s) :
    row'.dependencyDepth ≤ row.dependencyDepth := by
  have hsor : (claimableMembers db runId s).Pairwise fun a b => memberOrder a b = true :=
    List.pairwise_insertionSort _ _
  rw [h] at hsor hmem
  rcases List.mem_cons.mp hmem with heq | hmem
  · rw [(Prod.mk.inj heq).2]
  have := memberOrder_iff.mp ((List.pairwise_cons.mp hsor).1 _ hmem)
  dsimp only at this
  omega

/-- Storing an event that creates nothing keeps the parent edges. -/
theorem parentEdge_push {db : Db} {draft : EventDraft} (h : draft.body.isCreated = false)
    (r : RunId) : parentEdge (db.push runId draft) r = parentEdge db r := by
  have hver : (db.push runId draft).vertices = db.vertices :=
    vertices_append rfl (by simpa using h)
  funext p c
  rw [Bool.eq_iff_iff, parentEdge_iff, parentEdge_iff, hver]

/-- What a claim by a worker says of the member it hands out. -/
def World.Claims (world : World) (w : WorkerId) (key : MemberKey) (row : MemberRow) : Prop :=
  ∃ c rest, world.workers w = .claimMember c ∧
    claimableMembers world.db c.runId c.scopeId = (key, row) :: rest

/-- What a decision by a worker says of a member it lists. -/
structure World.Lists (world : World) (w : WorkerId) (key : MemberKey) (row : MemberRow) : Prop where
  decided : ∃ request, (world.workers w).request? = some request ∧ request.runId = key.runId ∧
    request.scopeId = key.scopeId
  opened : ∃ scope, world.db.scopes.lookup key.scopeId = some scope ∧ scope.state = .opened
  unleased : liveLease world.db key.runId key.scopeId = false
  bracket : ∃ k bracket, (k, bracket) ∈ undoable world.db key.runId key.scopeId ∧
    bracket.tryVertexId = key.vertexId
  depth : row.dependencyDepth = Dag.depth (parentEdge world.db key.runId)
    (undoneVertices world.db key.runId key.scopeId) key.vertexId
  untouched : row.isTouched = false

section Step

variable {cfg : Config} {world world' : World} {a : Action} {w : WorkerId}

/-- A member after a step: it was there before, at the same depth, and was claimed before
unless the worker's transaction claims it now; or that transaction lists it. -/
theorem Changes.member_cases (hchan : Changes cfg world a world' w)
    (hrow' : world'.db.members.lookup key = some row') :
    (∃ row, world.db.members.lookup key = some row ∧ row'.dependencyDepth = row.dependencyDepth ∧
      (row'.isTouched = true → row.isTouched = true ∨ (a = .advance w ∧ world.Claims w key row))) ∨
    (world.db.members.lookup key = none ∧ a = .advance w ∧ world.Lists w key row') := by
  rcases hchan.action with hadv | ⟨-, hmem, -⟩
  · have hstep := hchan.member key
    rw [hrow'] at hstep
    generalize hold : world.db.members.lookup key = old at hstep
    cases hstep with
    | kept => exact .inl ⟨row', rfl, rfl, .inl⟩
    | listed hpc hscope hopen hlease hscope' hcan hrun hundo htool hkey =>
      rename_i request k bracket tool scope scope'
      subst hkey
      refine .inr ⟨rfl, hadv, ⟨request, hpc, rfl, rfl⟩, ⟨scope, hscope, hopen⟩, hlease,
        ⟨k, bracket, hundo, rfl⟩, ?_, rfl⟩
      change Dag.depth (parentEdge (world.db.push _ _) _) _ _ = _
      rw [parentEdge_push rfl]
    | claimed hpc hclaim => exact .inl ⟨_, rfl, rfl, fun _ => .inr ⟨hadv, _, _, hpc, hclaim⟩⟩
    | completed hpc hkey hclaimed =>
      exact .inl ⟨_, rfl, rfl, fun _ => .inl (by simp [MemberRow.isTouched, hclaimed])⟩
  · rw [hmem] at hrow'
    exact .inl ⟨row', hrow', rfl, .inl⟩

/-- Members of a scope that has members are not listed again. -/
theorem not_lists_of_member (h : Reachable cfg world) {key' : MemberKey}
    (hrow : world.db.members.lookup key = some row) (hs : key.scopeId = key'.scopeId) :
    ¬ world.Lists w key' row' := by
  intro hlis
  obtain ⟨_, hscope, -, hside⟩ := (membered_of_reachable h).scope key row hrow
  obtain ⟨_, hscope', hopen⟩ := hlis.opened
  rw [← hs, hscope] at hscope'
  obtain rfl := Option.some.inj hscope'
  rw [hopen] at hside
  cases hside

/-- The vertex of a listed member is one of those the cancellation undoes, and created. -/
theorem World.Lists.vertex (h : Reachable cfg world) (hlis : world.Lists w key row) :
    key.vertexId ∈ undoneVertices world.db key.runId key.scopeId ∧
      ∃ v ∈ world.db.vertices, v.vertexId = key.vertexId ∧ v.runId = key.runId := by
  obtain ⟨k, bracket, hundo, hv⟩ := hlis.bracket
  obtain ⟨v, hmem, hof⟩ := (bracketed_of_reachable h).owner k bracket (mem_undoable.mp hundo).1
  exact ⟨List.mem_map.mpr ⟨_, hundo, hv⟩, v, hmem, hof.vertex.symm.trans hv,
    hof.run.symm.trans (mem_undoable.mp hundo).2.1⟩

end Step

/-! ### Depths and claims respect the causal order -/

/-- **Members and the causal order.** A member is a created vertex; behind it in the causal
order of its scope the members are deeper, and completed by the time it is claimed. -/
structure Listed (world : World) : Prop where
  vertex : ∀ key row, world.db.members.lookup key = some row →
    ∃ v ∈ world.db.vertices, v.vertexId = key.vertexId ∧ v.runId = key.runId
  depth : ∀ runId s u v rowu rowv, world.db.members.lookup ⟨runId, s, u⟩ = some rowu →
    world.db.members.lookup ⟨runId, s, v⟩ = some rowv → world.db.Before runId u v →
    rowu.dependencyDepth < rowv.dependencyDepth
  order : ∀ runId s u v rowu rowv, world.db.members.lookup ⟨runId, s, u⟩ = some rowu →
    world.db.members.lookup ⟨runId, s, v⟩ = some rowv → world.db.Before runId u v →
    rowu.isTouched = true → rowv.completed = true

section Step

variable {cfg : Config} {world world' : World} {a : Action} {w : WorkerId} {u v : VertexId}

/-- The depths of members that are listed now. -/
theorem World.Lists.depth_lt (h : Reachable cfg world)
    (hcon : decidesConvex world (.advance w)) {rowu rowv : MemberRow}
    (hu : world.Lists w ⟨runId, s, u⟩ rowu) (hv : world.Lists w ⟨runId, s, v⟩ rowv)
    (hbef : world.db.Before runId u v) : rowu.dependencyDepth < rowv.dependencyDepth := by
  obtain ⟨request, hpc, rfl, rfl⟩ := hu.decided
  rw [hu.depth, hv.depth]
  exact Dag.depth_lt_of_below
    (fun x _ y _ hedge => rank_lt_of_edge (causal_of_reachable h) (frozen_of_reachable h) hedge)
    (hcon w request rfl hpc hu.unleased) (hu.vertex h).1 (hv.vertex h).1 hbef

/-- A claim finds every deeper member completed. -/
theorem World.Claims.completed (hdeep : claimsDeepest world (.advance w) = true)
    {rowu rowv : MemberRow} (hclaims : world.Claims w ⟨runId, s, u⟩ rowu)
    (hv : world.db.members.lookup ⟨runId, s, v⟩ = some rowv)
    (hdep : rowu.dependencyDepth < rowv.dependencyDepth) : rowv.completed = true := by
  obtain ⟨c, _, hpc, hclaim⟩ := hclaims
  have hhead : (⟨runId, s, u⟩, rowu) ∈ claimableMembers world.db c.runId c.scopeId := by
    rw [hclaim]
    exact List.mem_cons_self
  obtain ⟨-, hrun, hs, -, -⟩ := mem_claimableMembers.mp hhead
  dsimp only at hrun hs
  subst hrun hs
  by_contra hopen
  -- it is not claimable, since it is deeper, and not leased, by the condition
  have hnot : ¬ leaseOver world.db.now rowv.leaseUntil = true := by
    intro hover
    have := depth_le_of_claim hclaim
      (mem_claimableMembers.mpr ⟨hv, rfl, rfl, by simpa using hopen, hover⟩)
    omega
  simp only [claimsDeepest, hpc, hclaim, Bool.not_eq_true'] at hdeep
  have := Table.anyRow_eq_false_iff.mp hdeep _ rowv hv
  simp_all

/-- **Members and the causal order** are kept by every step that meets the conditions. -/
theorem Listed.step (hlisted : Listed world) (h : Reachable cfg world)
    (hstep : step cfg world a = some world') (hcon : decidesConvex world a)
    (hdeep : claimsDeepest world a = true) (hchan : Changes cfg world a world' w) :
    Listed world' := by
  have hver : ∀ key row', world'.db.members.lookup key = some row' →
      ∃ v ∈ world.db.vertices, v.vertexId = key.vertexId ∧ v.runId = key.runId := by
    intro key row' hrow'
    rcases hchan.member_cases hrow' with ⟨row, hrow, -⟩ | ⟨-, -, hlists⟩
    · exact hlisted.vertex key row hrow
    · exact (hlists.vertex h).2
  -- the ancestors of a created vertex are fixed
  have hbef : ∀ {runId s u v rowv}, world'.db.members.lookup ⟨runId, s, v⟩ = some rowv →
      world'.db.Before runId u v → world.db.Before runId u v := by
    intro runId s u v rowv hrow hbef
    obtain ⟨cv, hcv, hid, hrun⟩ := hver _ _ hrow
    dsimp only at hid hrun
    subst hid hrun
    exact before_step h hstep hcv hbef
  refine ⟨fun key row' hrow' => ?_, fun runId s u v rowu' rowv' hu' hv' hb => ?_,
    fun runId s u v rowu' rowv' hu' hv' hb htouc => ?_⟩
  · obtain ⟨cv, hcv, hid⟩ := hver key row' hrow'
    exact ⟨cv, vertices_mono hstep hcv, hid⟩
  · have hb := hbef hv' hb
    rcases hchan.member_cases hu' with ⟨rowu, hu, hdep, -⟩ | ⟨-, hadv, hlis⟩ <;>
      rcases hchan.member_cases hv' with ⟨rowv, hv, hdept, -⟩ | ⟨-, -, hlist⟩
    · rw [hdep, hdept]
      exact hlisted.depth runId s u v rowu rowv hu hv hb
    · exact absurd hlist (not_lists_of_member h hu rfl)
    · exact absurd hlis (not_lists_of_member h hv rfl)
    · subst hadv
      exact hlis.depth_lt h hcon hlist hb
  · have hb := hbef hv' hb
    rcases hchan.member_cases hu' with ⟨rowu, hu, -, htouch⟩ | ⟨-, -, hlis⟩
    · rcases hchan.member_cases hv' with ⟨rowv, hv, -, -⟩ | ⟨-, -, hlist⟩
      · have hcom : rowv.completed = true := by
          rcases htouch htouc with hold | ⟨rfl, hclaim⟩
          · exact hlisted.order runId s u v rowu rowv hu hv hb hold
          · exact hclaim.completed hdeep hv (hlisted.depth runId s u v rowu rowv hu hv hb)
        obtain ⟨row, hrow, hkept⟩ := hchan.member_some hv
        obtain rfl := Option.mem_unique hrow hv'
        exact hkept hcom
      · exact absurd hlist (not_lists_of_member h hu rfl)
    · rw [hlis.untouched] at htouc
      cases htouc

end Step

variable {world : World}

/-- **Members and the causal order, in every world that is reached under the conditions.** -/
theorem listed_of_reachable {cfg : Config} (h : ReachableUnder cfg OrdersInverses world) :
    Listed world := by
  refine invariant_of_changes h (by constructor <;> simp [World.initial]) ?_
  intro mid mid' a w hmid _ hall hstep hchan hlis
  exact hlis.step hmid hstep hall.convex hall.deepest hchan

/-! ### Inverses in reverse causal order -/

/-- **Inverses in reverse causal order.** In every run whose steps all meet `OrdersInverses`:
when a member of a scope was ever claimed, every member of the scope behind it in the causal
order of the run is completed; and in a scope that is cancelling or cancelled, every bracket
behind it has such a member. -/
theorem inverses_in_reverse_order {cfg : Config} {world : World}
    (h : ReachableUnder cfg OrdersInverses world) {runId : RunId} {s : ScopeId}
    {rowu : MemberRow} (hu : world.db.members.lookup ⟨runId, s, u⟩ = some rowu)
    (htouched : rowu.isTouched = true) (hbefore : world.db.Before runId u v) :
    (∀ rowv, world.db.members.lookup ⟨runId, s, v⟩ = some rowv → rowv.completed = true) ∧
    ∀ scope key bracket, world.db.scopes.lookup s = some scope →
      scope.state = .cancelling ∨ scope.state = .cancelled →
      world.db.brackets.lookup key = some bracket → bracket.scopeId = s →
      bracket.tryVertexId = v →
      ∃ rowv, world.db.members.lookup ⟨runId, s, v⟩ = some rowv ∧ rowv.completed = true := by
  have hlis := listed_of_reachable h
  have horder : ∀ rowv, world.db.members.lookup ⟨runId, s, v⟩ = some rowv → rowv.completed = true :=
    fun rowv hv => hlis.order runId s u v rowu rowv hu hv hbefore htouched
  refine ⟨horder, fun scope key bracket hscope hstate hbrac hs hv => ?_⟩
  have hund : Undone world := undone_of_reachable (h.mono fun _ _ hall => hall.tries)
  obtain ⟨_, hscope', hrun, -⟩ := (membered_of_reachable h.any).scope _ rowu hu
  obtain rfl := Option.mem_unique hscope hscope'
  obtain ⟨rowv, hrowv⟩ := Option.isSome_iff_exists.mp
    (hund.member s scope hscope hstate key bracket hbrac hs)
  rw [hrun, hv] at hrowv
  exact ⟨rowv, hrowv, horder rowv hrowv⟩

/-- Whether a cancellation that is decided now undoes every vertex of its run. -/
def undoesRun (world : World) : Action → Bool
  | .advance w =>
    match (world.workers w).request? with
    | some request => world.db.vertices.all fun v => v.runId != request.runId ||
        (undoneVertices world.db request.runId request.scopeId).contains v.vertexId
    | none => true
  | _ => true

/-- When every vertex of the run is undone, the members are convex. -/
theorem decidesConvex_of_undoesRun {a : Action} (h : undoesRun world a = true) :
    decidesConvex world a := by
  rintro w _ rfl hpc - u - v - x hx -
  obtain ⟨p, -, hedge⟩ := Relation.TransGen.tail'_iff.mp hx
  obtain ⟨c, hc, hid, hrun, -⟩ := parentEdge_iff.mp hedge
  simp only [undoesRun, hpc, List.all_eq_true] at h
  simpa [hrun, hid] using h c hc

/-- The conditions as a test, for runs whose cancellations undo every vertex of the run. -/
def ordersInverses (world : World) (a : Action) : Bool :=
  triesSealed world a && undoesRun world a && claimsDeepest world a

theorem ordersInverses_sound {a : Action} (h : ordersInverses world a = true) :
    OrdersInverses world a := by
  simp only [ordersInverses, Bool.and_eq_true] at h
  exact ⟨h.1.1, decidesConvex_of_undoesRun h.1.2, h.2⟩

/-- A worker calls the next vertex, and the call succeeds. -/
def succeedNext (w : WorkerId) : List Action :=
  callNext w ++ [reply w .succeeded] ++ drive w 3

/-- Two tries, one behind the other, and the decision of worker 1 to cancel them. -/
def cancelledChain : List Action :=
  [.createRun 1, .freeze 1 [tccVertex 10 [] 5 "a", tccVertex 11 [10] 5 "b"]] ++ succeedNext 1 ++
    succeedNext 1 ++ [requestCancel 1 5, .poll 1] ++ drive 1 1

/-- One worker runs both inverses: the last one first. -/
def undoneChain : List Action :=
  cancelledChain ++ drive 1 2 ++ [reply 1 .succeeded] ++ drive 1 3

/-- The order of inverses in a run that meets the conditions. -/
theorem inverses_in_reverse_order_undoneChain :
    ∃ rowv, (World.afterUnder {} ordersInverses undoneChain).db.members.lookup ⟨1, 5, 11⟩ =
      some rowv ∧ rowv.completed = true := by
  have hu : ((World.afterUnder {} ordersInverses undoneChain).db.members.lookup ⟨1, 5, 10⟩).map
      MemberRow.isTouched = some true := by decide +kernel
  have hv : ((World.afterUnder {} ordersInverses undoneChain).db.members.lookup
      ⟨1, 5, 11⟩).isSome = true := by decide +kernel
  have hedge : parentEdge (World.afterUnder {} ordersInverses undoneChain).db 1 10 11 = true := by
    decide +kernel
  obtain ⟨_, hrowu, htouc⟩ := Option.map_eq_some_iff.mp hu
  obtain ⟨rowv, hrowv⟩ := Option.isSome_iff_exists.mp hv
  exact ⟨rowv, hrowv, (inverses_in_reverse_order
    ((reachable_afterUnder (by decide +kernel)).mono fun _ _ => ordersInverses_sound)
    hrowu htouc (.single hedge)).1 rowv hrowv⟩

/-- Two workers run the cancellation: worker 2 finds it before worker 1 claims the last try,
and claims the first one while worker 1 is undoing the last. -/
def crossedInverses : List Action :=
  cancelledChain ++ [.sweep 2 []] ++ drive 2 2 ++ drive 1 1 ++ drive 2 1

/-- A try is behind another by way of a vertex that is no member, and one worker runs the
cancellation. -/
def gappedInverses : List Action :=
  [.createRun 1, .freeze 1 [tccVertex 10 [] 5 "a", plainVertex 12 [10] 5,
    tccVertex 11 [12] 5 "b"]] ++ succeedNext 1 ++ .poll 1 :: drive 1 5 ++ [reply 1 .succeeded] ++
    drive 1 3 ++ succeedNext 1 ++ [requestCancel 1 5, .poll 1] ++ drive 1 2

/-- **An inverse runs before the inverse of its dependent**: with two workers, and with one
worker across a vertex that is no member. Both tries are sealed, and the first one is claimed
while the one behind it is not completed. -/
theorem inverse_before_its_dependent :
    (∃ world, Reachable {} world ∧ world.db.Before 1 10 11 ∧
      (world.db.brackets.lookup "a").map BracketRow.state = some .sealed ∧
      (world.db.brackets.lookup "b").map BracketRow.state = some .sealed ∧
      (world.db.members.lookup ⟨1, 5, 10⟩).map MemberRow.claimedBy = some (some 2) ∧
      (world.db.members.lookup ⟨1, 5, 11⟩).map MemberRow.completed = some false) ∧
    ∃ world, Reachable {} world ∧ world.db.Before 1 10 11 ∧
      (world.db.brackets.lookup "a").map BracketRow.state = some .sealed ∧
      (world.db.brackets.lookup "b").map BracketRow.state = some .sealed ∧
      (world.db.members.lookup ⟨1, 5, 10⟩).map MemberRow.claimedBy = some (some 1) ∧
      (world.db.members.lookup ⟨1, 5, 11⟩).map MemberRow.isTouched = some false := by
  refine ⟨⟨World.after {} crossedInverses, reachable_after (by decide +kernel), .single ?_,
    by decide +kernel, by decide +kernel, by decide +kernel, by decide +kernel⟩,
    World.after {} gappedInverses, reachable_after (by decide +kernel),
    .tail (b := 12) (.single ?_) ?_, by decide +kernel, by decide +kernel, by decide +kernel,
    by decide +kernel⟩
  · decide +kernel
  · decide +kernel
  · decide +kernel

end Flory
