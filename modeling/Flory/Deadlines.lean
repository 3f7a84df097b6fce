import Flory.Requests

/-!
# Reservations and the Pivot

A sealed try holds its reservation until its deadline. `admit_pivot` looks at the sealed
brackets of the scope, its state and its fence, and not at the clock: what keeps a pivot from
running on an expired reservation is the orphan sweep alone, which has to come first.

## Main results

* `pivot_admitted_in_time`: as long as no clock step passes the deadline of a sealed try of
  an open, unfenced scope, a pivot is only admitted while all its reservations stand, and
  never in a scope whose cancellation was requested or started.
* `pivot_admitted_late`: without that condition a pivot is admitted on expired reservations.
-/

namespace Flory

variable {cfg : Config} {db : Db} {world world' : World}

/-! ### The clock -/

theorem WorkerStep.now {me : WorkerId} {db' : Db} {pc pc' : Pc}
    (h : WorkerStep cfg me db pc db' pc') : db'.now = db.now := by
  cases h <;> rfl

/-- Only `tick` moves the clock. -/
theorem now_step {a : Action} (h : step cfg world a = some world') :
    (∃ ms, a = .tick ms) ∨ world'.db.now = world.db.now := by
  rcases step_actions h with ⟨w, hmove⟩ | ⟨-, -, -, hnow⟩
  · exact .inr hmove.step.now
  · exact hnow

/-! ### Reservations of admitting scopes -/

/-- Whether a scope may still admit its pivot. -/
def ScopeRow.admits (row : ScopeRow) : Bool :=
  row.state == .opened && row.fencedAt.isNone

/-- Whether the sealed tries of scopes that may still admit their pivot all stand at a
time. -/
def reservationsStand (db : Db) (time : Time) : Bool :=
  !db.brackets.anyRow fun _ bracket => bracket.state == .sealed &&
    decide (bracket.deadlineAt < time) && (db.scopes.lookup bracket.scopeId).any ScopeRow.admits

/-- Whether a step comes in time: the clock does not pass the deadline of a sealed try while
its scope may still admit its pivot, and the success of a try is recorded before its
deadline. -/
def timely (world : World) : Action → Bool
  | .tick ms => reservationsStand world.db (world.db.now + ms)
  | .advance w =>
    match world.workers w with
    | .succeed item _ deadline =>
      !item.tool.txn.mode.isTry || decide (world.db.now ≤ deadline)
    | _ => true
  | _ => true

/-- The reservations that stand, one by one. -/
theorem reservationsStand_iff {time : Time} : reservationsStand db time = true ↔
    ∀ key bracket scope, db.brackets.lookup key = some bracket → bracket.state = .sealed →
      db.scopes.lookup bracket.scopeId = some scope → scope.admits = true →
      time ≤ bracket.deadlineAt := by
  rw [reservationsStand, Bool.not_eq_true', Table.anyRow_eq_false_iff]
  constructor
  · intro h key bracket scope hbrac hseal hscope hadm
    have hlive := h key bracket hbrac
    simp only [hseal, hscope, Option.any_some, hadm, beq_self_eq_true, Bool.true_and,
      Bool.and_true, decide_eq_false_iff_not] at hlive
    exact Nat.not_lt.mp hlive
  · intro h key bracket hbrac
    cases hscope : db.scopes.lookup bracket.scopeId with
    | none => simp
    | some scope =>
      by_contra hexp
      simp only [Option.any_some, Bool.and_eq_false_iff, not_or, Bool.not_eq_false, beq_iff_eq,
        decide_eq_true_eq] at hexp
      exact Nat.not_lt.mpr (h key bracket scope hbrac hexp.1.1 hscope hexp.2) hexp.1.2

/-- A scope that may admit its pivot could do so before, or is new. -/
theorem ScopeChange.admits {w : WorkerId} {s : ScopeId} {row' : ScopeRow}
    (hchan : ScopeChange world world' w s) (hrow' : world'.db.scopes.lookup s = some row')
    (hadm : row'.admits = true) :
    world.db.scopes.lookup s = none ∨
      ∃ row, world.db.scopes.lookup s = some row ∧ row.admits = true := by
  simp only [ScopeRow.admits, Bool.and_eq_true, beq_iff_eq, Option.isNone_iff_eq_none] at hadm ⊢
  cases hchan with
  | absent hnone | opened _ _ hnone => exact .inl hnone
  | changed hrow hrow₂ hrowC =>
    rename_i row row₂
    obtain rfl := Option.mem_unique hrow₂ hrow'
    refine .inr ⟨row, hrow, ?_⟩
    have hfen : row.fencedAt = none := by
      by_contra hsome
      have := hrowC.fence (Option.isSome_iff_ne_none.mpr hsome)
      simp [hadm.2] at this
    cases hrowC.move with
    | kept hstate => exact ⟨hstate ▸ hadm.1, hfen⟩
    | reopened _ _ _ _ hfen' => simp [hadm.2] at hfen'
    | _ => simp_all

/-- **Reservations stand** after a step that comes in time. -/
theorem reservationsStand_step {a : Action} (hreach : Reachable cfg world)
    (hstep : step cfg world a = some world')
    (hstand : reservationsStand world.db world.db.now = true) (htim : timely world a = true) :
    reservationsStand world'.db world'.db.now = true := by
  rcases now_step hstep with ⟨ms, rfl⟩ | hnow
  · cases hstep
    exact htim
  rw [reservationsStand_iff] at hstand ⊢
  intro key bracket scope' hbrac' hseal hscope' hadm
  rw [hnow]
  obtain ⟨w, hchan⟩ := changes_of_step hreach hstep
  have hbrack := bracketed_of_reachable hreach
  have hcase := hchan.bracket key
  rw [hbrac'] at hcase
  generalize hold : world.db.brackets.lookup key = old at hcase
  cases hcase with
  | kept =>
    have hexis := hbrack.scope key bracket hold
    rcases (hchan.scope bracket.scopeId).admits hscope' hadm with hnone | ⟨scope, hscope, hopen⟩
    · simp [hnone] at hexis
    · exact hstand key bracket scope hold hseal hscope hopen
  | sealed hpc hs htry =>
    rcases hchan.action with rfl | ⟨hsame, -⟩
    · simp only [timely, hpc, htry, Bool.not_true, Bool.false_or, decide_eq_true_eq] at htim
      exact htim
    · rw [hsame, hold] at hbrac'
      cases hbrac'
  | confirmed | cancelled => cases hseal

/-- Reservations stand in every world that is reached in time. -/
theorem reservationsStand_of_timely
    (h : ReachableUnder cfg (fun world a => timely world a = true) world) :
    reservationsStand world.db world.db.now = true := by
  refine h.invariant_of (I := fun world => reservationsStand world.db world.db.now = true)
    (fun _ hreach => hreach.any) rfl ?_
  intro mid mid' a hmid _ hstand htim hstep
  exact reservationsStand_step hmid hstep hstand htim

/-! ### Admission in time -/

/-- **A pivot is admitted in time.** In a run whose steps all come in time, when `admit_pivot`
returns true for a scope, every try the scope requires has a sealed bracket whose deadline
has not passed, the Engine has not requested the scope's cancellation, and no cancellation of
it has started. -/
theorem pivot_admitted_in_time {cfg : Config} {world : World}
    (h : ReachableUnder cfg (fun world a => timely world a = true) world) {runId : RunId}
    {s : ScopeId} {v : VertexId} {db' : Db}
    (hgranted : admitPivot world.db runId s v = .ok (true, db')) :
    (∀ t ∈ requiredTries world.db runId s, ∃ key bracket,
      world.db.brackets.lookup key = some bracket ∧ bracket.tryVertexId = t ∧
      bracket.scopeId = s ∧ bracket.state = .sealed ∧ world.db.now ≤ bracket.deadlineAt) ∧
    (∀ e ∈ world.db.log, ¬ e.Requests s) ∧
    (∀ e ∈ world.db.log, e.scopeId = some s → e.body.isCancel = false) := by
  have hreach : Reachable cfg world := h.any
  rcases admitPivot_ok hgranted with ⟨hfalse, -⟩ | ⟨-, row, hrow, hopen, hfence, hseal, -⟩
  · cases hfalse
  obtain ⟨hlook, hrun⟩ := Db.scopeOf_eq_some_iff.mp hrow
  refine ⟨fun t ht => ?_, fun e he hreq => ?_, fun e he hs => ?_⟩
  · rw [← hrun, ← (scoped_of_reachable hreach).required s row hlook] at ht
    obtain ⟨key, bracket, hbrac, hver, hscope, hstate⟩ :=
      (bracketed_of_reachable hreach).sealed_of_count (frozen_of_reachable hreach) hseal ht
    refine ⟨key, bracket, hbrac, hver, hscope, hstate, ?_⟩
    refine reservationsStand_iff.mp (reservationsStand_of_timely h) key bracket row hbrac hstate
      (hscope ▸ hlook) ?_
    simp [ScopeRow.admits, hopen, hfence]
  · obtain ⟨row', hrow', -, -, hfen⟩ := (requested_of_reachable hreach).event e he s hreq
    obtain rfl := Option.mem_unique hlook hrow'
    simp [hfence] at hfen
  by_contra hcan
  obtain ⟨s', row', hs', hrow', hkey⟩ :=
    (gated_of_reachable hreach).cancel e he (by simpa using hcan)
  obtain rfl := Option.mem_unique hs hs'
  obtain rfl := Option.mem_unique hlook hrow'
  have hside := (keyed_of_reachable hreach).side s row hlook hkey
  rw [hopen] at hside
  cases hside

/-- Whether `admit_pivot` returns true. -/
def pivotAdmitted (db : Db) (runId : RunId) (s : ScopeId) (v : VertexId) : Bool :=
  match admitPivot db runId s v with
  | .ok (admitted, _) => admitted
  | .error _ => false

/-- `admit_pivot` returned true. -/
theorem admitPivot_of_admitted {runId : RunId} {s : ScopeId} {v : VertexId}
    (h : pivotAdmitted db runId s v = true) : ∃ db', admitPivot db runId s v = .ok (true, db') := by
  unfold pivotAdmitted at h
  split at h
  · rename_i admitted db' hres
    exact ⟨db', hres.trans (by rw [h])⟩
  · cases h

/-- A try succeeds, time passes, and a worker comes to the pivot behind it. -/
def waitingPivot (ms : ℕ) : List Action :=
  [.createRun 1, .freeze 1 [tccVertex 10 [] 5 "a", pivotVertex 12 [10] 5 "p"]] ++ callNext 1 ++
    [reply 1 .succeeded] ++ drive 1 3 ++ .tick ms :: .poll 1 :: drive 1 3

/-- A pivot that comes within the minute its reservation stands. -/
theorem pivot_admitted_in_time_waitingPivot :
    (∃ db', admitPivot (World.afterUnder {} timely (waitingPivot 50000)).db 1 5 12 =
      .ok (true, db')) ∧
    ∀ t ∈ requiredTries (World.afterUnder {} timely (waitingPivot 50000)).db 1 5,
      ∃ key bracket,
        (World.afterUnder {} timely (waitingPivot 50000)).db.brackets.lookup key = some bracket ∧
        bracket.tryVertexId = t ∧
        (World.afterUnder {} timely (waitingPivot 50000)).db.now ≤ bracket.deadlineAt := by
  obtain ⟨db', hgran⟩ := admitPivot_of_admitted
    (show pivotAdmitted (World.afterUnder {} timely (waitingPivot 50000)).db 1 5 12 = true by
      decide +kernel)
  refine ⟨⟨db', hgran⟩, fun t ht => ?_⟩
  obtain ⟨key, bracket, hbrac, hver, -, -, hdead⟩ :=
    (pivot_admitted_in_time (reachable_afterUnder (by decide +kernel)) hgran).1 t ht
  exact ⟨key, bracket, hbrac, hver, hdead⟩

/-- A minute after its only try, a scope still admits its pivot: the try is required, and no
bracket of it stands. -/
theorem pivot_admitted_late :
    Reachable {} (World.after {} (waitingPivot 61000)) ∧
    (∃ db', admitPivot (World.after {} (waitingPivot 61000)).db 1 5 12 = .ok (true, db')) ∧
    10 ∈ requiredTries (World.after {} (waitingPivot 61000)).db 1 5 ∧
    ∀ key bracket,
      (World.after {} (waitingPivot 61000)).db.brackets.lookup key = some bracket →
      bracket.tryVertexId = 10 →
      bracket.deadlineAt < (World.after {} (waitingPivot 61000)).db.now := by
  have hnone : (World.after {} (waitingPivot 61000)).db.brackets.anyRow (fun _ bracket =>
      bracket.tryVertexId == 10 &&
        !decide (bracket.deadlineAt < (World.after {} (waitingPivot 61000)).db.now)) = false := by
    decide +kernel
  refine ⟨reachable_after (by decide +kernel), admitPivot_of_admitted (by decide +kernel),
    by decide +kernel, fun key bracket hbrac hver => ?_⟩
  simpa [hver] using Table.anyRow_eq_false_iff.mp hnone key bracket hbrac

end Flory
