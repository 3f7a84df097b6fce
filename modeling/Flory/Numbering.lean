import Flory.Append
import Flory.Forks

/-!
# Numbering Rows

How one accepted call numbers the rows it stores. An append takes the next positions of
its run from the run's counter, copies of inherited history take free positions at or
below the seed floor and leave the counter alone, and facts take the next positions of
their stream.

## Main results

* `appendEvents_numbered`, `copyInheritedEvents_copied`: the events of an accepted batch.
* `appendDomainEvents_numbered`: the event and the facts of an accepted domain append.
-/

namespace Flory

open Except (ok)
open Fallible (bind_eq_ok)

variable {runId : RunId} {streamId : String}
  {db db' : Db} {user : SessionUser} {store store' : Store}

/-! ### Numbering a run -/

/-- The events `new` were stored as own events of a run, at its next positions. -/
structure Numbered (runId : RunId) (db db' : Db) (new : List Event) : Prop where
  log : db'.log = db.log ++ new
  own : ∀ e ∈ new, e.runId = runId ∧ e.inherited = false
  run : ∃ row, db.runs.lookup runId = some row ∧
    db'.runs.lookup runId = some { row with nextSeq := row.nextSeq + new.length } ∧
    new.map Event.runSeq = List.range' row.nextSeq new.length
  others : ∀ r, r ≠ runId → db'.runs.lookup r = db.runs.lookup r

/-- One turn of an append takes one position. -/
theorem appendOne_numbered {session : Session} (hcopy : session.inheritCopy = false)
    {draft : EventDraft} (h : appendOne session runId db draft = ok db') :
    Numbered runId db db' [db.stamp runId draft] := by
  obtain ⟨hrun, -, -, haft⟩ := appendOne_ok hcopy h
  obtain ⟨row, hrow⟩ := Option.isSome_iff_exists.mp hrun
  have hkept := afterInsert_kept haft
  have hseq : db.nextSeq runId = row.nextSeq := by simp [Db.nextSeq, hrow]
  refine ⟨hkept.log, by simp, ⟨row, hrow, ?_, by simp [hseq]⟩, ?_⟩
  · rw [hkept.runs, Db.push, Table.lookup_insert_eq, if_pos rfl, hrow, hseq]
    rfl
  · intro r hr
    rw [hkept.runs, Db.push, Table.lookup_insert_eq, if_neg hr]

/-- Appends number on from each other. -/
theorem Numbered.append {db₁ db₂ db₃ : Db} {new₁ new₂ : List Event}
    (h₁ : Numbered runId db₁ db₂ new₁) (h₂ : Numbered runId db₂ db₃ new₂) :
    Numbered runId db₁ db₃ (new₁ ++ new₂) := by
  obtain ⟨row, hrow, hrow₂, hseq⟩ := h₁.run
  obtain ⟨_, hrow₂', hrow₃, hseq₂⟩ := h₂.run
  obtain rfl := Option.mem_unique hrow₂ hrow₂'
  refine ⟨by rw [h₂.log, h₁.log, List.append_assoc], ?_, ⟨row, hrow, ?_, ?_⟩, ?_⟩
  · intro e he
    exact (List.mem_append.mp he).elim (h₁.own e) (h₂.own e)
  · rw [hrow₃, List.length_append, ← Nat.add_assoc]
  · rw [List.map_append, hseq, hseq₂, List.length_append, ← List.range'_append_1]
  · exact fun r hr => (h₂.others r hr).trans (h₁.others r hr)

/-- **An accepted batch takes the next positions of its run**, and of no other. -/
theorem appendEvents_numbered {session : Session} (hcopy : session.inheritCopy = false)
    {drafts : List EventDraft} (h : appendEvents session runId drafts db = ok db') :
    ∃ new, Numbered runId db db' new := by
  unfold appendEvents at h
  match drafts, h with
  | [], h => cases h
  | draft :: rest, h =>
    simp only [List.foldlM_cons, bind_eq_ok] at h
    obtain ⟨mid, hmid, hrest⟩ := h
    have hfir : ∃ new, Numbered runId db mid new := ⟨_, appendOne_numbered hcopy hmid⟩
    refine Fallible.foldlM_invariant (I := fun mid => ∃ new, Numbered runId db mid new)
      (fun a s b _ hnew hturn => ?_) hfir hrest
    obtain ⟨new, hnew⟩ := hnew
    exact ⟨_, hnew.append (appendOne_numbered hcopy hturn)⟩

/-- The events `new` were stored as inherited copies in a fork, at free positions of its
seed. -/
structure Copied (runId : RunId) (floor : ℕ) (db db' : Db) (new : List Event) : Prop where
  log : db'.log = db.log ++ new
  runs : db'.runs = db.runs
  inherited : ∀ e ∈ new, e.runId = runId ∧ e.inherited = true ∧ 1 ≤ e.runSeq ∧ e.runSeq ≤ floor
  free : ∀ e ∈ new, ∀ e' ∈ db.log, e'.runId = runId → e'.runSeq ≠ e.runSeq
  distinct : (new.map Event.runSeq).Nodup

/-- One turn of the copy. -/
theorem copyOne_copied {floor : ℕ} {copy : InheritedCopy}
    (h : copyOne runId floor db copy = ok db') :
    Copied runId floor db db' [copy.toEventDraft.at runId copy.runSeq true] := by
  unfold copyOne at h
  split at h
  · cases h
  rename_i hfloor
  simp only [bind_eq_ok] at h
  obtain ⟨⟨⟩, -, ⟨⟩, -, h⟩ := h
  split at h
  · cases h
  rename_i htak
  have hkept := afterInsert_kept h
  simp only [not_or, not_lt] at hfloor
  refine ⟨hkept.log, hkept.runs, ?_, ?_, List.nodup_singleton _⟩
  · simp [EventDraft.at, hfloor]
  simp only [List.mem_singleton, forall_eq]
  intro e he hrun hseq
  refine htak (List.any_eq_true.mpr ⟨e, he, ?_⟩)
  simp only [hrun, beq_self_eq_true, Bool.true_and]
  exact beq_iff_eq.mpr hseq

/-- Copies accumulate. -/
theorem Copied.append {floor : ℕ} {db₁ db₂ db₃ : Db} {new₁ new₂ : List Event}
    (h₁ : Copied runId floor db₁ db₂ new₁) (h₂ : Copied runId floor db₂ db₃ new₂) :
    Copied runId floor db₁ db₃ (new₁ ++ new₂) where
  log := by rw [h₂.log, h₁.log, List.append_assoc]
  runs := h₂.runs.trans h₁.runs
  inherited e he := (List.mem_append.mp he).elim (h₁.inherited e) (h₂.inherited e)
  free e he e' he' hrun := by
    rcases List.mem_append.mp he with he | he
    · exact h₁.free e he e' he' hrun
    · exact h₂.free e he e' (by rw [h₁.log]; exact List.mem_append_left _ he') hrun
  distinct := by
    rw [List.map_append]
    refine List.Nodup.append h₁.distinct h₂.distinct fun n hn₁ hn₂ => ?_
    obtain ⟨e₁, he₁, rfl⟩ := List.mem_map.mp hn₁
    obtain ⟨e₂, he₂, hseq⟩ := List.mem_map.mp hn₂
    exact h₂.free e₂ he₂ e₁ (by rw [h₁.log]; exact List.mem_append_right _ he₁)
      (h₁.inherited e₁ he₁).1 hseq.symm

/-- **Accepted copies stay within the seed of their fork**, at positions not taken yet. -/
theorem copyInheritedEvents_copied {copies : List InheritedCopy}
    (h : copyInheritedEvents runId copies db = ok db') :
    ∃ row floor new, db.runs.lookup runId = some row ∧ row.seedFloor = some floor ∧
      Copied runId floor db db' new := by
  unfold copyInheritedEvents at h
  split at h
  · cases h
  split at h
  · cases h
  rename_i row hrow
  split at h
  · cases h
  rename_i floor hfloor
  have hnil : ∃ new, Copied runId floor db db new :=
    ⟨[], by simp, rfl, by simp, by simp, List.nodup_nil⟩
  obtain ⟨new, hnew⟩ := Fallible.foldlM_invariant
    (I := fun mid => ∃ new, Copied runId floor db mid new)
    (fun a s b _ hnew hturn => by
      obtain ⟨new, hnew⟩ := hnew
      exact ⟨_, hnew.append (copyOne_copied hturn)⟩) hnil h
  exact ⟨row, floor, new, hrow, hfloor, hnew⟩

/-! ### Numbering a stream -/

/-- The facts `new` were stored at the next positions of a stream. -/
structure Placed (streamId : String) (store store' : Store) (new : List BusinessEvent) : Prop where
  db : store'.db = store.db
  facts : store'.facts = store.facts ++ new
  named : ∀ f ∈ new, f.streamId = streamId
  stream : ∃ row, store.streams.lookup streamId = some row ∧
    store'.streams.lookup streamId = some { nextSeq := row.nextSeq + new.length } ∧
    new.map BusinessEvent.streamSeq = List.range' row.nextSeq new.length
  others : ∀ s, s ≠ streamId → store'.streams.lookup s = store.streams.lookup s

/-- A stored fact is the given one. -/
theorem insertFact_ok {fact : BusinessEvent} (h : insertFact user store fact = ok store') :
    store' = { store with facts := store.facts ++ [fact] } := by
  simp only [insertFact, bind_eq_ok] at h
  obtain ⟨⟨⟩, -, h⟩ := h
  split at h
  · exact (Except.ok.inj h).symm
  · cases h

/-- Storing a fact at the position just allocated. -/
theorem placed_of_allocated {mid : Store} {allocated : ℕ} {fact : BusinessEvent}
    (hall : allocateStreamSeq store streamId = ok (allocated, mid))
    (hfact : insertFact user mid fact = ok store') (hstr : fact.streamId = streamId)
    (hseq : fact.streamSeq = allocated) : Placed streamId store store' [fact] := by
  unfold allocateStreamSeq at hall
  split at hall
  · cases hall
  rename_i row hrow
  cases hall
  obtain rfl := insertFact_ok hfact
  refine ⟨rfl, rfl, by simpa using hstr, ⟨row, hrow, ?_, by simp [hseq]⟩, fun s hs => ?_⟩
  · rw [Table.lookup_insert_eq, if_pos rfl]
    rfl
  · rw [Table.lookup_insert_eq, if_neg hs]

/-- Facts number on from each other. -/
theorem Placed.append {store₁ store₂ store₃ : Store} {new₁ new₂ : List BusinessEvent}
    (h₁ : Placed streamId store₁ store₂ new₁) (h₂ : Placed streamId store₂ store₃ new₂) :
    Placed streamId store₁ store₃ (new₁ ++ new₂) := by
  obtain ⟨row, hrow, hrow₂, hseq⟩ := h₁.stream
  obtain ⟨_, hrow₂', hrow₃, hseq₂⟩ := h₂.stream
  obtain rfl := Option.mem_unique hrow₂ hrow₂'
  refine ⟨h₂.db.trans h₁.db, by rw [h₂.facts, h₁.facts, List.append_assoc], ?_,
    ⟨row, hrow, ?_, ?_⟩, ?_⟩
  · intro f hf
    exact (List.mem_append.mp hf).elim (h₁.named f) (h₂.named f)
  · rw [hrow₃, List.length_append, ← Nat.add_assoc]
  · rw [List.map_append, hseq, hseq₂, List.length_append, ← List.range'_append_1]
  · exact fun s hs => (h₂.others s hs).trans (h₁.others s hs)

/-- One fact of an event takes one position, and names the run. -/
theorem appendFact_placed {causedBy : ℕ} {forkRun : Bool} {fact : BusinessFactDraft}
    (h : appendFact user runId causedBy forkRun streamId store fact = ok store') :
    ∃ f, Placed streamId store store' [f] ∧ f.runId = some runId := by
  unfold appendFact at h
  split at h
  · cases h
  simp only [bind_eq_ok] at h
  obtain ⟨⟨_, _⟩, hall, hfact⟩ := h
  exact ⟨_, placed_of_allocated hall hfact rfl rfl, rfl⟩

/-- A stream that is there from now on. -/
theorem lookup_ensured :
    (store.ensureStream streamId).streams.lookup streamId =
      some ((store.streams.lookup streamId).getD {}) := by
  rw [Store.ensureStream, Table.lookup_insertNew, if_pos rfl]
  cases store.streams.lookup streamId <;> rfl

theorem lookup_ensured_of_ne {s : String} (h : s ≠ streamId) :
    (store.ensureStream streamId).streams.lookup s = store.streams.lookup s := by
  rw [Store.ensureStream, Table.lookup_insertNew, if_neg h, Option.or_none]

/-- **An accepted domain append** numbers its event in the run and its facts in the stream,
and the run is a fork exactly when the stream is one of the fork namespace. -/
theorem appendDomainEvents_numbered {event : EventDraft} {facts : List BusinessFactDraft}
    (h : appendDomainEvents user store runId streamId event facts = ok store') :
    ∃ row mid events new, store.db.runs.lookup runId = some row ∧
      (row.seedFloor.isSome = isForkStream streamId) ∧ Numbered runId store.db mid events ∧
      Placed streamId ({ store with db := mid }.ensureStream streamId) store' new ∧
      ∀ f ∈ new, f.runId = some runId := by
  unfold appendDomainEvents at h
  split at h
  · cases h
  split at h
  · cases h
  split at h
  · cases h
  rename_i row hrow
  dsimp only at h
  split at h
  · cases h
  rename_i hfork
  split at h
  · cases h
  rename_i hlive
  simp only [bind_eq_ok] at h
  obtain ⟨mid, hmid, hfac⟩ := h
  obtain ⟨events, heven⟩ := appendEvents_numbered rfl hmid
  have hns : row.seedFloor.isSome = isForkStream streamId := by
    cases hr : row.seedFloor.isSome <;> cases hs : isForkStream streamId <;> simp_all
  have hstart : ∃ new, Placed streamId ({ store with db := mid }.ensureStream streamId)
      ({ store with db := mid }.ensureStream streamId) new ∧
      ∀ f ∈ new, f.runId = some runId :=
    ⟨[], ⟨rfl, by simp, by simp, ⟨_, lookup_ensured, lookup_ensured, rfl⟩,
      fun _ _ => rfl⟩, by simp⟩
  obtain ⟨new, hnew, hrun⟩ := Fallible.foldlM_invariant (I := fun final => ∃ new, Placed streamId
      ({ store with db := mid }.ensureStream streamId) final new ∧
      ∀ f ∈ new, f.runId = some runId)
    (fun a s b _ hnew hturn => by
      obtain ⟨new, hnew, hrun⟩ := hnew
      obtain ⟨f, hf, hfrun⟩ := appendFact_placed hturn
      refine ⟨new ++ [f], hnew.append hf, fun g hg => ?_⟩
      rcases List.mem_append.mp hg with hg | hg
      · exact hrun g hg
      · rw [List.mem_singleton.mp hg, hfrun]) hstart hfac
  exact ⟨row, mid, events, new, hrow, hns, heven, hnew, hrun⟩

end Flory
