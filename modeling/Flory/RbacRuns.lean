import Flory.Rbac
import Flory.RowLocks

/-!
# Concurrent Role Mutations

Any number of callers run the two functions of `Flory.Rbac` at once. A call locks its idempotency
key, then its target, then the row of the target if there is one; between two statements other
calls take theirs, and every statement reads what is committed. The machine is that of
`Flory.RowLocks`. What the callers got is kept beside the tables as a list of answers: a call is
refused, answered from the audit row of its key, or accepted.

The foreign keys of the bindings lock further rows. They only make calls wait, so that the runs
without them are all the runs there are, and more.

## Main results

* `rbac_history_linked`: **the history is a compare-and-swap chain**, in every interleaving.
* `rbac_serializable`: tables and answers are those of the calls one after another, as long as no
  role is disabled under a call that binds it.
* `idempotency_key_names_one_mutation`: one key, one operation on one target, and one result.
* `replayed_body_differs`: a key reused with a changed body is answered with the old result.
-/

namespace Flory.Rbac

open Except (error ok)
open RowLocks (Lock Statement Transaction)

/-! ### Answers -/

/-- What a caller gets. -/
inductive Outcome
  | refused (raised : Raised)
  | replayed (response : Response)
  | accepted (response : Response)
  deriving DecidableEq

/-- The result of a call that returned without an exception. -/
def Outcome.response : Outcome → Option Response
  | .refused _ => none
  | .replayed response => some response
  | .accepted response => some response

/-- A call and what its caller got. -/
structure Answer where
  call : Call
  outcome : Outcome
  deriving DecidableEq

/-- The tables and the answers given so far. -/
structure Gateway where
  tables : Tables := {}
  answers : List Answer := []

namespace Gateway

/-- One more answer. -/
def answer (g : Gateway) (call : Call) (outcome : Outcome) : Gateway :=
  { g with answers := g.answers ++ [⟨call, outcome⟩] }

/-- The writes of a call at its end, or the exception they raise. -/
def commit (g : Gateway) (call : Call) (current : ℕ) : Gateway :=
  match writeCall g.tables current call with
  | error raised => g.answer call (.refused raised)
  | ok (response, tables) => ({ g with tables := tables } : Gateway).answer call (.accepted response)

/-- A call at one go. -/
def perform (g : Gateway) (call : Call) : Gateway :=
  match mutate g.tables call with
  | error raised => g.answer call (.refused raised)
  | ok (response, tables) => ({ g with tables := tables } : Gateway).answer call
      (if (g.tables.auditOf call.mutation.idempotencyKey).isSome then .replayed response
        else .accepted response)

/-- The accepted calls and what they returned. -/
def accepted (g : Gateway) : List (Call × Response) :=
  g.answers.filterMap fun a =>
    match a.outcome with
    | .accepted response => some (a.call, response)
    | _ => none

/-- The accepted mutations as a ledger. -/
def ledger (g : Gateway) : List (Ledger.Entry Target Call) :=
  g.accepted.map fun a => ⟨a.1.body.target, a.2.revision - 1, a.2.revision, a.1⟩

end Gateway

/-! ### Statements -/

/-- What a call locks: its key and its target by advisory locks, and the row of its target. -/
inductive Guard
  | idempotency (key : String)
  | target (target : Target)
  | row (target : Target)
  deriving DecidableEq

/-- An exclusive lock. -/
def exclusive (guard : Guard) : Lock Guard :=
  ⟨guard, .update⟩

/-- Where a call is. -/
inductive Point
  | enter (call : Call)
  | keyed (call : Call)
  | targeted (call : Call)
  | read (call : Call)
  | write (call : Call) (current : ℕ)

/-- The call at a point. -/
def Point.call : Point → Call
  | .enter call | .keyed call | .targeted call | .read call | .write call _ => call

/-- Whether a target has its row. -/
def Tables.hasRow (db : Tables) : Target → Bool
  | .role roleId => (db.roles.lookup roleId).isSome
  | .subject key => (db.subjects.lookup key).isSome

/-- The end of a call that raises an exception. -/
def refuse (call : Call) (raised : Raised) : Statement Guard Point Gateway :=
  .finish (·.answer call (.refused raised))

/-- The statement at a point. -/
def Point.statement : Point → Gateway → Statement Guard Point Gateway
  | .enter call, _ =>
    match checkMutation call.mutation with
    | error raised => refuse call raised
    | ok () => .lock [exclusive (.idempotency call.mutation.idempotencyKey)] (.keyed call)
  | .keyed call, g =>
    match g.tables.auditOf call.mutation.idempotencyKey with
    | some row =>
      match answerUsedKey row call.body with
      | error raised => refuse call raised
      | ok response => .finish (·.answer call (.replayed response))
    | none =>
      match checkBody g.tables call.body with
      | error raised => refuse call raised
      | ok () => .lock [exclusive (.target call.body.target)] (.targeted call)
  | .targeted call, g =>
    .lock (if g.tables.hasRow call.body.target then [exclusive (.row call.body.target)] else [])
      (.read call)
  | .read call, g =>
    match checkRevision call.body.target call.mutation.expectedRevision
        (g.tables.revisionOf call.body.target) with
    | error raised => refuse call raised
    | ok () => .lock [] (.write call (g.tables.revisionOf call.body.target))
  | .write call current, _ => .finish (·.commit call current)

/-- The code of the two functions. Nothing else writes the tables. -/
def rbacCode : RowLocks.Code Call Guard Point Gateway Empty where
  enter call _ := .enter call
  statement := Point.statement
  environment e := e.elim

/-- The calls under way over the tables. -/
abbrev RbacState : Type :=
  RowLocks.State Guard Point Gateway

/-- Calls that begin and go on. -/
abbrev RbacAction : Type :=
  RowLocks.Action Call Empty

/-! ### What a write does -/

/-- The role row a call asks for. -/
def Body.roleRow (revision : ℕ) : Body → Option RoleRow
  | .putRole _ description enabled => enabled.map fun enabled =>
    ⟨description.getD "", enabled, revision⟩
  | .replaceSubjectRoles _ _ _ => none

/-- The subject row a call asks for. -/
def Body.subjectRow (revision : ℕ) : Body → Option SubjectRow
  | .putRole _ _ _ => none
  | .replaceSubjectRoles _ _ enabled => enabled.map fun enabled => ⟨enabled, revision⟩

/-- Whether a result describes what a call asks for. -/
def Response.describes : Response → Body → Bool
  | .role roleId description enabled _, .putRole roleId' description' enabled' =>
    roleId == roleId' && description == description'.getD "" && enabled' == some enabled
  | .subject key roles enabled _, .replaceSubjectRoles key' roles' enabled' =>
    key == key' && roles.all (fun roleId => decide (roleId ∈ roles'.getD [])) &&
      (roles'.getD []).all (fun roleId => decide (roleId ∈ roles)) && enabled' == some enabled
  | _, _ => false

/-- Everything an accepted write does to the tables. -/
structure Written (db : Tables) (current : ℕ) (call : Call) (response : Response) (db' : Tables) :
    Prop where
  fresh : db.auditOf call.mutation.idempotencyKey = none
  revision : response.revision = current + 1
  describes : response.describes call.body = true
  audit : db'.audit = db.audit ++ [call.auditRow response]
  revisions : ∀ t, db'.revisionOf t = if call.body.target = t then current + 1 else db.revisionOf t
  roles : ∀ roleId, db'.roles.lookup roleId =
    if call.body.target = .role roleId then call.body.roleRow (current + 1)
    else db.roles.lookup roleId
  subjects : ∀ key, db'.subjects.lookup key =
    if call.body.target = .subject key then call.body.subjectRow (current + 1)
    else db.subjects.lookup key
  bound : ∀ key roleId, roleId ∈ db'.activeRoles key ↔
    if call.body.target = .subject key then roleId ∈ call.body.roles
    else roleId ∈ db.activeRoles key
  nodup : (∀ key, (db.activeRoles key).Nodup) → ∀ key, (db'.activeRoles key).Nodup

variable {response : Response}

section Writes

variable {db db' : Tables} {current : ℕ} {mutation : Mutation}

/-- The row of a role after `putRole`. -/
theorem written_putRole {roleId : String} {description : Option String} {enabled : Bool}
    (hfresh : db.auditOf mutation.idempotencyKey = none)
    (hrol : db'.roles = db.roles.insert roleId ⟨description.getD "", enabled, current + 1⟩)
    (hsub : db'.subjects = db.subjects) (hbin : db'.bindings = db.bindings)
    (haud : db'.audit = db.audit ++ [Call.auditRow ⟨mutation, .putRole roleId description enabled⟩
      (.role roleId (description.getD "") enabled (current + 1))]) :
    Written db current ⟨mutation, .putRole roleId description enabled⟩
      (.role roleId (description.getD "") enabled (current + 1)) db' := by
  have hlook : ∀ roleId', db'.roles.lookup roleId' = if Target.role roleId = .role roleId' then
      some ⟨description.getD "", enabled, current + 1⟩ else db.roles.lookup roleId' := by
    intro roleId'
    simp only [hrol, Table.lookup_insert_eq, Target.role.injEq, eq_comm]
  have hact : ∀ key, db'.activeRoles key = db.activeRoles key :=
    fun key => by rw [Tables.activeRoles, hbin, Tables.activeRoles]
  refine ⟨hfresh, rfl, by simp [Response.describes], haud, fun t => ?_, hlook,
    fun key => by rw [hsub]; rfl, fun key roleId' => by rw [hact]; rfl,
    fun h key => by rw [hact]; exact h key⟩
  cases t with
  | role roleId' =>
    rw [Tables.revisionOf, hlook]
    exact apply_ite (Option.elim · 0 RoleRow.revision) _ _ _
  | subject =>
    rw [Tables.revisionOf, hsub]
    rfl

/-- The rows of a subject after `replaceSubjectRoles`. -/
theorem written_replaceSubjectRoles {key : SubjectKey} {roles : Option (List String)}
    {enabled : Bool} {listed : List String} (hfresh : db.auditOf mutation.idempotencyKey = none)
    (hlis : listed = (db'.activeRoles key).insertionSort (· ≤ ·)) (hrol : db'.roles = db.roles)
    (hsub : db'.subjects = db.subjects.insert key ⟨enabled, current + 1⟩)
    (hbin : db'.bindings = replaceBindings db key (roles.getD []))
    (haud : db'.audit = db.audit ++ [Call.auditRow
      ⟨mutation, .replaceSubjectRoles key roles enabled⟩
      (.subject key listed enabled (current + 1))]) :
    Written db current ⟨mutation, .replaceSubjectRoles key roles enabled⟩
      (.subject key listed enabled (current + 1)) db' := by
  have hlook : ∀ key', db'.subjects.lookup key' = if Target.subject key = .subject key' then
      some ⟨enabled, current + 1⟩ else db.subjects.lookup key' := by
    intro key'
    simp only [hsub, Table.lookup_insert_eq, Target.subject.injEq, eq_comm]
  have hmem : ∀ roleId, roleId ∈ db'.activeRoles key ↔ roleId ∈ roles.getD [] :=
    fun roleId => mem_activeRoles_replaced db db' hbin
  refine ⟨hfresh, rfl, by simp [Response.describes, hlis, List.mem_insertionSort, hmem], haud,
    fun t => ?_, fun roleId => by rw [hrol]; rfl, hlook, fun key' roleId => ?_,
    nodup_activeRoles_replaced db db' hbin⟩
  · cases t with
    | role =>
      rw [Tables.revisionOf, hrol]
      rfl
    | subject key' =>
      rw [Tables.revisionOf, hlook]
      exact apply_ite (Option.elim · 0 SubjectRow.revision) _ _ _
  · by_cases heq : Target.subject key = .subject key'
    · cases heq
      exact (hmem roleId).trans (iff_of_eq (if_pos rfl).symm)
    have hne : key' ≠ key := fun h => heq (by rw [h])
    rw [activeRoles_replaced db db' hbin, if_neg hne]
    exact iff_of_eq (if_neg heq).symm

/-- **What an accepted write does.** -/
theorem written_of_writeCall {call : Call} (h : writeCall db current call = ok (response, db')) :
    Written db current call response db' := by
  unfold writeCall at h
  split at h
  · cases h
  rename_i made written hrows
  split at h
  · cases h
  rename_i hfresh
  cases h
  have hnone := Option.not_isSome_iff_eq_none.mp hfresh
  obtain ⟨_, body⟩ := call
  cases body with
  | putRole roleId description enabled =>
    cases enabled with
    | none => cases hrows
    | some =>
      cases hrows
      exact written_putRole hnone rfl rfl rfl rfl
  | replaceSubjectRoles key roles enabled =>
    cases enabled with
    | none => cases hrows
    | some =>
      cases hrows
      refine written_replaceSubjectRoles hnone ?_ ?_ ?_ ?_ ?_ <;> rfl

end Writes

/-- A key found stays found. -/
theorem auditOf_append {db db' : Tables} {row : AuditRow} (h : db'.audit = db.audit ++ [row])
    (key : String) : db'.auditOf key =
      (db.auditOf key).or (if row.idempotencyKey = key then some row else none) := by
  rw [Tables.auditOf, h, List.find?_append, Tables.auditOf]
  congr 1
  simp only [List.find?_cons, List.find?_nil]
  split <;> simp_all

/-! ### What a call holds -/

/-- What holds of a call under way: once its key is locked and found unused it stays unused, and
the revision it has read stays current. -/
def Point.Sound (db : Tables) (held awaited : List (Lock Guard)) : Point → Prop
  | .enter _ => True
  | .keyed call => exclusive (.idempotency call.mutation.idempotencyKey) ∈ held ++ awaited
  | .targeted call => db.auditOf call.mutation.idempotencyKey = none ∧
      exclusive (.idempotency call.mutation.idempotencyKey) ∈ held ∧
      exclusive (.target call.body.target) ∈ held ++ awaited
  | .read call => db.auditOf call.mutation.idempotencyKey = none ∧
      exclusive (.idempotency call.mutation.idempotencyKey) ∈ held ∧
      exclusive (.target call.body.target) ∈ held
  | .write call current => db.auditOf call.mutation.idempotencyKey = none ∧
      exclusive (.idempotency call.mutation.idempotencyKey) ∈ held ∧
      exclusive (.target call.body.target) ∈ held ∧ current = db.revisionOf call.body.target

variable {p : Point} {g' : Gateway}

section Turns

variable {g : Gateway} {db : Tables} {held held' awaited rest other : List (Lock Guard)}
  {wanted : Lock Guard}

/-- Taking an awaited lock, or finding it superfluous. -/
theorem Point.Sound.takes (h : p.Sound db held (wanted :: rest)) (hkeeps : ∀ l ∈ held, l ∈ held')
    (hgets : ∀ guard, wanted = exclusive guard → wanted ∈ held') : p.Sound db held' rest := by
  have hmem : ∀ guard, exclusive guard ∈ held ++ wanted :: rest → exclusive guard ∈ held' ++ rest := by
    intro guard hguard
    rcases List.mem_append.mp hguard with hheld | hwan
    · exact List.mem_append_left _ (hkeeps _ hheld)
    rcases List.mem_cons.mp hwan with heq | hrest
    · exact List.mem_append_left _ (heq ▸ hgets guard heq.symm)
    · exact List.mem_append_right _ hrest
  cases p with
  | enter => trivial
  | keyed => exact hmem _ h
  | targeted => exact ⟨h.1, hkeeps _ h.2.1, hmem _ h.2.2⟩
  | read => exact ⟨h.1, hkeeps _ h.2.1, hkeeps _ h.2.2⟩
  | write => exact ⟨h.1, hkeeps _ h.2.1, hkeeps _ h.2.2.1, h.2.2.2⟩

/-- The next statement. -/
theorem Point.Sound.stated {next : Point} {locks : List (Lock Guard)} (h : p.Sound g.tables held [])
    (hcode : p.statement g = .lock locks next) : next.Sound g.tables held locks := by
  cases p with
  | enter =>
    simp only [Point.statement] at hcode
    split at hcode
    · cases hcode
    · cases hcode
      exact List.mem_append_right _ (List.mem_singleton_self _)
  | keyed call =>
    simp only [Point.statement] at hcode
    split at hcode
    · split at hcode <;> cases hcode
    rename_i hfresh
    split at hcode
    · cases hcode
    cases hcode
    have hkey := h
    simp only [Point.Sound, List.append_nil] at hkey
    exact ⟨hfresh, hkey, List.mem_append_right _ (List.mem_singleton_self _)⟩
  | targeted =>
    cases hcode
    have htar := h.2.2
    rw [List.append_nil] at htar
    exact ⟨h.1, h.2.1, htar⟩
  | read =>
    simp only [Point.statement] at hcode
    split at hcode
    · cases hcode
    · cases hcode
      exact ⟨h.1, h.2.1, h.2.2, rfl⟩
  | write => cases hcode

/-- What the end of a call does to tables and answers. -/
inductive Ends (g : Gateway) (held : List (Lock Guard)) (p : Point) : Gateway → Prop
  | refused (raised : Raised) : Ends g held p (g.answer p.call (.refused raised))
  | replayed {row : AuditRow} (hkeyed : p = .keyed p.call)
      (hused : g.tables.auditOf p.call.mutation.idempotencyKey = some row)
      (hoperation : row.operation = p.call.body.operation)
      (htarget : row.target = p.call.body.target) :
      Ends g held p (g.answer p.call (.replayed row.response))
  | accepted {response : Response} {tables : Tables}
      (hwritten : Written g.tables (g.tables.revisionOf p.call.body.target) p.call response tables)
      (hkey : exclusive (.idempotency p.call.mutation.idempotencyKey) ∈ held)
      (htarget : exclusive (.target p.call.body.target) ∈ held) :
      Ends g held p (({ g with tables := tables } : Gateway).answer p.call (.accepted response))

/-- The end of a call is one of these. -/
theorem Point.Sound.ends {write : Gateway → Gateway} (h : p.Sound g.tables held [])
    (hcode : p.statement g = .finish write) : Ends g held p (write g) := by
  cases p with
  | enter | read =>
    simp only [Point.statement] at hcode
    split at hcode
    · cases hcode
      exact .refused _
    · cases hcode
  | keyed call =>
    simp only [Point.statement] at hcode
    split at hcode
    · rename_i row hused
      unfold answerUsedKey at hcode
      split at hcode
      · rename_i raised _
        cases hcode
        exact .refused raised
      rename_i response hans
      split at hans
      · cases hans
      rename_i hsame
      cases hans
      cases hcode
      simp only [ne_eq, not_or, not_not] at hsame
      exact .replayed rfl hused hsame.1 hsame.2
    · split at hcode
      · cases hcode
        exact .refused _
      · cases hcode
  | targeted => cases hcode
  | write call =>
    cases hcode
    obtain ⟨-, hkey, htar, rfl⟩ := h
    simp only [Gateway.commit]
    cases hwrite : writeCall g.tables (g.tables.revisionOf call.body.target) call with
    | error raised => exact .refused raised
    | ok => exact .accepted (written_of_writeCall hwrite) hkey htar

/-- **What holds of a call holds under whatever the others commit.** -/
theorem Point.Sound.others {q : Point} (h : p.Sound g.tables held awaited)
    (hends : Ends g other q g')
    (hclear : ∀ l ∈ held, ∀ l' ∈ other, l.row = l'.row → l.mode.conflicts l'.mode = false) :
    p.Sound g'.tables held awaited := by
  cases hends with
  | refused | replayed => exact h
  | @accepted response tables hwrit hkey htar =>
    have hdif : ∀ {guard guard' : Guard}, exclusive guard ∈ held → exclusive guard' ∈ other →
        guard ≠ guard' := by
      rintro guard guard' hheld hoth rfl
      exact Bool.noConfusion (hclear _ hheld _ hoth rfl)
    have hfresh : ∀ {key : String}, g.tables.auditOf key = none →
        exclusive (.idempotency key) ∈ held → tables.auditOf key = none := by
      intro key hnone hheld
      have hne := hdif hheld hkey
      rw [auditOf_append hwrit.audit, hnone, Option.none_or, if_neg]
      exact fun heq => hne (by rw [← heq]; rfl)
    cases p with
    | enter => trivial
    | keyed => exact h
    | targeted | read => exact ⟨hfresh h.1 h.2.1, h.2⟩
    | write call =>
      refine ⟨hfresh h.1 h.2.1, h.2.1, h.2.2.1, h.2.2.2.trans ?_⟩
      have hne := hdif h.2.2.1 htar
      exact ((hwrit.revisions call.body.target).trans (if_neg fun heq => hne (by rw [heq]))).symm

end Turns

/-! ### The chain -/

/-- **The history is a compare-and-swap chain.** The accepted calls have one audit row each, in
order; per target their revisions count up and link; rows and bindings are what the last accepted
call to their target asked for. -/
structure Chained (g : Gateway) : Prop where
  audited : g.tables.audit = g.accepted.map fun a => a.1.auditRow a.2
  linked : Ledger.Linked g.ledger
  revisions : ∀ t, g.tables.revisionOf t = Ledger.revision g.ledger t
  roles : ∀ roleId, g.tables.roles.lookup roleId = (Ledger.latest g.ledger (.role roleId)).bind
    fun call => call.body.roleRow (Ledger.revision g.ledger (.role roleId))
  subjects : ∀ key, g.tables.subjects.lookup key = (Ledger.latest g.ledger (.subject key)).bind
    fun call => call.body.subjectRow (Ledger.revision g.ledger (.subject key))
  bound : ∀ key roleId, roleId ∈ g.tables.activeRoles key ↔
    ∃ call, Ledger.latest g.ledger (.subject key) = some call ∧ roleId ∈ call.body.roles
  nodup : ∀ key, (g.tables.activeRoles key).Nodup

/-- Before the first call. -/
theorem chained_initial : Chained {} where
  audited := rfl
  linked := Ledger.linked_nil
  revisions t := by cases t <;> rfl
  roles _ := rfl
  subjects _ := rfl
  bound key roleId := by simp [Tables.activeRoles, Gateway.ledger, Gateway.accepted, Ledger.latest,
    Ledger.entriesOf]
  nodup _ := List.nodup_nil

variable {g : Gateway}

/-- An answer that accepts nothing. -/
theorem Chained.answer (h : Chained g) (call : Call) {outcome : Outcome}
    (hout : ∀ response, outcome ≠ .accepted response) : Chained (g.answer call outcome) := by
  have hacc : (g.answer call outcome).accepted = g.accepted := by
    simp only [Gateway.accepted, Gateway.answer, List.filterMap_append]
    cases outcome with
    | refused | replayed => simp
    | accepted response => exact absurd rfl (hout response)
  have hled : (g.answer call outcome).ledger = g.ledger := by
    rw [Gateway.ledger, hacc, Gateway.ledger]
  refine ⟨by rw [hacc]; exact h.audited, ?_, ?_, ?_, ?_, ?_, h.nodup⟩
  all_goals rw [hled]
  exacts [h.linked, h.revisions, h.roles, h.subjects, h.bound]

/-- An accepted call. -/
theorem Chained.accept (h : Chained g) {call : Call} {tables : Tables}
    (hwrit : Written g.tables (g.tables.revisionOf call.body.target) call response tables) :
    Chained (({ g with tables := tables } : Gateway).answer call (.accepted response)) := by
  have hacc : (({ g with tables := tables } : Gateway).answer call
      (.accepted response)).accepted = g.accepted ++ [(call, response)] := by
    simp [Gateway.accepted, Gateway.answer, List.filterMap_append]
  have hled : (({ g with tables := tables } : Gateway).answer call
      (.accepted response)).ledger = g.ledger ++
        [⟨call.body.target, response.revision - 1, response.revision, call⟩] := by
    rw [Gateway.ledger, hacc, List.map_append]
    rfl
  have hcur := h.revisions call.body.target
  have hrev : ∀ t, Ledger.revision (g.ledger ++
      [⟨call.body.target, response.revision - 1, response.revision, call⟩]) t =
        if call.body.target = t then g.tables.revisionOf call.body.target + 1
        else g.tables.revisionOf t := by
    intro t
    rw [Ledger.revision_append]
    dsimp only
    split
    · rename_i heq
      rw [← heq, hcur]
    · rw [h.revisions t, Nat.add_zero]
  refine ⟨?_, ?_, ?_, ?_, ?_, ?_, hwrit.nodup h.nodup⟩
  · rw [hacc, List.map_append, ← h.audited]
    exact hwrit.audit
  · rw [hled]
    refine h.linked.append ?_ ?_
    · change response.revision - 1 = _
      rw [hwrit.revision, Nat.add_sub_cancel, hcur]
    · change response.revision = response.revision - 1 + 1
      rw [hwrit.revision, Nat.add_sub_cancel]
  · intro t
    rw [hled, hrev]
    exact hwrit.revisions t
  · intro roleId
    refine (hwrit.roles roleId).trans ?_
    rw [hled, Ledger.latest_append, hrev]
    split
    · rfl
    · rw [h.roles, h.revisions]
  · intro key
    refine (hwrit.subjects key).trans ?_
    rw [hled, Ledger.latest_append, hrev]
    split
    · rfl
    · rw [h.subjects, h.revisions]
  · intro key roleId
    refine (hwrit.bound key roleId).trans ?_
    rw [hled, Ledger.latest_append]
    split
    · simp
    · exact h.bound key roleId

variable {held : List (Lock Guard)}

theorem Chained.ends (h : Chained g) (hends : Ends g held p g') : Chained g' := by
  cases hends with
  | refused | replayed => exact h.answer _ (by simp)
  | accepted hwrit => exact h.accept hwrit

/-! ### Every interleaving -/

/-- What holds of the calls under way and of the history. -/
structure Serial (s : RbacState) : Prop where
  exclusive : RowLocks.Exclusive s
  chained : Chained s.db
  all : s.All fun g txn => txn.point.Sound g.tables txn.held txn.awaited

/-- No statement skips locked rows. -/
theorem Point.not_skipLocked {rows : List Guard} {next : List Guard → Point} :
    p.statement g ≠ .skipLocked rows next := by
  intro hcode
  cases p with
  | enter | read =>
    simp only [Point.statement] at hcode
    split at hcode <;> cases hcode
  | keyed =>
    simp only [Point.statement] at hcode
    split at hcode
    · split at hcode <;> cases hcode
    · split at hcode <;> cases hcode
  | targeted | write => cases hcode

variable {s : RbacState}

/-- A turn keeps what holds of a call. -/
theorem Point.Sound.turn {t : ℕ} {txn txn' : Transaction Guard Point}
    (h : txn.point.Sound s.db.tables txn.held txn.awaited)
    (hturn : RowLocks.Turn rbacCode s t txn txn') :
    txn'.point.Sound s.db.tables txn'.held txn'.awaited := by
  cases hturn with
  | regained hawait hcov =>
    rw [hawait] at h
    exact h.takes (fun _ hl => hl) fun guard hguard => by
      rw [hguard] at hcov ⊢
      exact RowLocks.mem_of_covering hcov
  | granted hawait =>
    rw [hawait] at h
    exact h.takes (fun _ hl => List.mem_cons_of_mem _ hl) fun _ _ => List.mem_cons_self
  | stated hawait hcode =>
    rw [hawait] at h
    exact h.stated hcode
  | skipped _ hcode => exact absurd hcode Point.not_skipLocked

/-- The end of a call, in a serial state. -/
theorem Serial.ends (h : Serial s) {t : ℕ} {txn : Transaction Guard Point}
    {write : Gateway → Gateway} (htxn : s.active.lookup t = some txn)
    (hawait : txn.awaited = []) (hcode : rbacCode.statement txn.point s.db = .finish write) :
    Ends s.db txn.held txn.point (write s.db) := by
  have hsound : txn.point.Sound s.db.tables txn.held txn.awaited := h.all t txn htxn
  rw [hawait] at hsound
  exact hsound.ends hcode

/-- **Every step keeps the history a chain.** -/
theorem Serial.moves {s' : RbacState} {a : RbacAction} (h : Serial s)
    (hmov : RowLocks.Moves rbacCode s a s') : Serial s' := by
  have hall : s'.All fun g txn => txn.point.Sound g.tables txn.held txn.awaited := by
    refine hmov.all h.all (fun _ _ _ => trivial) (fun _ _ _ _ _ hsound hturn => hsound.turn hturn)
      (fun t txn write u other _ htxn hawait hcode hne hoth hsound => ?_) (fun e => e.elim)
    exact hsound.others (h.ends htxn hawait hcode) (h.exclusive u t other txn hoth htxn hne)
  refine ⟨h.exclusive.moves hmov, ?_, hall⟩
  cases hmov with
  | started | turned => exact h.chained
  | finished htxn hawait hcode => exact h.chained.ends (h.ends htxn hawait hcode)
  | changed e => exact e.elim

/-- Every interleaving is serial. -/
theorem serial_of_reachable {allowed : RbacState → RbacAction → Prop}
    (h : Transition.Reachable (RowLocks.step rbacCode) allowed (RowLocks.State.quiet {}) s) :
    Serial s := by
  refine h.invariant (I := Serial) ?_ fun _ _ _ hs _ hstep => hs.moves (RowLocks.moves_of_step hstep)
  exact ⟨fun _ _ _ _ htxn => (RowLocks.lookup_quiet htxn).elim, chained_initial,
    fun _ _ htxn => (RowLocks.lookup_quiet htxn).elim⟩

/-- **The history of role mutations is a compare-and-swap chain**, in every interleaving of calls,
and a call under a key that was used before changes no table. -/
theorem rbac_history_linked {s : RbacState}
    (h : Transition.Reachable (RowLocks.step rbacCode) Transition.anyStep
      (RowLocks.State.quiet {}) s) :
    Chained s.db ∧ ∀ t txn s', s.active.lookup t = some txn →
      (s.db.tables.auditOf txn.point.call.mutation.idempotencyKey).isSome = true →
      RowLocks.step rbacCode s (.advance t) = some s' → s'.db.tables = s.db.tables := by
  have hser := serial_of_reachable h
  refine ⟨hser.chained, fun t txn s' htxn hused hstep => ?_⟩
  cases RowLocks.moves_of_step hstep with
  | turned => rfl
  | @finished _ txn' write htxn' hawait hcode =>
    obtain rfl := Option.mem_unique htxn htxn'
    have hends := hser.ends htxn hawait hcode
    generalize write s.db = g' at hends ⊢
    cases hends with
    | refused | replayed => rfl
    | accepted hwrit =>
      rw [hwrit.fresh] at hused
      cases hused

/-! ### Concrete calls -/

/-- The state after a script of calls. -/
def RbacState.after (script : List RbacAction) : RbacState :=
  (Transition.run (RowLocks.step rbacCode) (RowLocks.State.quiet {}) script).getD
    (RowLocks.State.quiet {})

/-- A call that begins and takes its next turns. -/
def callTurns (t : ℕ) (call : Call) (n : ℕ) : List RbacAction :=
  .start t call :: List.replicate n (.advance t)

/-- A call that puts a role. -/
def putRoleCall (key roleId description : String) (expected : ℤ) : Call :=
  ⟨⟨"admin", "request", key, some expected⟩, .putRole roleId (some description) (some true)⟩

/-- A call that binds roles to a subject. -/
def bindCall (key : String) (roles : List String) (expected : ℤ) : Call :=
  ⟨⟨"admin", "request", key, some expected⟩,
    .replaceSubjectRoles ⟨"issuer", "subject"⟩ (some roles) (some true)⟩

/-- Two callers put one role, the second over the revision of the first, while a third call repeats
the key of the first. -/
def twoRevisions : List RbacAction :=
  callTurns 0 (putRoleCall "a" "reader" "one" 0) 7 ++
    callTurns 1 (putRoleCall "b" "reader" "two" 1) 4 ++
    callTurns 2 (putRoleCall "a" "reader" "one" 0) 2 ++ List.replicate 4 (.advance 1)

/-- A concrete interleaving with a repeated key. -/
theorem rbac_history_linked_twoRevisions :
    (RbacState.after twoRevisions).db.tables.audit.map (fun row =>
      (row.idempotencyKey, row.beforeRevision, row.afterRevision)) = [("a", 0, 1), ("b", 1, 2)] ∧
    Chained (RbacState.after twoRevisions).db ∧
    ∀ s', RowLocks.step rbacCode (RbacState.after twoRevisions) (.advance 2) = some s' →
      s'.db.tables = (RbacState.after twoRevisions).db.tables := by
  have hreach : Transition.Reachable (RowLocks.step rbacCode) Transition.anyStep
      (RowLocks.State.quiet {}) (RbacState.after twoRevisions) :=
    Transition.reachable_getD (by decide +kernel)
  have hused : (((RbacState.after twoRevisions).active.lookup 2).map fun txn =>
      ((RbacState.after twoRevisions).db.tables.auditOf
        txn.point.call.mutation.idempotencyKey).isSome) = some true := by decide +kernel
  obtain ⟨txn, htxn, hkey⟩ := Option.map_eq_some_iff.mp hused
  exact ⟨by decide +kernel, (rbac_history_linked hreach).1,
    fun s' hstep => (rbac_history_linked hreach).2 2 txn s' htxn hkey hstep⟩

/-! ### Serial order -/

/-- What a call has passed. -/
def Point.Checked : Point → Prop
  | .enter _ => True
  | .write call current => checkMutation call.mutation = ok () ∧
      checkRevision call.body.target call.mutation.expectedRevision current = ok ()
  | p => checkMutation p.call.mutation = ok ()

/-- Whether arguments past their check still pass it. -/
def Point.rechecked (db : Tables) : Point → Bool
  | .read call | .write call _ => decide (checkBody db call.body = ok ())
  | _ => true

/-- **The condition**: no role is disabled between the check of a call that binds it and the end
of the call. -/
def rechecked (s : RbacState) : RbacAction → Bool
  | .advance t => (s.active.lookup t).all fun txn => txn.point.rechecked s.db.tables
  | _ => true

section Serial

variable {g : Gateway} {held : List (Lock Guard)} {p : Point}

/-- The next statement has passed the checks before it. -/
theorem Point.Checked.stated {next : Point} {locks : List (Lock Guard)} (h : p.Checked)
    (hcode : p.statement g = .lock locks next) : next.Checked := by
  cases p with
  | enter | read =>
    simp only [Point.statement] at hcode
    split at hcode <;> cases hcode
    first | assumption | exact ⟨h, ‹_›⟩
  | keyed =>
    simp only [Point.statement] at hcode
    split at hcode <;> split at hcode <;> cases hcode
    exact h
  | targeted =>
    cases hcode
    exact h
  | write => cases hcode

/-- **A call ends as if it ran at that moment.** -/
theorem Point.Sound.finishes {write : Gateway → Gateway} (h : p.Sound g.tables held [])
    (hcheck : p.Checked) (hbody : p.rechecked g.tables = true)
    (hcode : p.statement g = .finish write) : write g = g.perform p.call := by
  cases p with
  | enter =>
    simp only [Point.statement] at hcode
    split at hcode <;> cases hcode
    simp only [Gateway.perform, mutate, Point.call, *]
    rfl
  | keyed call =>
    have hmut : checkMutation call.mutation = ok () := hcheck
    simp only [Point.statement] at hcode
    split at hcode <;> split at hcode <;> cases hcode
    all_goals
      simp only [Gateway.perform, mutate, Point.call, *]
      rfl
  | targeted => cases hcode
  | read call =>
    have hmut : checkMutation call.mutation = ok () := hcheck
    obtain ⟨hfresh, -⟩ := h
    have hargs := of_decide_eq_true hbody
    simp only [Point.statement] at hcode
    split at hcode <;> cases hcode
    simp only [Gateway.perform, mutate, Point.call, *]
    rfl
  | write call current =>
    obtain ⟨hmut, hrev⟩ := hcheck
    obtain ⟨hfresh, -, -, rfl⟩ := h
    have hargs := of_decide_eq_true hbody
    cases hcode
    have hmutat : mutate g.tables call =
        writeCall g.tables (g.tables.revisionOf call.body.target) call := by
      simp only [mutate, hmut, hfresh, hargs, hrev]
      rfl
    simp [Gateway.commit, Gateway.perform, Point.call, hmutat, hfresh]

/-- A call at one go adds one answer, to itself. -/
theorem calls_perform (call : Call) :
    (g.perform call).answers.map Answer.call = g.answers.map Answer.call ++ [call] := by
  unfold Gateway.perform
  split <;> simp [Gateway.answer]

end Serial

/-- **Role mutations are serializable.** In every run that meets `rechecked`, tables and answers are
those of the calls one after another, each at one go, in the order of their answers. -/
theorem rbac_serializable {s : RbacState}
    (h : Transition.Reachable (RowLocks.step rbacCode) (fun s a => rechecked s a = true)
      (RowLocks.State.quiet {}) s) :
    s.db = (s.db.answers.map Answer.call).foldl Gateway.perform {} := by
  refine (h.invariant_of (K := Serial) (I := fun s => (s.All fun _ txn => txn.point.Checked) ∧
    s.db = (s.db.answers.map Answer.call).foldl Gateway.perform {})
    (fun _ => serial_of_reachable) ⟨nofun, rfl⟩ fun s s' a hser _ hs hall hstep => ?_).2
  obtain ⟨hchecked, hdb⟩ := hs
  have hmov := RowLocks.moves_of_step hstep
  refine ⟨hmov.all hchecked (fun _ _ _ => trivial) (fun t txn txn' _ _ hold hturn => ?_)
    (fun _ _ _ _ _ _ _ _ _ _ _ hold => hold) (fun e => e.elim), ?_⟩
  · cases hturn with
    | regained | granted => exact hold
    | stated _ hcode => exact hold.stated hcode
    | skipped _ hcode => exact absurd hcode Point.not_skipLocked
  cases hmov with
  | started | turned => exact hdb
  | @finished t txn write htxn hawait hcode =>
    have hsound : txn.point.Sound s.db.tables txn.held txn.awaited := hser.all t txn htxn
    rw [hawait] at hsound
    have hwrite := hsound.finishes (hchecked t txn htxn) (by simpa [rechecked, htxn] using hall) hcode
    dsimp only
    rw [hwrite, calls_perform, List.foldl_concat, ← hdb]
  | changed e => exact e.elim

/-- Two callers and a repeated key. -/
theorem rbac_serializable_twoRevisions : (RbacState.after twoRevisions).db =
    ((RbacState.after twoRevisions).db.answers.map Answer.call).foldl Gateway.perform {} :=
  rbac_serializable (Transition.guarded_reachable_getD (by decide +kernel))

/-! ### One key, one mutation -/

/-- The same mutation: operation, target, flag, description and set of roles. -/
def Body.Same (b b' : Body) : Prop :=
  b.operation = b'.operation ∧ b.target = b'.target ∧ b.enabled = b'.enabled ∧
    b.description = b'.description ∧ ∀ roleId, roleId ∈ b.roles ↔ roleId ∈ b'.roles

/-- **Every successful answer is the one its key is recorded with**, and what is recorded is what
the accepted call under the key got, which describes its body. -/
structure Recorded (g : Gateway) : Prop where
  answered : ∀ a ∈ g.answers, ∀ response, a.outcome.response = some response →
    ∃ row, g.tables.auditOf a.call.mutation.idempotencyKey = some row ∧ row.response = response ∧
      row.operation = a.call.body.operation ∧ row.target = a.call.body.target
  written : ∀ key row, g.tables.auditOf key = some row →
    ∃ a ∈ g.answers, a.outcome = .accepted row.response ∧ a.call.mutation.idempotencyKey = key ∧
      row.response.describes a.call.body = true

/-- What holds of the answers so far and of a new one holds of all. -/
theorem forall_answer {P : Answer → Prop} {call : Call} {outcome : Outcome}
    (hold : ∀ a ∈ g.answers, P a) (hnew : P ⟨call, outcome⟩) :
    ∀ a ∈ (g.answer call outcome).answers, P a :=
  List.forall_mem_append.mpr ⟨hold, List.forall_mem_singleton.mpr hnew⟩

/-- The answers stay recorded. -/
theorem Recorded.ends (h : Recorded g) (hends : Ends g held p g') : Recorded g' := by
  have hold : ∀ {call outcome} {tables : Tables} key row, g.tables.auditOf key = some row →
      ∃ a ∈ (({ g with tables := tables } : Gateway).answer call outcome).answers,
        a.outcome = .accepted row.response ∧ a.call.mutation.idempotencyKey = key ∧
          row.response.describes a.call.body = true := by
    intro call outcome tables key row hrow
    obtain ⟨a, ha, hacc⟩ := h.written key row hrow
    exact ⟨a, List.mem_append_left _ ha, hacc⟩
  cases hends with
  | refused => exact ⟨forall_answer h.answered nofun, hold⟩
  | @replayed row _ hused hoper htar =>
    refine ⟨forall_answer h.answered fun response hres => ?_, hold⟩
    cases hres
    exact ⟨row, hused, rfl, hoper, htar⟩
  | accepted hwrit =>
    have haud := auditOf_append hwrit.audit
    refine ⟨forall_answer (fun a ha response hres => ?_) fun response hres => ?_, fun key row hrow => ?_⟩
    · obtain ⟨row, hrow, hrec⟩ := h.answered a ha response hres
      refine ⟨row, ?_, hrec⟩
      exact (haud _).trans (by rw [hrow, Option.some_or])
    · cases hres
      refine ⟨p.call.auditRow _, ?_, rfl, rfl, rfl⟩
      refine (haud _).trans ?_
      rw [hwrit.fresh, Option.none_or]
      exact if_pos rfl
    · rcases Option.or_eq_some_iff.mp ((haud key).symm.trans hrow) with hrow | ⟨-, hrow⟩
      · exact hold key row hrow
      · obtain ⟨hkey, hsame⟩ := Option.ite_none_right_eq_some.mp hrow
        obtain rfl := Option.some.inj hsame
        exact ⟨_, List.mem_append_right _ (List.mem_singleton_self _), rfl, hkey, hwrit.describes⟩

/-- Answers are recorded, in every interleaving. -/
theorem recorded_of_reachable {allowed : RbacState → RbacAction → Prop}
    (h : Transition.Reachable (RowLocks.step rbacCode) allowed (RowLocks.State.quiet {}) s) :
    Recorded s.db := by
  refine h.invariant_of (K := Serial) (I := fun s => Recorded s.db)
    (fun _ => serial_of_reachable) ⟨nofun, nofun⟩ fun s s' a hser _ hs _ hstep => ?_
  cases RowLocks.moves_of_step hstep with
  | started | turned => exact hs
  | finished htxn hawait hcode => exact hs.ends (hser.ends htxn hawait hcode)
  | changed e => exact e.elim

/-- **An idempotency key names one operation on one target, and one result**, in every interleaving:
the calls that returned under a key got what its accepted call got, which describes that call's
body. -/
theorem idempotency_key_names_one_mutation {s : RbacState}
    (h : Transition.Reachable (RowLocks.step rbacCode) Transition.anyStep
      (RowLocks.State.quiet {}) s) :
    ∀ a ∈ s.db.answers, ∀ response, a.outcome.response = some response →
      (∃ first ∈ s.db.answers, first.outcome = .accepted response ∧
        first.call.mutation.idempotencyKey = a.call.mutation.idempotencyKey ∧
        response.describes first.call.body = true) ∧
      ∀ b ∈ s.db.answers, ∀ response', b.outcome.response = some response' →
        b.call.mutation.idempotencyKey = a.call.mutation.idempotencyKey →
        response' = response ∧ b.call.body.operation = a.call.body.operation ∧
          b.call.body.target = a.call.body.target := by
  have hrec := recorded_of_reachable h
  intro a ha response hres
  obtain ⟨row, hrow, rfl, hoper, htar⟩ := hrec.answered a ha response hres
  refine ⟨hrec.written _ row hrow, fun b hb response' hres' hkey => ?_⟩
  obtain ⟨row', hrow', rfl, hoper', htar'⟩ := hrec.answered b hb response' hres'
  rw [hkey, hrow] at hrow'
  obtain rfl := Option.some.inj hrow'
  exact ⟨rfl, hoper'.symm.trans hoper, htar'.symm.trans htar⟩

/-- A subject's roles are replaced under one key twice: by one role, and then by none. -/
def changedBody : List RbacAction :=
  callTurns 0 (putRoleCall "a" "reader" "one" 0) 7 ++ callTurns 1 (bindCall "b" ["reader"] 0) 7 ++
    callTurns 2 (bindCall "b" [] 1) 3

/-- Both calls got what the first one asked for. -/
theorem idempotency_key_names_one_mutation_changedBody :
    (RbacState.after changedBody).db.answers.length = 3 ∧
    ∀ a ∈ (RbacState.after changedBody).db.answers, ∀ response,
      a.outcome.response = some response → ∃ first ∈ (RbacState.after changedBody).db.answers,
        first.outcome = .accepted response ∧
        first.call.mutation.idempotencyKey = a.call.mutation.idempotencyKey ∧
        response.describes first.call.body = true :=
  ⟨by decide +kernel, fun a ha response hres => (idempotency_key_names_one_mutation
    (Transition.reachable_getD (by decide +kernel)) a ha response hres).1⟩

/-- **A key reused with a changed body is answered with the old result**: the caller asked to take
every role away, got no error, and the role is still bound. -/
theorem replayed_body_differs :
    ∃ s, Transition.Reachable (RowLocks.step rbacCode) Transition.anyStep
        (RowLocks.State.quiet {}) s ∧
      (⟨bindCall "b" ["reader"] 0, .accepted (.subject ⟨"issuer", "subject"⟩ ["reader"] true 1)⟩ :
        Answer) ∈ s.db.answers ∧
      (⟨bindCall "b" [] 1, .replayed (.subject ⟨"issuer", "subject"⟩ ["reader"] true 1)⟩ :
        Answer) ∈ s.db.answers ∧
      s.db.tables.activeRoles ⟨"issuer", "subject"⟩ = ["reader"] ∧
      ¬ (bindCall "b" [] 1).body.Same (bindCall "b" ["reader"] 0).body := by
  refine ⟨RbacState.after changedBody, Transition.reachable_getD (by decide +kernel), by decide +kernel,
    by decide +kernel, by decide +kernel, fun hsame => ?_⟩
  exact absurd ((hsame.2.2.2.2 "reader").mpr (by decide)) (by decide)

end Flory.Rbac
