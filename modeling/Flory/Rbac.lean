import Flory.Table
import Flory.Ledger
import Mathlib.Data.List.Dedup
import Mathlib.Data.List.Sort

/-!
# Roles and Subjects of the Gateway

The Gateway keeps its business roles, the subjects of its identity providers and the roles bound to
them in four tables. `gateway_rbac_put_role` and `gateway_rbac_replace_subject_roles` write them.
Both are the same procedure over different tables:

* a call names an actor, a request, an idempotency key and the revision it expects to replace;
* a key that was used before is answered from its audit row, when operation and target are the
  same, and refused otherwise;
* the arguments are checked, the current revision is compared with the expected one, the rows are
  written with the next revision, and one audit row records the call.

A binding is never deleted: a role that is taken away is marked as revoked, and bound again by a new
row.

An argument that is `NULL` counts as an empty text where the functions say so. Empty names of actor,
request, key, issuer, subject or role are refused, and so are `NULL` ones. A `NULL` revision compares
with nothing, so it is no conflict.

## Main results

* `activeRoles_replaced`: the bindings in force after a replacement are the requested roles.
* `nodup_activeRoles_replaced`: and no role is bound twice.
-/

namespace Flory.Rbac

open Except (error ok)

/-! ### Tables -/

/-- A row of `gateway_rbac_role`. -/
structure RoleRow where
  description : String
  enabled : Bool
  revision : ℕ
  deriving DecidableEq

/-- The primary key of `gateway_rbac_subject`. -/
structure SubjectKey where
  issuer : String
  subject : String
  deriving DecidableEq

/-- A row of `gateway_rbac_subject`. -/
structure SubjectRow where
  enabled : Bool
  revision : ℕ
  deriving DecidableEq

/-- A row of `gateway_rbac_subject_role`. -/
structure Binding where
  subject : SubjectKey
  roleId : String
  revoked : Bool := false
  deriving DecidableEq

/-- The operation an audit row names. -/
inductive Operation
  | rolePut
  | subjectRolesReplace
  deriving DecidableEq

/-- The operation as the audit spells it. -/
def Operation.name : Operation → String
  | .rolePut => "role.put"
  | .subjectRolesReplace => "subject.roles.replace"

/-- The target of a mutation: the object an audit row names. -/
inductive Target
  | role (roleId : String)
  | subject (key : SubjectKey)
  deriving DecidableEq

/-- What a mutation returns: the row it made. -/
inductive Response
  | role (roleId description : String) (enabled : Bool) (revision : ℕ)
  | subject (key : SubjectKey) (roles : List String) (enabled : Bool) (revision : ℕ)
  deriving DecidableEq

/-- The revision a response names. -/
def Response.revision : Response → ℕ
  | .role _ _ _ revision => revision
  | .subject _ _ _ revision => revision

/-- A row of `gateway_rbac_audit`. -/
structure AuditRow where
  idempotencyKey : String
  requestId : String
  actor : String
  operation : Operation
  target : Target
  beforeRevision : ℕ
  afterRevision : ℕ
  response : Response
  deriving DecidableEq

/-- The tables. -/
structure Tables where
  roles : Table String RoleRow := ∅
  subjects : Table SubjectKey SubjectRow := ∅
  bindings : List Binding := []
  audit : List AuditRow := []

/-- An exception of the database. -/
structure Raised where
  code : String
  message : String
  deriving DecidableEq

/-! ### Calls -/

/-- Who asks for a mutation, under which key, over which revision. -/
structure Mutation where
  actor : String
  requestId : String
  idempotencyKey : String
  expectedRevision : Option ℤ
  deriving DecidableEq

/-- What a call asks for. -/
inductive Body
  | putRole (roleId : String) (description : Option String) (enabled : Option Bool)
  | replaceSubjectRoles (key : SubjectKey) (roles : Option (List String)) (enabled : Option Bool)
  deriving DecidableEq

/-- A call of one of the two functions. -/
structure Call where
  mutation : Mutation
  body : Body
  deriving DecidableEq

/-- The operation of a call. -/
def Body.operation : Body → Operation
  | .putRole _ _ _ => .rolePut
  | .replaceSubjectRoles _ _ _ => .subjectRolesReplace

/-- The target of a call. -/
def Body.target : Body → Target
  | .putRole roleId _ _ => .role roleId
  | .replaceSubjectRoles key _ _ => .subject key

/-- The roles a call asks for. -/
def Body.roles : Body → List String
  | .putRole _ _ _ => []
  | .replaceSubjectRoles _ roles _ => roles.getD []

/-- The `enabled` flag of a call. -/
def Body.enabled : Body → Option Bool
  | .putRole _ _ enabled => enabled
  | .replaceSubjectRoles _ _ enabled => enabled

/-- The description of a call, `NULL` as the empty one. -/
def Body.description : Body → String
  | .putRole _ description _ => description.getD ""
  | .replaceSubjectRoles _ _ _ => ""

/-! ### Checks -/

/-- The first check of both functions. -/
def checkMutation (m : Mutation) : Except Raised Unit :=
  if m.actor = "" ∨ m.requestId = "" ∨ m.idempotencyKey = "" then
    error ⟨"22023", "actor, request ID, and idempotency key are required"⟩
  else ok ()

/-- The audit row of a key. -/
def Tables.auditOf (db : Tables) (key : String) : Option AuditRow :=
  db.audit.find? fun row => decide (row.idempotencyKey = key)

/-- The answer to a key that was used before. -/
def answerUsedKey (row : AuditRow) (body : Body) : Except Raised Response :=
  if row.operation ≠ body.operation ∨ row.target ≠ body.target then
    error ⟨"22023", "idempotency key was already used for another mutation"⟩
  else ok row.response

/-- The characters of a role after its first. -/
def roleChar (c : Char) : Bool :=
  c.isAlphanum || c == '.' || c == '_' || c == ':' || c == '-'

/-- The form of a role: a letter or digit, and up to 127 role characters. -/
def validRoleId (roleId : String) : Bool :=
  match roleId.toList with
  | [] => false
  | c :: rest => c.isAlphanum && decide (rest.length ≤ 127) && rest.all roleChar

/-- Whether a role is there and enabled. -/
def Tables.roleEnabled (db : Tables) (roleId : String) : Bool :=
  (db.roles.lookup roleId).any RoleRow.enabled

/-- The checks of the arguments. -/
def checkBody (db : Tables) : Body → Except Raised Unit
  | .putRole roleId _ _ =>
    if roleId = "*" ∨ validRoleId roleId = false then
      error ⟨"22023", "invalid or reserved role " ++ roleId⟩
    else ok ()
  | .replaceSubjectRoles key roles _ =>
    if key.issuer = "" ∨ key.subject = "" ∨ "*" ∈ roles.getD [] then
      error ⟨"22023", "issuer/subject must be non-empty and * cannot be bound"⟩
    else if (roles.getD []).any fun roleId => !db.roleEnabled roleId then
      error ⟨"23503", "all roles must exist and be enabled"⟩
    else ok ()

/-- The current revision of a target, zero where there is no row. -/
def Tables.revisionOf (db : Tables) : Target → ℕ
  | .role roleId => (db.roles.lookup roleId).elim 0 RoleRow.revision
  | .subject key => (db.subjects.lookup key).elim 0 SubjectRow.revision

/-- What a conflict names. -/
def Target.noun : Target → String
  | .role _ => "role"
  | .subject _ => "subject"

/-- The comparison of revisions. -/
def checkRevision (target : Target) (expected : Option ℤ) (current : ℕ) : Except Raised Unit :=
  match expected with
  | none => ok ()
  | some expected =>
    if (current : ℤ) ≠ expected then
      error ⟨"40001", target.noun ++ " revision conflict: expected " ++ toString expected ++
        ", found " ++ toString current⟩
    else ok ()

/-! ### Writes -/

/-- The roles bound to a subject and not revoked. -/
def Tables.activeRoles (db : Tables) (key : SubjectKey) : List String :=
  (db.bindings.filter fun b => decide (b.subject = key) && !b.revoked).map Binding.roleId

/-- The bindings after a replacement: those of other roles are revoked, missing ones are added. -/
def replaceBindings (db : Tables) (key : SubjectKey) (roles : List String) : List Binding :=
  (db.bindings.map fun b =>
    if b.subject = key ∧ b.roleId ∉ roles then { b with revoked := true } else b) ++
  (roles.dedup.filter fun roleId => decide (roleId ∉ db.activeRoles key)).map fun roleId =>
    ⟨key, roleId, false⟩

/-- The rows of a mutation over a current revision, without the audit. -/
def writeRows (db : Tables) (current : ℕ) : Body → Except Raised (Response × Tables)
  | .putRole roleId description enabled =>
    match enabled with
    | none => error ⟨"23502", "null value in column \"enabled\""⟩
    | some enabled =>
      let row : RoleRow := ⟨description.getD "", enabled, current + 1⟩
      ok (.role roleId row.description enabled row.revision,
        { db with roles := db.roles.insert roleId row })
  | .replaceSubjectRoles key roles enabled =>
    match enabled with
    | none => error ⟨"23502", "null value in column \"enabled\""⟩
    | some enabled =>
      let written : Tables :=
        { db with
          subjects := db.subjects.insert key ⟨enabled, current + 1⟩
          bindings := replaceBindings db key (roles.getD []) }
      ok (.subject key ((written.activeRoles key).insertionSort (· ≤ ·)) enabled (current + 1),
        written)

/-- The audit row of an accepted call. -/
def Call.auditRow (call : Call) (response : Response) : AuditRow where
  idempotencyKey := call.mutation.idempotencyKey
  requestId := call.mutation.requestId
  actor := call.mutation.actor
  operation := call.body.operation
  target := call.body.target
  beforeRevision := response.revision - 1
  afterRevision := response.revision
  response := response

/-- The writes of a call over a current revision; the key of an audit row is unique. -/
def writeCall (db : Tables) (current : ℕ) (call : Call) : Except Raised (Response × Tables) :=
  match writeRows db current call.body with
  | error e => error e
  | ok (response, written) =>
    if (db.auditOf call.mutation.idempotencyKey).isSome then
      error ⟨"23505", "duplicate key value violates unique constraint"⟩
    else ok (response, { written with audit := written.audit ++ [call.auditRow response] })

/-- What both functions do. -/
def mutate (db : Tables) (call : Call) : Except Raised (Response × Tables) := do
  checkMutation call.mutation
  match db.auditOf call.mutation.idempotencyKey with
  | some row =>
    let response ← answerUsedKey row call.body
    return (response, db)
  | none =>
    checkBody db call.body
    let current := db.revisionOf call.body.target
    checkRevision call.body.target call.mutation.expectedRevision current
    writeCall db current call

/-- `gateway_rbac_put_role`. -/
def gatewayRbacPutRole (db : Tables) (actor requestId idempotencyKey roleId : String)
    (description : Option String) (enabled : Option Bool) (expectedRevision : Option ℤ) :
    Except Raised (Response × Tables) :=
  mutate db ⟨⟨actor, requestId, idempotencyKey, expectedRevision⟩,
    .putRole roleId description enabled⟩

/-- `gateway_rbac_replace_subject_roles`. -/
def gatewayRbacReplaceSubjectRoles (db : Tables)
    (actor requestId idempotencyKey issuer subject : String) (roles : Option (List String))
    (enabled : Option Bool) (expectedRevision : Option ℤ) : Except Raised (Response × Tables) :=
  mutate db ⟨⟨actor, requestId, idempotencyKey, expectedRevision⟩,
    .replaceSubjectRoles ⟨issuer, subject⟩ roles enabled⟩

/-! ### The store -/

/-- The authorization state `Subject` resolves. -/
structure Subject where
  key : SubjectKey
  roles : List String := []
  enabled : Bool := false
  revision : ℕ := 0
  deriving DecidableEq

/-- `Store.Subject`: one query for the subject and one, later, for the roles. -/
def subject (db later : Tables) (key : SubjectKey) : Subject :=
  match db.subjects.lookup key with
  | none => { key := key }
  | some row =>
    if row.enabled then
      { key := key
        roles := ((later.activeRoles key).filter later.roleEnabled).insertionSort (· ≤ ·)
        enabled := true
        revision := row.revision }
    else { key := key, enabled := false, revision := row.revision }

/-! ### Bindings -/

section Bindings

variable {db : Tables} {key key' : SubjectKey} {roles : List String} {roleId : String}

/-- The roles in force after a replacement, list by list. -/
theorem activeRoles_replaced (db written : Tables)
    (h : written.bindings = replaceBindings db key roles) (key' : SubjectKey) :
    written.activeRoles key' =
      if key' = key then (db.activeRoles key).filter (fun roleId => decide (roleId ∈ roles)) ++
        roles.dedup.filter fun roleId => decide (roleId ∉ db.activeRoles key)
      else db.activeRoles key' := by
  have hold : ((db.bindings.map fun b =>
        if b.subject = key ∧ b.roleId ∉ roles then { b with revoked := true } else b).filter
          fun b => decide (b.subject = key') && !b.revoked).map Binding.roleId =
      if key' = key then (db.activeRoles key).filter (fun roleId => decide (roleId ∈ roles))
      else db.activeRoles key' := by
    simp only [Tables.activeRoles]
    induction db.bindings with
    | nil => split <;> rfl
    | cons b rest ih =>
      rw [List.map_cons, List.filter_cons]
      by_cases hkey : key' = key
      · subst hkey
        simp only [if_true] at ih ⊢
        by_cases hb : b.subject = key'
        · by_cases hrole : b.roleId ∈ roles <;> cases hrev : b.revoked <;>
            simp [hb, hrole, hrev, ih]
        · simp [hb, ih]
      · simp only [if_neg hkey] at ih ⊢
        by_cases hb : b.subject = key'
        · cases hrev : b.revoked <;> simp [hb, hkey, hrev, ih]
        by_cases hrevok : b.subject = key ∧ b.roleId ∉ roles
        · have hne : ¬ key = key' := fun h => hkey h.symm
          simp [hrevok, hne, ih]
        · simp [hrevok, hb, ih]
  have hnew : (((roles.dedup.filter fun roleId => decide (roleId ∉ db.activeRoles key)).map
        fun roleId => (⟨key, roleId, false⟩ : Binding)).filter
          fun b => decide (b.subject = key') && !b.revoked).map Binding.roleId =
      if key' = key then roles.dedup.filter fun roleId => decide (roleId ∉ db.activeRoles key)
      else [] := by
    by_cases hkey : key' = key
    · subst hkey
      simp [List.filter_map, Function.comp_def]
    · have hne : ¬ key = key' := fun h => hkey h.symm
      simp [List.filter_map, Function.comp_def, hne, hkey]
  rw [Tables.activeRoles, h, replaceBindings, List.filter_append, List.map_append, hold, hnew]
  split <;> simp

/-- **The roles in force after a replacement are the requested ones.** -/
theorem mem_activeRoles_replaced (db written : Tables)
    (h : written.bindings = replaceBindings db key roles) :
    roleId ∈ written.activeRoles key ↔ roleId ∈ roles := by
  rw [activeRoles_replaced db written h, if_pos rfl, List.mem_append, List.mem_filter,
    List.mem_filter, List.mem_dedup]
  by_cases hact : roleId ∈ db.activeRoles key <;> simp [hact]

/-- **No role is in force twice after a replacement**, when none was before. -/
theorem nodup_activeRoles_replaced (db written : Tables)
    (h : written.bindings = replaceBindings db key roles)
    (hnod : ∀ key', (db.activeRoles key').Nodup) (key' : SubjectKey) :
    (written.activeRoles key').Nodup := by
  rw [activeRoles_replaced db written h]
  split
  · refine List.Nodup.append ((hnod key).filter _) ((List.nodup_dedup roles).filter _) ?_
    intro roleId hold hnew
    simp only [List.mem_filter, decide_eq_true_eq] at hold hnew
    exact hnew.2 hold.1
  · exact hnod key'

end Bindings

end Flory.Rbac
