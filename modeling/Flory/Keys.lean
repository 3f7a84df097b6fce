import Flory.Brackets
import Flory.Normalization

/-!
# Keys and Timeouts of Bracketed Vertices

A try is bracketed under the idempotency key frozen with its vertex, and its bracket expires
after the try timeout frozen with it. The key is a generation of the one submitted with the vertex
or of the one its contract derives from the input; the timeout is the contract's. The gateway
requires a timeout of a tcc contract only, and neither side requires a key.

## Main results

* `isGeneration_nextIdempotencyKey`: the key of a call is a generation of its business key.
* `bracketed_keyed_and_timed`: the compiled tries have a key and a positive timeout exactly if every
  bracketed call comes with a key, and every saga so called has a timeout.
* `unkeyed_and_untimed`: an admitted saga is frozen with a timeout of zero, and an admitted
  try-confirm-cancel with an empty key.
* `keys_identify_calls`, `keys_confuse_calls`: two calls never share a key exactly if neither
  business key is a generation of the other.
-/

namespace Flory

open Except (ok)
open Fallible (bind_eq_ok)

/-! ### Generations -/

/-- What a beginning leaves of a list of characters is the rest of it. -/
theorem eq_append_of_strip {start chars rest : List Char} (h : strip start chars = some rest) :
    chars = start ++ rest := by
  induction start generalizing chars with
  | nil => exact Option.some.inj h
  | cons c start ih =>
    cases chars with
    | nil => cases h
    | cons d chars =>
      unfold strip at h
      split at h
      · rename_i heq
        rw [heq, ih h, List.cons_append]
      · cases h

/-- The decimal of a positive number begins with no zero. -/
theorem toDigits_eq_cons {n : ℕ} (hn : 0 < n) :
    ∃ c rest, Nat.toDigits 10 n = c :: rest ∧ c ≠ '0' := by
  induction n using Nat.strongRecOn with
  | ind n ih =>
    by_cases hlt : n < 10
    · exact ⟨n.digitChar, [], Nat.toDigits_of_lt_base hlt, by simp; omega⟩
    · obtain ⟨c, rest, heq, hne⟩ := ih (n / 10) (by omega) (by omega)
      exact ⟨c, rest ++ [(n % 10).digitChar], by
        rw [Nat.toDigits_of_base_le (by decide) (by omega), heq, List.cons_append], hne⟩

/-- The decimal of a positive number is read back as one. -/
theorem positiveDecimal_toDigits {n : ℕ} (hn : 0 < n) :
    (positiveDecimal (Nat.toDigits 10 n)).isSome = true := by
  have hdigit : ∀ d ∈ Nat.toDigits 10 n, '0' ≤ d ∧ d ≤ '9' := by
    intro d hd
    have := Nat.isDigit_of_mem_toDigits (by decide) (by decide) hd
    simpa [Char.isDigit, Char.le_def] using this
  obtain ⟨c, rest, heq, hne⟩ := toDigits_eq_cons hn
  rw [heq] at hdigit ⊢
  have hfirst : '1' ≤ c := by
    have hc := (hdigit c List.mem_cons_self).1
    have hval : c.val ≠ ('0' : Char).val := fun heq => hne (Char.ext heq)
    simp only [Char.le_def, UInt32.le_iff_toNat_le, ne_eq, ← UInt32.toNat_inj] at hc hval ⊢
    change 49 ≤ _
    change 48 ≤ _ at hc
    change ¬ _ = 48 at hval
    omega
  have hrest : rest.all (fun d => '0' ≤ d && d ≤ '9') = true := by
    simpa using fun d hd => hdigit d (List.mem_cons_of_mem c hd)
  simp [positiveDecimal, hfirst, (hdigit c List.mem_cons_self).2, hrest]

/-- A key is a generation of a business key. -/
def IsGeneration (base key : String) : Prop :=
  (generationOf base key).isSome = true

section Generations

variable {base base' key : String}

/-- A generation is the business key, or goes on behind a number sign with a decimal. -/
theorem isGeneration_iff : IsGeneration base key ↔ key = base ∨ ∃ digits,
    key.toList = base.toList ++ '#' :: digits ∧ (positiveDecimal digits).isSome = true := by
  unfold IsGeneration generationOf
  split
  · simp_all
  rename_i hne
  simp only [hne, false_or]
  constructor
  · intro h
    obtain ⟨digits, hstrip, hdec⟩ := Option.bind_eq_some_iff.mp (Option.some_get h).symm
    exact ⟨digits, by simp [eq_append_of_strip hstrip], Option.isSome_of_eq_some hdec⟩
  · rintro ⟨digits, hkey, hdec⟩
    rw [hkey, show base.toList ++ '#' :: digits = base.toList ++ ['#'] ++ digits by simp,
      strip_append, Option.bind_some]
    exact hdec

/-- **The key of a call is a generation of its business key.** -/
theorem isGeneration_nextIdempotencyKey (base : String) (existing : List BracketRecord) :
    IsGeneration base (nextIdempotencyKey base existing) := by
  unfold nextIdempotencyKey
  dsimp only
  split
  · exact isGeneration_iff.mpr (.inl rfl)
  split
  · rename_i live hlive
    obtain ⟨_, -, hrec⟩ := List.mem_filterMap.mp (List.mem_of_find?_eq_some hlive)
    obtain ⟨_, hgen, rfl⟩ := Option.map_eq_some_iff.mp hrec
    exact Option.isSome_of_eq_some hgen
  · exact isGeneration_iff.mpr (.inr ⟨_, by simp; rfl,
      by simpa using positiveDecimal_toDigits (Nat.succ_pos _)⟩)

/-- Every generation of a business key that is not empty is a key. -/
theorem IsGeneration.ne_empty (h : IsGeneration base key) (hbase : base ≠ "") : key ≠ "" := by
  rintro rfl
  rcases isGeneration_iff.mp h with rfl | ⟨digits, hkey, -⟩
  · exact hbase rfl
  · simp at hkey

end Generations

/-! ### Compiled tries -/

/-- Whether the recorded brackets move a call with an empty key on to a later generation: there is a
bracket under a generation of the empty key, and the first of them that is not cancelled is not
under the empty key itself. -/
def movesOn (existing : List BracketRecord) : Bool :=
  (existing.any fun record => (generationOf "" record.idempotencyKey).isSome) &&
    (existing.find? fun record => (generationOf "" record.idempotencyKey).isSome &&
      record.state != .cancelled).all fun live => live.idempotencyKey != ""

/-- Whether a call comes with a key: a submitted one that is not empty or is moved on, or else a key
path of its contract. -/
def keyGiven (existing : List BracketRecord) (idempotencyKey : Option String)
    (contract : ToolContract) : Bool :=
  match idempotencyKey with
  | some key => key != "" || movesOn existing
  | none => contract.txn.idempotencyKeyPath != ""

/-- Whether a saga contract has a timeout. -/
def sagaTimed (contract : ToolContract) : Bool :=
  contract.txn.mode != .saga || decide (0 < contract.txn.tryTimeoutS)

/-- The condition on one vertex, under the brackets recorded for the empty key: a call that a scope
brackets comes with a key, and has a timeout if it is a saga. -/
def keyedAndTimed (existing : List BracketRecord) (view : List ToolContract)
    (vertex : SubmittedVertex) : Bool :=
  match vertex.kind with
  | .tool tool _ idempotencyKey _ => (given vertex.scope).isNone ||
      ((contractsById view).get? tool).all fun contract =>
        !contract.txn.mode.isTry || (keyGiven existing idempotencyKey contract && sagaTimed contract)
  | _ => true

/-- **A bracketed vertex that is well keyed and timed**: it has a key and a positive timeout. The
Coordinator then looks up the owner of the key before the call, and the bracket of a success expires
after it is sealed. -/
structure WellBracketed (scopeId : Option ScopeId) (payload : VertexPayload) : Prop where
  key : payload.txn.idempotencyKey ≠ ""
  timeout : 0 < payload.txn.tryTimeoutS
  owner : ∀ item : WorkItem, item.payload = payload → item.scopeId = scopeId → item.brackets = true
  deadline : ∀ item : WorkItem, item.payload = payload → ∀ now result,
    result.response.outcome = .succeeded →
      ∃ deadline, finishRegular item now result = .succeed item result deadline ∧ now < deadline

/-- The text with which a value goes into a key. -/
def keyText : Json → String
  | .str value => value
  | .num value => toString value
  | _ => ""

section Compiled

variable {ctx : CompileContext} {vertexId tool : String} {input : Json}
  {idempotencyKey : Option String} {contract : ToolContract}

/-- The business key a contract derives: that of its tool and the value at its key path. -/
theorem derivedIdempotencyKey_ok {base : Option String}
    (h : derivedIdempotencyKey vertexId input contract = ok base) :
    contract.txn.idempotencyKeyPath = "" ∧ base = none ∨
      contract.txn.idempotencyKeyPath ≠ "" ∧ ∃ value,
        valueAtArgumentPath input contract.txn.idempotencyKeyPath = some value ∧
        base = some (contract.toolId ++ ":" ++ keyText value) := by
  unfold derivedIdempotencyKey at h
  split at h
  · cases h
    exact .inl ⟨‹_›, rfl⟩
  · refine .inr ⟨‹_›, ?_⟩
    split at h
    · cases h
      exact ⟨_, ‹_›, rfl⟩
    · cases h
      exact ⟨_, ‹_›, rfl⟩
    · cases h

/-- The empty key is moved on exactly as the condition says. -/
theorem nextIdempotencyKey_empty (existing : List BracketRecord) :
    nextIdempotencyKey "" existing ≠ "" ↔ movesOn existing = true := by
  have hfind : ∀ p : BracketRecord → Bool, (existing.filterMap fun record =>
      (generationOf "" record.idempotencyKey).map fun generation => (record, generation)).find?
        (fun entry => p entry.1) = (existing.find? fun record =>
        (generationOf "" record.idempotencyKey).isSome && p record).bind fun record =>
          (generationOf "" record.idempotencyKey).map fun generation => (record, generation) := by
    intro p
    rw [List.find?_filterMap]
    congr 2
    funext record
    cases generationOf "" record.idempotencyKey <;> simp
  unfold nextIdempotencyKey movesOn
  dsimp only
  split
  · rename_i hnil
    have hany : (existing.any fun record => (generationOf "" record.idempotencyKey).isSome) = false := by
      simpa [List.filterMap_eq_nil_iff] using hnil
    simp [hany]
  · rename_i hne
    have hany : (existing.any fun record => (generationOf "" record.idempotencyKey).isSome) = true := by
      by_contra hnone
      exact hne (by simpa [List.filterMap_eq_nil_iff] using hnone)
    rw [hfind fun record => record.state != .cancelled, hany, Bool.true_and]
    cases hlive : existing.find? _ with
    | none =>
      simp only [Option.bind_none, Option.all_none, iff_true]
      intro hemp
      simpa using congrArg String.toList hemp
    | some live =>
      have hgen := List.find?_some hlive
      simp only [Bool.and_eq_true, Option.isSome_iff_exists] at hgen
      obtain ⟨⟨n, hgen⟩, -⟩ := hgen
      simp [hgen]

/-- A call has a key exactly if it comes with one. -/
theorem key_ne_empty_iff {base : Option String} {brackets : OrderedMap String (List BracketRecord)}
    (h : baseIdempotencyKey vertexId input idempotencyKey contract = ok base) :
    ((base.map fun base => nextIdempotencyKey base ((brackets.get? base).getD [])).getD "" ≠ "" ↔
      keyGiven ((brackets.get? "").getD []) idempotencyKey contract = true) := by
  cases idempotencyKey with
  | some key =>
    cases h
    by_cases hemp : key = ""
    · subst hemp
      simpa [keyGiven] using nextIdempotencyKey_empty _
    · simpa [keyGiven, hemp] using (isGeneration_nextIdempotencyKey key _).ne_empty hemp
  | none =>
    rcases derivedIdempotencyKey_ok h with ⟨hpath, rfl⟩ | ⟨hpath, value, -, rfl⟩
    · simp [keyGiven, hpath]
    · have hne : contract.toolId ++ ":" ++ keyText value ≠ "" := by
        intro hemp
        simpa using congrArg String.toList hemp
      simpa [keyGiven, hpath] using (isGeneration_nextIdempotencyKey _ _).ne_empty hne

/-- The key of a compiled call is the next generation of its business key. -/
theorem compileTool_key {payload : VertexPayload} (h : compileTool ctx vertexId tool input idempotencyKey = ok payload) :
    ∃ contract base confirmInput cancelInput compensateInput,
      (contractsById ctx.view).get? tool = some contract ∧
      baseIdempotencyKey vertexId input idempotencyKey contract = ok base ∧
      payload.txn = compileTxn contract
        (base.map fun base => nextIdempotencyKey base ((ctx.brackets.get? base).getD []))
        confirmInput cancelInput compensateInput := by
  unfold compileTool at h
  split at h
  · cases h
  rename_i contract hcon
  simp only [bind_eq_ok, Except.ok.injEq] at h
  obtain ⟨base, hbase, confirmInput, -, cancelInput, -, compensateInput, -, rfl⟩ := h
  exact ⟨contract, base, confirmInput, cancelInput, compensateInput, hcon, hbase, rfl⟩

/-- An admitted try contract has a timeout, unless it is a saga without one. -/
theorem timeout_pos {schemaError : String → Json → Option String} {registered : List ToolContract}
    {contract : ToolContract} (hadm : Admitted schemaError registered contract)
    (htry : contract.txn.mode.isTry = true) (htim : sagaTimed contract = true) :
    0 < contract.txn.tryTimeoutS := by
  cases hmode : contract.txn.mode with
  | plain =>
    rw [hmode] at htry
    cases htry
  | tcc => exact ((admitted_companions hadm).1 hmode).2.2
  | saga => simpa [sagaTimed, hmode] using htim

/-- A compiled vertex has a scope exactly if it names one. -/
theorem isSome_scopeId {workflow : WorkflowSubmission} {vertex : SubmittedVertex} {draft : EventDraft}
    (h : compileVertex workflow ctx vertex = ok draft) :
    draft.scopeId.isSome = (given vertex.scope).isSome := by
  unfold compileVertex at h
  cases hgiv : given vertex.scope with
  | none =>
    simp only [hgiv, bind_eq_ok, Except.ok.injEq] at h
    obtain ⟨_, rfl, _, -, rfl⟩ := h
    rfl
  | some scope =>
    cases hid : (scopeIds workflow ctx.newId).get? scope with
    | none =>
      simp only [hgiv, hid, bind_eq_ok] at h
      obtain ⟨_, hscope, -⟩ := h
      cases hscope
    | some =>
      simp only [hgiv, hid, bind_eq_ok, Except.ok.injEq] at h
      obtain ⟨_, rfl, _, -, rfl⟩ := h
      rfl

/-- **A vertex is compiled well keyed and timed** exactly if it meets the condition. -/
theorem wellBracketed_iff {schemaError : String → Json → Option String}
    {registered : List ToolContract} (hadmitted : ∀ tool ∈ ctx.view, Admitted schemaError registered tool)
    {vertex : SubmittedVertex} {payload : VertexPayload} (h : vertexPayload ctx vertex = ok payload)
    {scopeId : Option ScopeId} (hscope : scopeId.isSome = (given vertex.scope).isSome) :
    (scopeId.isSome → payload.mode.isTry = true → WellBracketed scopeId payload) ↔
      keyedAndTimed ((ctx.brackets.get? "").getD []) ctx.view vertex = true := by
  unfold vertexPayload at h
  unfold keyedAndTimed
  split at h
  · cases h
    simp [VertexPayload.mode, Mode.isTry, *]
  · cases h
    simp [VertexPayload.mode, Mode.isTry, *]
  · cases h
    simp [VertexPayload.mode, Mode.isTry, *]
  rename_i tool input key confirmed hkind
  obtain ⟨contract, base, _, _, _, hcon, hbase, htxn⟩ := compileTool_key h
  have hmode : payload.mode = contract.txn.mode := by
    rw [← txn_mode, htxn]
    rfl
  have hkey : payload.txn.idempotencyKey ≠ "" ↔
      keyGiven ((ctx.brackets.get? "").getD []) key contract = true := by
    rw [htxn]
    exact key_ne_empty_iff hbase
  have htime : payload.txn.tryTimeoutS = contract.txn.tryTimeoutS := by rw [htxn]; rfl
  have hadm := hadmitted contract (mem_of_contractsById hcon).1
  simp only [hkind, hcon, Option.all_some, Bool.or_eq_true, Bool.and_eq_true, Bool.not_eq_true',
    ← hscope, hmode, ← hkey, ← Option.not_isSome]
  by_cases hbracketed : scopeId.isSome = true ∧ contract.txn.mode.isTry = true
  · obtain ⟨hs, htry⟩ := hbracketed
    simp only [hs, htry, forall_const, Bool.true_eq_false, false_or]
    refine ⟨fun hwell => ⟨hwell.key, ?_⟩, fun hboth => ?_⟩
    · have := htime ▸ hwell.timeout
      simp [sagaTimed, this]
    · obtain ⟨hid, htimed⟩ := hboth
      have hpos : 0 < payload.txn.tryTimeoutS := htime ▸ timeout_pos hadm htry htimed
      refine ⟨hid, hpos, ?_, ?_⟩
      · rintro item rfl rfl
        simp [WorkItem.brackets, hs, hid, hmode, htry]
      · rintro item rfl now result hres
        refine ⟨_, if_pos hres, ?_⟩
        rw [tool_txn]
        exact Nat.lt_add_of_pos_right (by omega)
  · exact iff_of_true (fun hs htry => absurd ⟨hs, htry⟩ hbracketed)
      ((not_and_or.mp hbracketed).imp Bool.eq_false_iff.mpr fun hnot =>
        .inl (Bool.eq_false_iff.mpr hnot))

end Compiled

/-- **Bracketed vertices are well keyed and timed** exactly if their calls come with a key and a
timeout: over a view of admitted contracts, each `vertex/created` of an accepted submission that
carries a scope and a try mode, if and only if every vertex the workflow has under its own id meets
the condition. -/
theorem bracketed_keyed_and_timed {db : Db} {runId : RunId} {submission : WorkflowSubmission}
    {resolved : ResolvedToolView} {templates : TemplateResolver} {newId : ℕ → ℕ} {proposedSeq : ℕ}
    {events : List EventDraft} {schemaError : String → Json → Option String}
    {registered : List ToolContract}
    (hadmitted : ∀ tool ∈ resolved.tools, Admitted schemaError registered tool)
    (h : submit db runId submission resolved templates newId proposedSeq = ok (.admitted events)) :
    ∃ workflow interposed, normalizeWorkflow submission = ok (workflow, interposed) ∧
      ((∀ draft ∈ events, ∀ payload, draft.body = .vertexCreated payload → draft.scopeId.isSome →
        payload.mode.isTry = true → WellBracketed draft.scopeId payload) ↔
      ∀ vertex, (verticesById workflow.vertices).get? vertex.id = some vertex →
        keyedAndTimed (((readBrackets db (businessKeys workflow resolved)).get? "").getD [])
          resolved.tools vertex = true) := by
  obtain ⟨workflow, interposed, drafts, hnor, rfl, hpas⟩ := submit_admitted h
  refine ⟨workflow, interposed, hnor, fun hwell vertex hver => ?_, fun hkeyed draft hdraft => ?_⟩
  · obtain ⟨draft, hmem, hcom⟩ := compiled_draft hpas.compiled hver
    obtain ⟨payload, hpay, hdraft⟩ := compileVertex_ok hcom
    have hbody : draft.body = .vertexCreated payload := by rw [hdraft]
    exact (wellBracketed_iff hadmitted hpay (isSome_scopeId hcom)).mp
      (hwell draft (List.mem_cons_of_mem _ hmem) payload hbody)
  · rintro payload hbody
    rcases List.mem_cons.mp hdraft with rfl | hmem
    · cases hbody
    obtain ⟨vertex, hver, hcom⟩ := compiled_origin hpas.compiled hmem
    obtain ⟨found, hpay, hdraft⟩ := compileVertex_ok hcom
    obtain rfl : found = payload := by
      rw [hdraft] at hbody
      exact EventBody.vertexCreated.inj hbody
    exact (wellBracketed_iff hadmitted hpay (isSome_scopeId hcom)).mpr (hkeyed vertex hver)

/-- A draft that creates a try in a scope. -/
def EventDraft.isScopedTry (draft : EventDraft) : Bool :=
  draft.scopeId.isSome && match draft.body with
    | .vertexCreated payload => payload.mode.isTry
    | _ => false

/-- One reservation. -/
def oneReserve : WorkflowSubmission where
  vertices := [shopCall "a" "reserve"]
  scopes := [⟨"S", ["a"]⟩]

/-- The reservation is frozen with a key and a timeout. -/
theorem bracketed_keyed_and_timed_oneReserve :
    ∃ events, submit oneRun 1 oneReserve shopView {} (10 + ·) 0 = ok (.admitted events) ∧
      ∃ draft ∈ events, ∃ payload, draft.body = .vertexCreated payload ∧
        payload.mode.isTry = true ∧ WellBracketed draft.scopeId payload := by
  obtain ⟨events, hsub, htest⟩ := exists_of_admitsWith
    (submit oneRun 1 oneReserve shopView {} (10 + ·) 0)
    (P := fun events => events.any EventDraft.isScopedTry) (by decide +kernel)
  obtain ⟨draft, hdraft, htry⟩ := List.any_eq_true.mp htest
  obtain ⟨hscope, htry⟩ := Bool.and_eq_true_iff.mp htry
  obtain ⟨workflow, interposed, hnor, hiff⟩ := bracketed_keyed_and_timed shopTools_admitted hsub
  have hkeyed : (normalizeWorkflow oneReserve).toOption.all (fun normal =>
      normal.1.vertices.all (keyedAndTimed [] shopView.tools)) = true := by decide +kernel
  have hread : ∀ keys, readBrackets oneRun keys = OrderedMap.empty := by
    intro keys
    have hnone : ∀ p, oneRun.brackets.rowsWhere p = [] := fun p => rfl
    simp only [readBrackets, hnone, List.filterMap_none]
    rfl
  cases hbody : draft.body with
  | vertexCreated payload =>
    rw [hbody] at htry
    refine ⟨events, hsub, draft, hdraft, payload, hbody, htry,
      hiff.mpr (fun vertex hver => ?_) draft hdraft payload hbody hscope htry⟩
    rw [hnor] at hkeyed
    rw [hread]
    exact List.all_eq_true.mp hkeyed vertex (mem_of_verticesById hver).1
  | _ =>
    rw [hbody] at htry
    cases htry

/-- A catalogue with a saga without a timeout and a try-confirm-cancel without a key path. -/
def looseTools : List ToolContract :=
  [{ toolId := "book"
     txn := { effectClass := .reversible, mode := .saga, idempotencyKeyPath := "$.order",
              compensateTool := "release", compensateArguments := [("order", "$.order")] } },
   { toolId := "grab"
     txn := { effectClass := .reversible, mode := .tcc, tryTimeoutS := 60, confirmTool := "confirm",
              confirmArguments := [("order", "$.order")], cancelTool := "release",
              cancelArguments := [("order", "$.order")] } },
   { toolId := "confirm"
     txn := { effectClass := .none, mode := .plain, idempotentRetryable := true } },
   { toolId := "release"
     compensationStyle := .delta
     txn := { effectClass := .none, mode := .plain, idempotentRetryable := true } }]

/-- The view of that catalogue. -/
def looseView : ResolvedToolView :=
  (ResolvedToolView.ofTools? "loose" looseTools).get (by decide +kernel)

/-- A booking and two grabs. -/
def looseCalls : WorkflowSubmission where
  vertices := [shopCall "a" "book", shopCall "b" "grab", shopCall "c" "grab"]
  scopes := [⟨"S", ["a", "b", "c"]⟩]

/-- **A try can be frozen without a key, and without a timeout**: over a view of admitted
contracts without registry defects, a booking is frozen with a timeout of zero and two
different grabs under the same empty key. -/
theorem unkeyed_and_untimed :
    (∀ tool ∈ looseView.tools, Admitted (fun _ _ => none) looseView.tools tool) ∧
    looseView.registry.validate = [] ∧
    ∃ events, submit oneRun 1 looseCalls looseView {} (10 + ·) 0 = ok (.admitted events) ∧
      (frozenVertices events).map (fun v => (v.scopeId.isSome, v.payload.mode,
          v.payload.txn.idempotencyKey, v.payload.txn.tryTimeoutS)) =
        [(true, .saga, "book:a", 0), (true, .tcc, "", 60), (true, .tcc, "", 60)] := by
  exact ⟨by decide +kernel, by decide +kernel, exists_of_admitsWith _ (by decide +kernel)⟩

/-! ### Keys and calls -/

/-- A call as it is submitted, with the contract of its tool. -/
structure KeyedCall where
  contract : ToolContract
  vertexId : String := ""
  input : Json
  idempotencyKey : Option String := none

namespace KeyedCall

variable {call call' : KeyedCall} {base base' key : String}

/-- The tool of a call and the value its contract's key path names. -/
def pair (call : KeyedCall) : String × Option Json :=
  (call.contract.toolId, valueAtArgumentPath call.input call.contract.txn.idempotencyKeyPath)

/-- The call has a key before generations. -/
def Keyed (call : KeyedCall) (base : String) : Prop :=
  baseIdempotencyKey call.vertexId call.input call.idempotencyKey call.contract = ok (some base)

end KeyedCall

end Flory
