import Flory.PublishedViews
import Mathlib.Data.List.Sublists

/-!
# The Order of Registrations

Services register in whatever order they start. Over a set of well-formed contracts under
different keys, with every route healthy and every role enabled, the contracts that are not
rejected depend on the set alone; whether one of them is admitted depends on the versions of its
companions that were there when it was resolved, because it is never resolved again.

The order does not show exactly if no contract depends on it: one that could be admitted together
with the versions that are fit for it has no unfit version in the set.

## Main results

* `RecordsOf.batch`: what a batch leaves: the contracts that are not rejected are those seen so
  far, and the admitted ones are those whose companions resolve among them.
* `registration_order_free`: every order and batching ends with the same digest, exactly if the
  companions of the set are settled.
* `registration_order_shows`: an unfit version that comes late is published beside a contract
  that it would have kept out.
-/

namespace Flory

open Except (ok)
open Fallible (bind_eq_ok)

/-! ### The order of a view -/

/-- Contracts that precede each other have the same key. -/
theorem key_eq_of_precedes {a b : ToolContract} (hab : a.precedes b = true)
    (hba : b.precedes a = true) : a.key = b.key := by
  unfold ToolContract.precedes at hab hba
  by_cases hid : a.toolId = b.toolId
  · simp only [hid, if_true, decide_eq_true_eq] at hab hba
    simp [ToolContract.key, hid, String.le_antisymm hab hba]
  · simp only [hid, Ne.symm hid, if_false, decide_eq_true_eq] at hab hba
    exact absurd (String.lt_trans hab hba) (String.lt_irrefl _)

instance : Std.Total fun a b : ToolContract => a.precedes b = true where
  total a b := by
    unfold ToolContract.precedes
    by_cases hid : a.toolId = b.toolId
    · simpa [hid] using String.le_total a.toolVersion b.toolVersion
    simp only [hid, Ne.symm hid, if_false, decide_eq_true_eq]
    rcases String.le_total a.toolId b.toolId with hle | hle
    · exact .inl (Std.lt_of_le_of_ne hle hid)
    · exact .inr (Std.lt_of_le_of_ne hle (Ne.symm hid))

instance : IsTrans ToolContract fun a b => a.precedes b = true where
  trans a b c hab hbc := by
    unfold ToolContract.precedes at hab hbc ⊢
    by_cases hab' : a.toolId = b.toolId <;> by_cases hbc' : b.toolId = c.toolId
    · simp only [hab', hbc', if_true, decide_eq_true_eq] at hab hbc ⊢
      exact String.le_trans hab hbc
    · simp only [hab', hbc', if_false, decide_eq_true_eq] at hbc ⊢
      exact hbc
    · simp only [← hbc', hab', if_false, decide_eq_true_eq] at hab ⊢
      exact hab
    simp only [hab', hbc', if_false, decide_eq_true_eq] at hab hbc
    have hlt := String.lt_trans hab hbc
    have hne : a.toolId ≠ c.toolId := fun heq => String.lt_irrefl _ (heq ▸ hlt)
    simp [hne, hlt]

/-- **A view does not depend on the order of its contracts**, if their keys differ. -/
theorem build_perm (codec : Codec) {first second : List ToolContract} (hperm : first.Perm second)
    (hkeys : ∀ a ∈ first, ∀ b ∈ first, a.key = b.key → a = b) :
    build codec first = build codec second := by
  have hsor : first.insertionSort (fun a b => a.precedes b = true) =
      second.insertionSort (fun a b => a.precedes b = true) := by
    have hfir := List.perm_insertionSort (fun a b : ToolContract => a.precedes b = true) first
    have hsec := List.perm_insertionSort (fun a b : ToolContract => a.precedes b = true) second
    refine List.Perm.eq_of_pairwise (fun a b ha hb hab hba => ?_) (List.pairwise_insertionSort _ _)
      (List.pairwise_insertionSort _ _) (hfir.trans (hperm.trans hsec.symm))
    exact hkeys a (hfir.mem_iff.mp ha) b (hperm.mem_iff.mpr (hsec.mem_iff.mp hb))
      (key_eq_of_precedes hab hba)
  rw [build, build, hsor]

/-! ### A set of contracts -/

section Set

variable {codec : Codec} {tools : List ToolContract}
  {env : RegistryEnv} {seen : List ToolContract} {records : Records codec}
  {tool : ToolContract}

/-- Well-formed contracts under different keys: each can be encoded, and its input schema compiles
when it is published. -/
structure WellFormed (codec : Codec) (tools : List ToolContract) : Prop where
  distinct : (tools.map ToolContract.key).Nodup
  encoded : ∀ tool ∈ tools, ∃ canonical, codec.canonical tool = ok canonical
  compiled : ∀ tool ∈ tools, codec.schemaError tool.key.name tool.inputSchema = none

/-- An environment in which every route is healthy, every role enabled, and the blob store takes
what it is given. -/
structure Healthy (env : RegistryEnv) : Prop where
  routable : ∀ route, env.routable route = true
  roles : ∀ roleEnabled, env.roleEnabled = some roleEnabled → ∀ role, roleEnabled role = ok true
  put : env.put = ok ()

/-- Whether a contract is one the gateway would take by itself. -/
def structured (codec : Codec) (tool : ToolContract) : Bool :=
  (validateStructure codec.schemaError tool).isNone

/-- The digest tells the views of a set apart: neither the encoding nor the hash has a collision
among them. -/
def ToldApart (codec : Codec) (tools : List ToolContract) : Prop :=
  ∀ first ∈ tools.sublists, ∀ second ∈ tools.sublists,
    (build codec first).toOption.map PublishedView.digest =
      (build codec second).toOption.map PublishedView.digest →
    first.map ToolContract.key = second.map ToolContract.key

/-- The contracts of a set that are fit for another as versions of the companions it names. -/
def fitVersions (codec : Codec) (tools : List ToolContract) (tool : ToolContract) :
    List ToolContract :=
  tools.filter fun candidate => structured codec candidate && (companions tool).all fun companion =>
    candidate.toolId != companion || (resolveVersion tool companion candidate).isNone

/-- The condition on a set: a contract that resolves with the versions fit for it resolves with all
that the set has. It can only fail for a contract that has both a fit version of each companion and
an unfit version of one. -/
def settledCompanions (codec : Codec) (tools : List ToolContract) : Bool :=
  tools.all fun tool => !structured codec tool ||
    (resolveCompanions (tool :: fitVersions codec tools tool) tool).isSome ||
    (resolveCompanions (tools.filter (structured codec)) tool).isNone

/-- **What is recorded of the contracts seen so far.** -/
structure Seen (codec : Codec) (seen : List ToolContract) (records : Records codec) : Prop where
  keyed : records.Keyed
  live : ∀ tool, tool ∈ records.live ↔ tool ∈ seen ∧ structured codec tool = true

/-- The roles of a contract are enabled. -/
theorem Healthy.checkRoles (h : Healthy env) (tool : ToolContract) :
    checkRoles env tool = ok none := by
  unfold Flory.checkRoles
  split
  · rfl
  rename_i roleEnabled hcat
  induction tool.allowedRoles with
  | nil => rfl
  | cons role rest ih =>
    unfold unknownRole
    rw [h.roles roleEnabled hcat role]
    exact ih

/-- The contracts of one encoding are one. -/
theorem Encoded.eq_of_tool {first second : Encoded codec} (h : first.tool = second.tool) :
    first = second := by
  obtain ⟨tool, _, henc⟩ := first
  obtain ⟨tool', _, henc'⟩ := second
  obtain rfl : tool = tool' := h
  obtain rfl := Except.ok.inj (henc.symm.trans henc')
  rfl

/-- A contract is recorded under its key. -/
theorem Seen.contractAt (h : Seen codec seen records) (htool : tool ∈ records.live) :
    ∃ contract, records.contractAt tool.key = some contract ∧ contract.tool = tool := by
  obtain ⟨key, contract, hcon, rfl⟩ := mem_live.mp htool
  rw [h.keyed key contract hcon]
  exact ⟨contract, hcon, rfl⟩

/-- One more contract is recorded under its key, unless it is rejected. -/
theorem Seen.insert {records' : Records codec} (h : Seen codec seen records)
    {contract : Encoded codec}
    (hfree : ∀ found, records.contractAt contract.tool.key = some found → found = contract)
    (hlook : ∀ key, records'.contractAt key =
      if key = contract.tool.key ∧ structured codec contract.tool = true then some contract
      else records.contractAt key) : Seen codec (contract.tool :: seen) records' := by
  refine ⟨fun key found hfound => ?_, fun tool => ?_⟩
  · rw [hlook] at hfound
    split at hfound
    · rename_i hkey
      cases hfound
      exact hkey.1.symm
    · exact h.keyed key found hfound
  · rw [List.mem_cons]
    constructor
    · intro htool
      obtain ⟨key, found, hfound, rfl⟩ := mem_live.mp htool
      rw [hlook] at hfound
      split at hfound
      · rename_i hkey
        cases hfound
        exact ⟨.inl rfl, hkey.2⟩
      · obtain ⟨hseen, hstr⟩ := (h.live found.tool).mp (mem_live.mpr ⟨key, found, hfound, rfl⟩)
        exact ⟨.inr hseen, hstr⟩
    · rintro ⟨rfl | hseen, hstr⟩
      · exact mem_live.mpr ⟨contract.tool.key, contract, by simp [hlook, hstr], rfl⟩
      obtain ⟨key, found, hfound, rfl⟩ := mem_live.mp ((h.live tool).mpr ⟨hseen, hstr⟩)
      refine mem_live.mpr ⟨key, found, ?_, rfl⟩
      rw [hlook]
      split
      · rename_i hkey
        rw [hkey.1] at hfound
        rw [hfree found hfound]
      · exact hfound

/-- A new contract is pending, unless it is rejected for what it is. -/
theorem Healthy.recordNew (h : Healthy env) (contract : Encoded codec) :
    ∃ record, recordNew env contract = ok record ∧ record.admitted? = none ∧
      record.contract? = if structured codec contract.tool = true then some contract else none := by
  unfold Flory.recordNew structured
  cases validateStructure codec.schemaError contract.tool with
  | some violation => exact ⟨.rejected violation, rfl, rfl, by simp [RegistryRecord.contract?]⟩
  | none =>
    refine ⟨.pending contract none, ?_, rfl, by simp [RegistryRecord.contract?]⟩
    simp [h.checkRoles]

/-- **A well-formed contract is recorded**, and nothing else changes. -/
theorem Seen.registerOne (henv : Healthy env) (hwell : WellFormed codec tools)
    (hseen : seen ⊆ tools) (h : Seen codec seen records) (htool : tool ∈ tools) :
    ∃ records', registerOne env records (.contract tool) = ok records' ∧
      Seen codec (tool :: seen) records' ∧ ∀ key, records'.admittedAt key = records.admittedAt key := by
  obtain ⟨contract, henc, rfl⟩ : ∃ contract, encode codec tool = ok contract ∧
      contract.tool = tool := by
    rcases encode_cases codec tool with ⟨contract, henc, heq, -⟩ | ⟨err, -, hmal⟩
    · exact ⟨contract, henc, heq⟩
    · obtain ⟨_, hcan⟩ := hwell.encoded tool htool
      simp [Transmitted.isMalformed, hcan] at hmal
  have hfree : ∀ found, records.contractAt contract.tool.key = some found → found = contract := by
    intro found hfound
    have hlive := (h.live found.tool).mp (mem_live.mpr ⟨_, found, hfound, rfl⟩)
    exact Encoded.eq_of_tool (List.inj_on_of_nodup_map hwell.distinct (hseen hlive.1) htool
      (h.keyed _ found hfound))
  -- The record after the turn, whatever it is.
  have hturn : ∃ record, recordOf env (records.lookup contract.tool.key) (.contract contract.tool) =
      ok record ∧ record.admitted? = records.admittedAt contract.tool.key ∧
      record.contract? = if structured codec contract.tool = true then some contract
        else records.contractAt contract.tool.key := by
    have hsame : ∀ existing stored, records.lookup contract.tool.key = some stored →
        stored.contract? = some existing →
        recordAgain contract.tool.key existing contract stored = stored ∧
          structured codec contract.tool = true := by
      intro existing stored hstor hexis
      have hat : records.contractAt contract.tool.key = some existing := by
        rw [Records.contractAt, hstor]
        exact hexis
      obtain rfl := hfree existing hat
      exact ⟨if_pos rfl, ((h.live existing.tool).mp (mem_live.mpr ⟨_, existing, hat, rfl⟩)).2⟩
    simp only [recordOf, henc, Records.admittedAt, Records.contractAt]
    cases hstor : records.lookup contract.tool.key with
    | none => exact henv.recordNew contract
    | some stored =>
      cases stored with
      | rejected => exact henv.recordNew contract
      | pending existing | admitted existing =>
        obtain ⟨hagain, hstr⟩ := hsame existing _ hstor rfl
        have heq := hfree existing (by rw [Records.contractAt, hstor]; rfl)
        exact ⟨_, congrArg ok hagain, rfl, by rw [if_pos hstr, ← heq]; rfl⟩
  obtain ⟨record, hrec, hadm, hcon⟩ := hturn
  refine ⟨records.insert contract.tool.key record, ?_, h.insert hfree fun key => ?_, fun key => ?_⟩
  · simp only [Flory.registerOne, Transmitted.key, hrec, Except.map]
  · rw [Records.contractAt, Table.lookup_insert_eq]
    by_cases hkey : key = contract.tool.key
    · subst hkey
      simp [hcon]
    · simp [hkey, Records.contractAt]
  · rw [Records.admittedAt, Table.lookup_insert_eq]
    split
    · rename_i hkey
      subst hkey
      exact hadm
    · rfl

/-- **A batch of well-formed contracts is recorded**, and nothing else changes. -/
theorem Seen.registerAll (henv : Healthy env) (hwell : WellFormed codec tools)
    {batch : List ToolContract} (hbat : batch ⊆ tools) (hseen : seen ⊆ tools)
    (h : Seen codec seen records) :
    ∃ records', registerAll env records (batch.map .contract) = (records', ok ()) ∧
      Seen codec (batch.reverse ++ seen) records' ∧
      ∀ key, records'.admittedAt key = records.admittedAt key := by
  induction batch generalizing seen records with
  | nil => exact ⟨records, rfl, h, fun _ => rfl⟩
  | cons tool rest ih =>
    obtain ⟨htool, hbat⟩ := List.cons_subset.mp hbat
    obtain ⟨_, hmid, hseen', hsame⟩ := h.registerOne henv hwell hseen htool
    obtain ⟨records', hrest, hdone, hsame'⟩ :=
      ih hbat (List.cons_subset.mpr ⟨htool, hseen⟩) hseen'
    refine ⟨records', ?_, ?_, fun key => (hsame' key).trans (hsame key)⟩
    · rw [List.map_cons, Flory.registerAll, hmid]
      exact hrest
    · rw [List.reverse_cons, List.append_assoc, List.singleton_append]
      exact hdone

/-- A contract that resolves together with some versions resolves with those that are fit. -/
theorem resolves_fit {few : List ToolContract} (hfew : ∀ t ∈ few, t ∈ tools ∧ structured codec t = true)
    (htool : tool ∈ few) (h : resolveCompanions few tool = none) :
    resolveCompanions (tool :: fitVersions codec tools tool) tool = none := by
  rw [resolveCompanions_eq_none] at h ⊢
  intro companion hcom
  obtain ⟨⟨candidate, hcan, hid⟩, hfit⟩ := h companion hcom
  refine ⟨⟨candidate, List.mem_cons_of_mem _ (List.mem_filter.mpr ⟨(hfew _ hcan).1, ?_⟩), hid⟩,
    fun other hother hoth => ?_⟩
  · simp only [(hfew _ hcan).2, Bool.true_and, List.all_eq_true, Bool.or_eq_true, bne_iff_ne,
      Option.isNone_iff_eq_none]
    exact fun other hother => (em _).elim (fun hsame => .inr ((h other hother).2 _ hcan hsame)) .inl
  · rcases List.mem_cons.mp hother with rfl | hother
    · exact hfit _ htool hoth
    obtain ⟨-, hall⟩ := List.mem_filter.mp hother
    simpa [hoth] using List.all_eq_true.mp (Bool.and_eq_true_iff.mp hall).2 companion hcom

/-- Companions that resolve among some versions resolve among more, where they are settled. -/
theorem resolves_mono (hsettled : settledCompanions codec tools = true)
    {few many : List ToolContract} (hsub : few ⊆ many)
    (hmany : ∀ t ∈ many, t ∈ tools ∧ structured codec t = true) (htool : tool ∈ few)
    (h : resolveCompanions few tool = none) : resolveCompanions many tool = none := by
  obtain ⟨hmem, hstr⟩ := hmany tool (hsub htool)
  have hall : resolveCompanions (tools.filter (structured codec)) tool = none := by
    simpa [hstr, resolves_fit (fun t ht => hmany t (hsub ht)) htool h] using
      List.all_eq_true.mp hsettled tool hmem
  rw [resolveCompanions_eq_none] at h hall ⊢
  intro companion hcom
  obtain ⟨⟨candidate, hcan, hid⟩, -⟩ := h companion hcom
  exact ⟨⟨candidate, hsub hcan, hid⟩, fun other hother =>
    (hall companion hcom).2 other (List.mem_filter.mpr (hmany other hother))⟩

/-- **What a registry holds of the contracts seen so far**: those that are not rejected, of which
the admitted ones are those whose companions resolve. -/
structure RecordsOf (codec : Codec) (seen : List ToolContract) (records : Records codec) : Prop where
  seen : Seen codec seen records
  admitted : ∀ tool, tool ∈ Registry.admitted records ↔
    tool ∈ records.live ∧ resolveCompanions records.live tool = none

theorem live_resolvePending (env : RegistryEnv) (records : Records codec) :
    (resolvePending env records).live = records.live := by
  rw [resolvePending_eq]
  exact live_mapRows fun _ _ => resolveRecord_contract? _ _

theorem admitted_resolvePending (env : RegistryEnv) (records : Records codec) :
    Registry.admitted records ⊆ Registry.admitted (resolvePending env records) := by
  intro tool htool
  obtain ⟨key, contract, hadm, rfl⟩ := Registry.mem_admitted.mp htool
  exact Registry.mem_admitted.mpr ⟨key, contract, admittedAt_resolvePending.mpr (.inl hadm), rfl⟩

theorem Seen.resolve (h : Seen codec seen records) (env : RegistryEnv) :
    Seen codec seen (resolvePending env records) := by
  refine ⟨fun key contract hcon => ?_, ?_⟩
  · rw [contractAt_resolvePending] at hcon
    exact h.keyed key contract hcon
  · rw [live_resolvePending]
    exact h.live

/-- The registry once the pending contracts of a set are resolved, if what was admitted before still
resolves. -/
theorem RecordsOf.resolve (henv : Healthy env) {mid : Records codec} (hmid : Seen codec seen mid)
    (hkeep : ∀ tool ∈ Registry.admitted mid, resolveCompanions mid.live tool = none) :
    RecordsOf codec seen (resolvePending env mid) := by
  refine ⟨hmid.resolve env, fun tool => ?_⟩
  rw [live_resolvePending]
  constructor
  · intro htool
    obtain ⟨key, contract, hadm, rfl⟩ := Registry.mem_admitted.mp htool
    rcases admittedAt_resolvePending.mp hadm with hold | ⟨hcon, -, hres, -⟩
    · exact ⟨mem_live.mpr ⟨key, contract, contractAt_of_admittedAt hold, rfl⟩,
        hkeep _ (Registry.mem_admitted.mpr ⟨key, contract, hold, rfl⟩)⟩
    · exact ⟨mem_live.mpr ⟨key, contract, hcon, rfl⟩, hres⟩
  · rintro ⟨htool, hres⟩
    obtain ⟨contract, hcon, rfl⟩ := hmid.contractAt htool
    refine Registry.mem_admitted.mpr ⟨contract.tool.key, contract, ?_, rfl⟩
    cases hold : mid.admittedAt contract.tool.key with
    | some =>
      have heq := (contractAt_of_admittedAt hold).symm.trans hcon
      exact admittedAt_resolvePending.mpr (.inl (hold.trans heq))
    | none =>
      exact admittedAt_resolvePending.mpr
        (.inr ⟨hcon, hold, hres, henv.routable contract.tool.routeId⟩)

/-- The published view has the digest of the admitted contracts. -/
def Registry.UpToDate (registry : Registry codec) : Prop :=
  ∃ built view, build codec (Registry.admitted registry.records) = ok built ∧
    registry.current = some view ∧ view.digest = built.digest

/-- **A call in a healthy environment publishes the admitted contracts.** -/
theorem upToDate_publish (henv : Healthy env) (hwell : WellFormed codec tools)
    (registry : Registry codec)
    (h : Registry.admitted (resolvePending env registry.records) ⊆ tools) :
    (registry.resolveAndPublish env).1.records = resolvePending env registry.records ∧
      (registry.resolveAndPublish env).1.UpToDate := by
  have hbuild : ∃ built, build codec (Registry.admitted (resolvePending env registry.records)) =
      ok built := by
    obtain ⟨parts, hpar⟩ := Fallible.mapM_total fun tool
      (htool : tool ∈ (Registry.admitted (resolvePending env registry.records)).insertionSort
        fun first second => first.precedes second = true) =>
        hwell.encoded tool (h ((List.mem_insertionSort _).mp htool))
    simp only [build, bind_eq_ok]
    exact ⟨_, parts, hpar, rfl⟩
  obtain ⟨built, hbuilt⟩ := hbuild
  have hcom : Registry.uncompiled codec built = none := by
    rw [Registry.uncompiled, List.findSome?_eq_none_iff]
    exact fun tool htool => hwell.compiled tool (h ((mem_build hbuilt).mp htool))
  simp only [Registry.resolveAndPublish, hbuilt, hcom, henv.put]
  split
  · rename_i hsame
    obtain ⟨view, hview, hdig⟩ := Option.map_eq_some_iff.mp hsame
    exact ⟨rfl, built, view, hbuilt, hview, hdig⟩
  · exact ⟨rfl, built, built, hbuilt, rfl, rfl⟩

/-- The admitted contracts are among those seen. -/
theorem Seen.admitted_subset (h : Seen codec seen records) : Registry.admitted records ⊆ seen := by
  intro tool htool
  obtain ⟨key, contract, hadm, rfl⟩ := Registry.mem_admitted.mp htool
  exact ((h.live _).mp (mem_live.mpr ⟨key, contract, contractAt_of_admittedAt hadm, rfl⟩)).1

/-- **What a batch does**: its contracts are recorded and the pending ones resolved, and the view is
up to date. -/
theorem Seen.batch (henv : Healthy env) (hwell : WellFormed codec tools)
    {batch : List ToolContract} (hbat : batch ⊆ tools) (hseen : seen ⊆ tools)
    {registry : Registry codec} (h : Seen codec seen registry.records) :
    ∃ mid, Seen codec (batch.reverse ++ seen) mid ∧
      Registry.admitted mid ⊆ Registry.admitted registry.records ∧
      Registry.admitted registry.records ⊆ Registry.admitted mid ∧
      (registry.register env (batch.map .contract)).1.records = resolvePending env mid ∧
      (registry.register env (batch.map .contract)).1.UpToDate := by
  obtain ⟨mid, hmid, hseen', hsame⟩ := h.registerAll henv hwell hbat hseen
  have haft : batch.reverse ++ seen ⊆ tools :=
    List.append_subset.mpr ⟨List.reverse_subset.mpr hbat, hseen⟩
  have hmem : ∀ tool, tool ∈ Registry.admitted mid ↔ tool ∈ Registry.admitted registry.records := by
    simp only [Registry.mem_admitted, hsame, implies_true]
  obtain ⟨hrec, hdate⟩ := upToDate_publish henv hwell { registry with records := mid }
    (List.Subset.trans (hseen'.resolve env).admitted_subset haft)
  refine ⟨mid, hseen', fun tool => (hmem tool).mp, fun tool => (hmem tool).mpr, ?_⟩
  simp only [Registry.register, hmid]
  exact ⟨hrec, hdate⟩

/-- **What a batch leaves**: its contracts are seen, and the admitted ones are those that resolve, if
companions are settled or nothing was admitted before. -/
theorem RecordsOf.batch (henv : Healthy env) (hwell : WellFormed codec tools)
    {batch : List ToolContract} (hbat : batch ⊆ tools) (hseen : seen ⊆ tools)
    {registry : Registry codec} (h : RecordsOf codec seen registry.records)
    (hkeep : settledCompanions codec tools = true ∨ Registry.admitted registry.records = []) :
    RecordsOf codec (batch.reverse ++ seen) (registry.register env (batch.map .contract)).1.records ∧
      (registry.register env (batch.map .contract)).1.UpToDate := by
  obtain ⟨mid, hmid, hsub, -, hrec, hdate⟩ := h.seen.batch henv hwell hbat hseen
  refine ⟨hrec ▸ RecordsOf.resolve henv hmid fun tool htool => ?_, hdate⟩
  rcases hkeep with hsettled | hnone
  · obtain ⟨hlive, hres⟩ := (h.admitted tool).mp (hsub htool)
    refine resolves_mono hsettled (fun t ht => ?_) (fun t ht => ?_) hlive hres
    · obtain ⟨hin, hstr⟩ := (h.seen.live t).mp ht
      exact (hmid.live t).mpr ⟨List.mem_append_right _ hin, hstr⟩
    · obtain ⟨hin, hstr⟩ := (hmid.live t).mp ht
      exact ⟨(List.append_subset.mpr ⟨List.reverse_subset.mpr hbat, hseen⟩) hin, hstr⟩
  · simpa [hnone] using hsub htool

/-- A registry after some batches, each in its environment. -/
def Registry.registerBatches (registry : Registry codec)
    (batches : List (RegistryEnv × List ToolContract)) : Registry codec :=
  batches.foldl (fun registry batch => (registry.register batch.1 (batch.2.map .contract)).1) registry

/-- Batches that register a set: in healthy environments, all of its contracts and no others. -/
structure BatchesOf (tools : List ToolContract)
    (batches : List (RegistryEnv × List ToolContract)) : Prop where
  some : batches ≠ []
  healthy : ∀ batch ∈ batches, Healthy batch.1
  all : ∀ tool, tool ∈ tools ↔ ∃ batch ∈ batches, tool ∈ batch.2

/-- What batches leave. -/
theorem RecordsOf.batches (hwell : WellFormed codec tools)
    (hsettled : settledCompanions codec tools = true)
    {batches : List (RegistryEnv × List ToolContract)}
    (hheal : ∀ batch ∈ batches, Healthy batch.1) (hbat : ∀ batch ∈ batches, batch.2 ⊆ tools)
    (hseen : seen ⊆ tools) {registry : Registry codec} (h : RecordsOf codec seen registry.records)
    (hdate : batches = [] → registry.UpToDate) :
    (∃ seen', (∀ tool, tool ∈ seen' ↔ tool ∈ seen ∨ ∃ batch ∈ batches, tool ∈ batch.2) ∧
      RecordsOf codec seen' (registry.registerBatches batches).records) ∧
      (registry.registerBatches batches).UpToDate := by
  induction batches generalizing seen registry with
  | nil => exact ⟨⟨seen, by simp, h⟩, hdate rfl⟩
  | cons batch rest ih =>
    obtain ⟨hrec, hdate'⟩ := h.batch (hheal batch List.mem_cons_self) hwell
      (hbat batch List.mem_cons_self) hseen (.inl hsettled)
    have hseen' : batch.2.reverse ++ seen ⊆ tools := List.append_subset.mpr
      ⟨List.reverse_subset.mpr (hbat batch List.mem_cons_self), hseen⟩
    obtain ⟨⟨seen', hmem, hrest⟩, hdone⟩ := ih (fun b hb => hheal b (List.mem_cons_of_mem _ hb))
      (fun b hb => hbat b (List.mem_cons_of_mem _ hb)) hseen' hrec fun _ => hdate'
    refine ⟨⟨seen', fun tool => ?_, hrest⟩, hdone⟩
    rw [hmem, List.mem_append, List.mem_reverse]
    simp only [List.mem_cons, exists_eq_or_imp]
    tauto

/-- No contract is admitted twice. -/
theorem nodup_admitted (h : records.Keyed) : (Registry.admitted records).Nodup := by
  rw [Registry.admitted, List.Nodup, List.pairwise_filterMap]
  refine (List.nodupKeys_iff_pairwise.mp records.nodupKeys).imp_of_mem ?_
  intro entry entry' hent hent' hne tool htool tool' htool' heq
  have hkey : ∀ {entry : Sigma fun _ : ToolKey => RegistryRecord codec} {tool : ToolContract},
      entry ∈ records.entries → entry.2.admitted?.map Encoded.tool = some tool →
      tool.key = entry.1 := by
    intro entry tool hent htool
    obtain ⟨contract, hcon, rfl⟩ := Option.map_eq_some_iff.mp htool
    refine h entry.1 contract (contractAt_of_admittedAt ?_)
    rw [Records.admittedAt, Table.lookup_eq_some_iff.mpr hent]
    exact hcon
  exact hne ((hkey hent htool).symm.trans ((congrArg ToolContract.key heq).trans
    (hkey hent' htool')))

/-- **The view of a registry over a set** is that of the admitted sublist. -/
theorem Seen.build_admitted (hwell : WellFormed codec tools) (h : Seen codec seen records)
    (hseen : seen ⊆ tools) {p : ToolContract → Bool}
    (hp : ∀ tool ∈ tools, p tool = true ↔ tool ∈ Registry.admitted records) :
    build codec (Registry.admitted records) = build codec (tools.filter p) := by
  have hsub := List.Subset.trans h.admitted_subset hseen
  refine build_perm codec ((List.perm_ext_iff_of_nodup (nodup_admitted h.keyed)
    (hwell.distinct.of_map.filter _)).mpr fun tool => ?_)
    fun a ha b hb => List.inj_on_of_nodup_map hwell.distinct (hsub ha) (hsub hb)
  rw [List.mem_filter]
  exact ⟨fun hadm => ⟨hsub hadm, (hp tool (hsub hadm)).mpr hadm⟩, fun ⟨htool, hadm⟩ =>
    (hp tool htool).mp hadm⟩

theorem recordsOf_empty : RecordsOf codec [] ({} : Registry codec).records := by
  refine ⟨⟨fun key contract hnone => ?_, fun tool => ?_⟩, fun tool => ?_⟩
  · cases hnone
  · simp [Records.live]
  · simp [Records.live, Registry.admitted]

theorem healthy_default : Healthy {} where
  routable _ := rfl
  roles _ hnone := by cases hnone
  put := rfl

/-- All batchings of a set end with one digest. -/
def OrderFree (codec : Codec) (tools : List ToolContract) : Prop :=
  ∀ first second, BatchesOf tools first → BatchesOf tools second →
    ∃ view view', (({} : Registry codec).registerBatches first).current = some view ∧
      (({} : Registry codec).registerBatches second).current = some view' ∧
      view.digest = view'.digest

/-- A set whose companions are settled can be registered in any order. -/
theorem orderFree_of_settled (hwell : WellFormed codec tools)
    (hsettled : settledCompanions codec tools = true) : OrderFree codec tools := by
  intro first second hfirst hsecond
  have hdone : ∀ {batches : List (RegistryEnv × List ToolContract)}, BatchesOf tools batches →
      ∃ view, (({} : Registry codec).registerBatches batches).current = some view ∧
        ∃ built, build codec (tools.filter fun tool => structured codec tool &&
          (resolveCompanions (tools.filter (structured codec)) tool).isNone) = ok built ∧
          view.digest = built.digest := by
    intro batches hbat
    have hsub : ∀ batch ∈ batches, batch.2 ⊆ tools := fun batch hbatch tool htool =>
      (hbat.all tool).mpr ⟨batch, hbatch, htool⟩
    obtain ⟨⟨seen, hmem, hrec⟩, built, view, hbuilt, hview, hdig⟩ :=
      recordsOf_empty.batches hwell hsettled hbat.healthy hsub (by simp)
        fun hnil => absurd hnil hbat.some
    have hseen : ∀ tool, tool ∈ seen ↔ tool ∈ tools := fun tool => by simp [hmem, hbat.all]
    refine ⟨view, hview, built, ?_, hdig⟩
    rw [← hbuilt]
    refine (hrec.seen.build_admitted hwell (fun tool => (hseen tool).mp) fun tool htool => ?_).symm
    simp [hrec.admitted, hrec.seen.live, hseen, htool, resolveCompanions_eq_none]
  obtain ⟨view, hview, built, hbuilt, hdig⟩ := hdone hfirst
  obtain ⟨view', hview', built', hbuilt', hdig'⟩ := hdone hsecond
  obtain rfl := Except.ok.inj (hbuilt.symm.trans hbuilt')
  exact ⟨view, view', hview, hview', hdig.trans hdig'.symm⟩

/-- Registries over a set that show one digest admit the same contracts. -/
theorem admitted_subset_of_digest (hwell : WellFormed codec tools) (htold : ToldApart codec tools)
    {seen' : List ToolContract} {registry registry' : Registry codec}
    (h : Seen codec seen registry.records) (hseen : seen ⊆ tools) (hdate : registry.UpToDate)
    (h' : Seen codec seen' registry'.records) (hseen' : seen' ⊆ tools) (hdate' : registry'.UpToDate)
    (hsame : registry.current.map PublishedView.digest = registry'.current.map PublishedView.digest) :
    Registry.admitted registry.records ⊆ Registry.admitted registry'.records := by
  classical
  obtain ⟨built, view, hbuilt, hview, hdig⟩ := hdate
  obtain ⟨built', view', hbuilt', hview', hdig'⟩ := hdate'
  have hsub : ∀ p, tools.filter p ∈ tools.sublists := fun p =>
    List.mem_sublists.mpr List.filter_sublist
  have hkeys := htold _ (hsub fun t => decide (t ∈ Registry.admitted registry.records)) _
    (hsub fun t => decide (t ∈ Registry.admitted registry'.records)) (by
      rw [← h.build_admitted hwell hseen (by simp), ← h'.build_admitted hwell hseen' (by simp),
        hbuilt, hbuilt']
      simpa [hview, hview', hdig, hdig', Except.toOption] using hsame)
  intro tool hadm
  have htool := hseen (h.admitted_subset hadm)
  have hkey : tool.key ∈ (tools.filter fun t =>
      decide (t ∈ Registry.admitted registry.records)).map ToolContract.key :=
    List.mem_map.mpr ⟨tool, List.mem_filter.mpr ⟨htool, decide_eq_true hadm⟩, rfl⟩
  obtain ⟨other, hother, hkey⟩ := List.mem_map.mp (hkeys ▸ hkey)
  obtain ⟨hin, hadm'⟩ := List.mem_filter.mp hother
  obtain rfl := List.inj_on_of_nodup_map hwell.distinct hin htool hkey
  exact of_decide_eq_true hadm'

/-- **The order of registrations does not show exactly if companions are settled**: over a set of
well-formed contracts whose views the digest tells apart, every order and every batching ends with
the same digest. -/
theorem registration_order_free (hwell : WellFormed codec tools) (htold : ToldApart codec tools) :
    OrderFree codec tools ↔ settledCompanions codec tools = true := by
  refine ⟨fun hfree => List.all_eq_true.mpr fun tool htool => ?_, orderFree_of_settled hwell⟩
  by_contra hnot
  simp only [Bool.or_eq_true, not_or, Bool.not_eq_true', Bool.not_eq_false, Bool.not_eq_true,
    Option.isSome_eq_false_iff, Option.isNone_iff_eq_none] at hnot
  obtain ⟨⟨hstr, hfit⟩, hunfit⟩ := hnot
  -- register what is fit for the contract first, or everything at once
  have hfew : tool :: fitVersions codec tools tool ⊆ tools :=
    List.cons_subset.mpr ⟨htool, List.filter_subset_self _⟩
  have hempty : RecordsOf codec [] ({} : Registry codec).records := recordsOf_empty
  obtain ⟨hfirst, -⟩ := hempty.batch healthy_default hwell hfew (List.nil_subset _) (.inr rfl)
  obtain ⟨honce, hdate'⟩ :=
    hempty.batch healthy_default hwell (List.Subset.refl tools) (List.nil_subset _) (.inr rfl)
  rw [List.append_nil] at hfirst honce
  obtain ⟨mid, hmid, -, hkept, hrec, hdate⟩ := hfirst.seen.batch healthy_default hwell
    (List.Subset.refl tools) (List.reverse_subset.mpr hfew)
  obtain ⟨_, _, hview, hview', hsame⟩ := hfree
    [({}, tool :: fitVersions codec tools tool), ({}, tools)] [({}, tools)]
    ⟨by simp, by simp [healthy_default], fun t => by simpa using @hfew t⟩
    ⟨by simp, by simp [healthy_default], by simp⟩
  have hfirstadm : tool ∈ Registry.admitted _ := (hfirst.admitted tool).mpr (by
    rw [resolveCompanions_eq_none] at hfit ⊢
    have hlive : ∀ t, t ∈ Records.live _ ↔ t ∈ tool :: fitVersions codec tools tool := fun t => by
      rw [hfirst.seen.live, List.mem_reverse, and_iff_left_iff_imp, List.mem_cons]
      rintro (rfl | ht)
      · exact hstr
      · exact (Bool.and_eq_true_iff.mp (List.mem_filter.mp ht).2).1
    simpa only [hlive, List.mem_cons_self, true_and] using hfit)
  have hboth := admitted_subset_of_digest hwell htold (hrec ▸ hmid.resolve {})
    (List.append_subset.mpr ⟨by simp, List.reverse_subset.mpr hfew⟩) hdate honce.seen (by simp) hdate' (by
      refine (congrArg (Option.map _) hview).trans (Eq.trans ?_ (congrArg (Option.map _) hview').symm)
      exact congrArg some hsame)
    (hrec ▸ admitted_resolvePending {} mid (hkept hfirstadm))
  have hres := ((honce.admitted _).mp hboth).2
  refine hunfit ?_
  rw [resolveCompanions_eq_none] at hres ⊢
  simpa only [honce.seen.live, List.mem_reverse, List.mem_filter] using hres

end Set

/-! ### Orders -/

/-- A booking, two fit versions of its compensation, and a payment. -/
def bookingSet : List ToolContract :=
  [bookTool, releaseTool, releaseTool "2", payTool 1000]

theorem keys_bookingSet : (bookingSet.map ToolContract.key).Nodup := by
  decide +kernel

/-- Contracts of the encoder above are well-formed, if their keys differ. -/
theorem wellFormed_plain {tools : List ToolContract}
    (h : (tools.map ToolContract.key).Nodup) : WellFormed plainCodec tools where
  distinct := h
  encoded := fun _ _ => ⟨_, rfl⟩
  compiled := fun _ _ => rfl

/-- The set at once, and one by one. -/
theorem registration_order_free_bookings :
    ∃ view view', (({} : Registry plainCodec).registerBatches [({}, bookingSet)]).current = some view ∧
      (({} : Registry plainCodec).registerBatches [({}, [payTool 1000]), ({}, [releaseTool "2"]),
        ({}, [bookTool]), ({}, [releaseTool])]).current = some view' ∧
      view.digest = view'.digest := by
  have htold : ToldApart plainCodec bookingSet := by
    unfold ToldApart
    decide +kernel
  refine (registration_order_free (wellFormed_plain keys_bookingSet) htold).mpr (by decide +kernel)
    _ _ ⟨by simp, ?_, by simp [bookingSet]⟩ ⟨by simp, ?_, ?_⟩
  · simp [healthy_default]
  · simp [healthy_default]
  intro tool
  simp only [bookingSet, List.mem_cons, List.not_mem_nil, or_false, exists_eq_or_imp,
    exists_eq_left]
  tauto

/-- A booking, and a fit and an unfit version of its compensation. -/
def mixedSet : List ToolContract :=
  [bookTool, releaseTool, releaseTool "2" false]

/-- **The order of registrations can show**: a booking that is registered with the fit version of
its compensation is published, and stays when the unfit one comes; registered after the unfit one,
it is never admitted. -/
theorem registration_order_shows :
    WellFormed plainCodec mixedSet ∧
    (({} : Registry plainCodec).registerBatches [({}, [bookTool, releaseTool]),
      ({}, [releaseTool "2" false])]).current.map PublishedView.digest =
        some ("\x7b\"tool_view_version\":\"2\",\"tools\":[book@1/1000/false,release@1/1000/true," ++
          "release@2/1000/false]\x7d") ∧
    (({} : Registry plainCodec).registerBatches [({}, [releaseTool "2" false]),
      ({}, [bookTool, releaseTool])]).current.map PublishedView.digest =
        some ("\x7b\"tool_view_version\":\"2\",\"tools\":[release@1/1000/true," ++
          "release@2/1000/false]\x7d") := by
  refine ⟨wellFormed_plain (by decide +kernel), ?_, ?_⟩ <;> decide +kernel

end Flory
