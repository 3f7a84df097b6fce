import Flory.Registry

/-!
# Published Views

Two properties of the views a registry publishes, over every sequence of its calls. A published
contract is immutable: every later view has it, with the same body. And a view is closed under
companions: whatever tool a contract of the view names, the view has, in versions that are all fit
for their part.

A malformed contract under the key of an admitted one rejects its record, and breaks both. The
second also rests on what `resolveCompanions` does not look at: that a companion which is
registered is also admitted, and that a version of it which comes later is fit as well.

## Main results

* `published_immutable`: a published contract stays published as it is, in every run without a
  malformed contract under its key.
* `published_closed`: the views of a run are closed under companions, if its companions can be
  admitted and their later versions are fit.
* `published_contract_replaced`, `published_view_open`: what happens otherwise.
-/

namespace Flory

open Except (ok)

section Views

variable {codec : Codec} {call : RegistryCall} {contract : Encoded codec}

/-! ### Immutability -/

/-- The condition on a call: no malformed contract comes under the key of an admitted one. -/
def keepsAdmitted (registry : Registry codec) (call : RegistryCall) : Bool :=
  call.contracts.all fun transmitted => !transmitted.isMalformed codec ||
    (registry.records.admittedAt transmitted.key).isNone

variable {registry : Registry codec}

/-- Under that condition the batch of a call leaves what is admitted. -/
theorem admittedAt_batched (h : keepsAdmitted registry call = true) (key : ToolKey) :
    (registry.batched call).admittedAt key = registry.records.admittedAt key := by
  refine admittedAt_registerAll (fun transmitted hmem hmal => ?_) key
  have hkept := List.all_eq_true.mp h transmitted hmem
  simpa [hmal] using hkept

/-- A call that keeps what is admitted, and what it has admitted besides. -/
theorem admittedAt_mono {registry' : Registry codec} (hkeeps : keepsAdmitted registry call = true)
    (hstep : registry.step call = some registry') {key : ToolKey}
    (h : registry.records.admittedAt key = some contract) :
    registry'.records.admittedAt key = some contract := by
  rw [← admittedAt_batched hkeeps] at h
  have hres : (resolvePending call.env (registry.batched call)).admittedAt key = some contract :=
    admittedAt_resolvePending.mpr (.inl h)
  cases Registry.step_cases hstep with
  | stopped => exact h
  | resolved | published => exact hres

/-- Every contract of the published view is admitted. -/
def Registry.Shown (registry : Registry codec) : Prop :=
  ∀ view, registry.current = some view → ∀ tool ∈ view.tools,
    ∃ contract, registry.records.admittedAt tool.key = some contract ∧ contract.tool = tool

variable {records : Records codec} {tool : ToolContract}

/-- A contract that is admitted is so under its key. -/
theorem admittedAt_key (h : records.Keyed) (htool : tool ∈ Registry.admitted records) :
    ∃ contract, records.admittedAt tool.key = some contract ∧ contract.tool = tool := by
  obtain ⟨key, contract, hadm, rfl⟩ := Registry.mem_admitted.mp htool
  rw [h key contract (contractAt_of_admittedAt hadm)]
  exact ⟨contract, hadm, rfl⟩

/-- What is published is admitted, in every run that keeps what is admitted. -/
theorem shown_of_reachable
    (h : RegistryReachable codec (fun registry call => keepsAdmitted registry call = true) registry) :
    registry.Shown := by
  refine h.invariant_of (K := fun registry => registry.records.Keyed)
    (fun _ hreach => records_keyed hreach) (fun view hnone => ?_) ?_
  · cases hnone
  intro registry registry' call _ hkey hshown hkeeps hstep view hview tool htool
  have hkept : ∀ view, registry.current = some view → tool ∈ view.tools →
      ∃ contract, registry'.records.admittedAt tool.key = some contract ∧ contract.tool = tool := by
    intro view hview htool
    obtain ⟨contract, hadm, heq⟩ := hshown view hview tool htool
    exact ⟨contract, admittedAt_mono hkeeps hstep hadm, heq⟩
  cases Registry.step_cases hstep with
  | stopped | resolved => exact hkept view hview htool
  | published hbuild =>
    cases hview
    exact admittedAt_key hkey ((mem_build hbuild).mp htool)

/-- A call that keeps what is admitted publishes again what was published. -/
theorem published_step {registry' : Registry codec} (hkeeps : keepsAdmitted registry call = true)
    (hstep : registry.step call = some registry')
    (hadm : registry.records.admittedAt tool.key = some contract)
    (htool : contract.tool = tool) (h : ∃ view, registry.current = some view ∧ tool ∈ view.tools) :
    ∃ view, registry'.current = some view ∧ tool ∈ view.tools := by
  have hadm' := admittedAt_mono hkeeps hstep hadm
  cases Registry.step_cases hstep with
  | stopped | resolved => exact h
  | @published view hbuild =>
    exact ⟨view, rfl, (mem_build hbuild).mpr (Registry.mem_admitted.mpr
      ⟨tool.key, contract, hadm', htool⟩)⟩

variable {view : PublishedView}

/-- **A published contract is immutable**: once a view has shown it, every later view has it, and
whatever a later view has under its key has its body. -/
theorem published_immutable {registry registry' : Registry codec}
    (h : RegistryReachable codec (fun registry call => keepsAdmitted registry call = true) registry)
    (hrun : Transition.Reachable Registry.step (fun registry call => keepsAdmitted registry call = true)
      registry registry')
    (hview : registry.current = some view)
    (htool : tool ∈ view.tools) :
    ∃ view', registry'.current = some view' ∧ tool ∈ view'.tools ∧
      ∀ tool' ∈ view'.tools, tool'.key = tool.key → codec.canonical tool' = codec.canonical tool := by
  obtain ⟨contract, hadm, heq⟩ := shown_of_reachable h view hview tool htool
  have hstays : (∃ view', registry'.current = some view' ∧ tool ∈ view'.tools) ∧
      registry'.records.admittedAt tool.key = some contract := by
    refine hrun.invariant (I := fun registry =>
      (∃ view', registry.current = some view' ∧ tool ∈ view'.tools) ∧
        registry.records.admittedAt tool.key = some contract) ⟨⟨view, hview, htool⟩, hadm⟩ ?_
    rintro registry registry' call ⟨hshows, hadm⟩ hkeeps hstep
    exact ⟨published_step hkeeps hstep hadm heq hshows, admittedAt_mono hkeeps hstep hadm⟩
  obtain ⟨⟨view', hview', htool'⟩, hadm'⟩ := hstays
  refine ⟨view', hview', htool', fun other hother hkey => ?_⟩
  obtain ⟨_, hfound, rfl⟩ := shown_of_reachable (h.trans hrun) view' hview' other hother
  rw [hkey, hadm'] at hfound
  cases hfound
  rw [heq]

/-! ### Companions -/

/-- **A view closed under companions**: whatever a contract of it names, it has, and every version
of it there covers the roles of the contract, is retry-safe where it confirms or undoes, and
compensates by deltas where it undoes. -/
def PublishedView.CompanionClosed (view : PublishedView) : Prop :=
  ∀ tool ∈ view.tools, ∀ companion ∈ companions tool,
    (∃ candidate ∈ view.tools, candidate.toolId = companion) ∧
      ∀ candidate ∈ view.tools, candidate.toolId = companion →
        rolesCover tool.allowedRoles candidate.allowedRoles = true ∧
        (mustBeRetrySafe tool companion = true → candidate.txn.idempotentRetryable = true) ∧
        (isCompensating tool companion = true → candidate.compensationStyle = .delta)

/-- Whether a pending contract that some contract names as its companion can be admitted. -/
def companionStands (env : RegistryEnv) (records : Records codec) (tool : ToolContract) : Bool :=
  !(records.live.any fun namer => (companions namer).contains tool.toolId) ||
    ((resolveCompanions records.live tool).isNone && env.routable tool.routeId)

/-- Whether a pending contract is fit for every admitted one that names it. -/
def companionFits (records : Records codec) (tool : ToolContract) : Bool :=
  (Registry.admitted records).all fun namer =>
    !(companions namer).contains tool.toolId || (resolveVersion namer tool.toolId tool).isNone

/-- The condition on a call: no malformed contract comes under the key of an admitted one, and
once the batch is recorded every pending contract that others name can be admitted, and is fit for
the admitted ones among them. -/
def keepsCompanions (registry : Registry codec) (call : RegistryCall) : Bool :=
  keepsAdmitted registry call && (registry.batched call).entries.all fun entry =>
    entry.2.pending?.all fun contract =>
      companionStands call.env (registry.batched call) contract.tool &&
        companionFits (registry.batched call) contract.tool

/-- The admitted contracts are closed under companions. -/
def Records.CompanionClosed (records : Records codec) : Prop :=
  ∀ key contract, records.admittedAt key = some contract → ∀ companion ∈ companions contract.tool,
    (∃ key' candidate, records.admittedAt key' = some candidate ∧
      candidate.tool.toolId = companion) ∧
    ∀ key' candidate, records.admittedAt key' = some candidate →
      candidate.tool.toolId = companion → resolveVersion contract.tool companion candidate.tool = none

/-- A recorded contract that is not admitted is pending. -/
theorem pending_of_contractAt {key : ToolKey} (h : records.contractAt key = some contract)
    (hnot : records.admittedAt key = none) :
    ∃ entry ∈ records.entries, entry.2.pending? = some contract := by
  obtain ⟨stored, hstor, hcon⟩ := Option.bind_eq_some_iff.mp h
  rw [Records.admittedAt, hstor] at hnot
  refine ⟨⟨key, stored⟩, Table.lookup_eq_some_iff.mp hstor, ?_⟩
  cases stored with
  | rejected => cases hcon
  | pending => exact hcon
  | admitted => cases hnot

/-- **Resolving keeps the admitted contracts closed**, if the pending companions can be admitted
and are fit. -/
theorem Records.CompanionClosed.resolve {env : RegistryEnv} (h : records.CompanionClosed)
    (hpen : ∀ entry ∈ records.entries, ∀ contract, entry.2.pending? = some contract →
      companionStands env records contract.tool = true ∧
      companionFits records contract.tool = true) :
    (resolvePending env records).CompanionClosed := by
  intro key contract hcon companion hcom
  -- A companion among the recorded contracts is admitted by now, if some recorded contract names it.
  have hadmit : ∀ {key' : ToolKey} {candidate namer : Encoded codec} {namerKey : ToolKey},
      records.contractAt namerKey = some namer → candidate.tool.toolId ∈ companions namer.tool →
      records.contractAt key' = some candidate →
      (resolvePending env records).admittedAt key' = some candidate := by
    intro key' candidate namer namerKey hnam hnames hcan
    cases hold : records.admittedAt key' with
    | some =>
      have hsame := (contractAt_of_admittedAt hold).symm.trans hcan
      exact admittedAt_resolvePending.mpr (.inl (hold.trans hsame))
    | none =>
      obtain ⟨entry, hent, hfound⟩ := pending_of_contractAt hcan hold
      have hstan := (hpen entry hent candidate hfound).1
      have hnamed : (records.live.any fun namer =>
          (companions namer).contains candidate.tool.toolId) = true :=
        List.any_eq_true.mpr ⟨namer.tool, mem_live.mpr ⟨namerKey, namer, hnam, rfl⟩,
          List.contains_iff_mem.mpr hnames⟩
      simp only [companionStands, hnamed, Bool.not_true, Bool.false_or, Bool.and_eq_true,
        Option.isNone_iff_eq_none] at hstan
      exact admittedAt_resolvePending.mpr (.inr ⟨hcan, hold, hstan⟩)
  rcases admittedAt_resolvePending.mp hcon with hold | ⟨hrec, -, hres, -⟩
  · obtain ⟨⟨key', found, hfound, hid⟩, hfit⟩ := h key contract hold companion hcom
    refine ⟨⟨key', found, admittedAt_resolvePending.mpr (.inl hfound), hid⟩, ?_⟩
    rintro other candidate hcan rfl
    rcases admittedAt_resolvePending.mp hcan with hbef | ⟨hbef, hnot, -⟩
    · exact hfit other candidate hbef rfl
    obtain ⟨entry, hent, hpend⟩ := pending_of_contractAt hbef hnot
    have hfits := (hpen entry hent candidate hpend).2
    have hnam := List.all_eq_true.mp hfits contract.tool
      (Registry.mem_admitted.mpr ⟨key, contract, hold, rfl⟩)
    simpa [hcom] using hnam
  · obtain ⟨⟨candidate, hcan, hid⟩, hfit⟩ :=
      resolveCompanions_eq_none.mp hres companion hcom
    obtain ⟨key', found, hfound, rfl⟩ := mem_live.mp hcan
    refine ⟨⟨key', found, hadmit hrec (hid ▸ hcom) hfound, hid⟩, ?_⟩
    intro other candidate hadm hid
    have hlive := contractAt_of_admittedAt hadm
    rw [contractAt_resolvePending] at hlive
    exact hfit candidate.tool (mem_live.mpr ⟨other, candidate, hlive, rfl⟩) hid

/-- The admitted contracts of every run that keeps the companions are closed. -/
theorem closed_of_reachable
    (h : RegistryReachable codec (fun registry call => keepsCompanions registry call = true) registry) :
    registry.records.CompanionClosed ∧
      ∀ view, registry.current = some view → view.CompanionClosed := by
  refine h.invariant (I := fun registry => registry.records.CompanionClosed ∧
    ∀ view, registry.current = some view → view.CompanionClosed) ⟨nofun, nofun⟩ ?_
  rintro registry _ call ⟨hclos, hviews⟩ hkeeps hstep
  obtain ⟨hkeeps, hpen⟩ := Bool.and_eq_true_iff.mp hkeeps
  have hbat : (registry.batched call).CompanionClosed := by
    intro key contract hcon
    simp only [admittedAt_batched hkeeps] at hcon ⊢
    exact hclos key contract hcon
  have hres : (resolvePending call.env (registry.batched call)).CompanionClosed := by
    refine hbat.resolve fun entry hent contract hcon => ?_
    have hent := List.all_eq_true.mp hpen entry hent
    rw [hcon] at hent
    exact Bool.and_eq_true_iff.mp hent
  cases Registry.step_cases hstep with
  | stopped => exact ⟨hbat, hviews⟩
  | resolved => exact ⟨hres, hviews⟩
  | published hbuild =>
    refine ⟨hres, fun view hview => ?_⟩
    cases hview
    intro tool htool companion hcom
    obtain ⟨key, contract, hadm, rfl⟩ := Registry.mem_admitted.mp ((mem_build hbuild).mp htool)
    obtain ⟨⟨key', found, hfound, hid⟩, hfit⟩ := hres key contract hadm companion hcom
    refine ⟨⟨found.tool, (mem_build hbuild).mpr (Registry.mem_admitted.mpr
      ⟨key', found, hfound, rfl⟩), hid⟩, fun candidate hcan hid => ?_⟩
    obtain ⟨other, encoded, henc, rfl⟩ :=
      Registry.mem_admitted.mp ((mem_build hbuild).mp hcan)
    exact resolveVersion_eq_none.mp (hfit other encoded henc hid)

/-- **Published views are closed under companions**, in every run whose pending companions can be
admitted and are fit for the contracts that name them. -/
theorem published_closed {registry : Registry codec}
    (h : RegistryReachable codec (fun registry call => keepsCompanions registry call = true) registry)
    (hview : registry.current = some view) : view.CompanionClosed :=
  (closed_of_reachable h).2 view hview

end Views

/-! ### Runs -/

/-- An encoder that tells the contracts below apart. -/
def plainCodec : Codec where
  canonical tool := ok (tool.key.name ++ "/" ++ toString tool.timeoutMs ++ "/" ++
    toString tool.txn.idempotentRetryable)
  digest canonical := canonical
  schemaError _ _ := none

/-- A booking that `release` compensates. -/
def bookTool : ToolContract where
  toolId := "book"
  txn := { effectClass := .reversible, mode := .saga, compensateTool := "release",
           compensateArguments := [("order", "$.order")] }

/-- A version of its compensation. -/
def releaseTool (version : String := "1") (retryable : Bool := true) (route : String := "route") :
    ToolContract where
  toolId := "release"
  toolVersion := version
  routeId := route
  compensationStyle := .delta
  txn := { effectClass := .none, mode := .plain, idempotentRetryable := retryable }

/-- A payment with a timeout. -/
def payTool (timeoutMs : ℕ) : ToolContract where
  toolId := "pay"
  timeoutMs := timeoutMs
  txn := { effectClass := .irreversible, mode := .plain }

/-- A batch, in an environment where everything is healthy. -/
def registers (tools : List ToolContract) : RegistryCall :=
  .register {} (tools.map .contract)

/-- The view published after some calls. -/
def viewAfter (calls : List RegistryCall) : Option PublishedView :=
  (Transition.run Registry.step ({} : Registry plainCodec) calls).bind Registry.current

/-- The registry behind a published view. -/
theorem registry_of_viewAfter {calls : List RegistryCall} (h : viewAfter calls = some view) :
    ∃ registry, RegistryReachable plainCodec Transition.anyStep registry ∧
      registry.current = some view := by
  obtain ⟨registry, hrun, hview⟩ := Option.bind_eq_some_iff.mp h
  exact ⟨registry, Transition.reachable_of_run hrun, hview⟩

/-- A payment stays published while other contracts come. -/
theorem published_immutable_pay :
    ∃ registry registry' : Registry plainCodec,
      RegistryReachable plainCodec (fun registry call => keepsAdmitted registry call = true) registry ∧
      ∃ view, registry.current = some view ∧ ∃ tool ∈ view.tools,
      ∃ view', registry'.current = some view' ∧ tool ∈ view'.tools ∧
        view'.tools.length = 3 := by
  have hfirst : ((Transition.run (Transition.guarded keepsAdmitted Registry.step)
      ({} : Registry plainCodec) [registers [payTool 1000]]).bind fun registry =>
        (Transition.run (Transition.guarded keepsAdmitted Registry.step) registry
          [registers [bookTool, releaseTool]]).bind fun registry' =>
            registry.current.bind fun view => registry'.current.map fun view' =>
              (view.tools.length, view'.tools.length)) = some (1, 3) := by decide +kernel
  obtain ⟨registry, hrun, hfirst⟩ := Option.bind_eq_some_iff.mp hfirst
  obtain ⟨registry', hrun', hfirst⟩ := Option.bind_eq_some_iff.mp hfirst
  obtain ⟨view, hview, hfirst⟩ := Option.bind_eq_some_iff.mp hfirst
  obtain ⟨view', hview', hlen⟩ := Option.map_eq_some_iff.mp hfirst
  obtain ⟨hone, hthree⟩ := Prod.mk.inj hlen
  obtain ⟨tool, htool⟩ := List.exists_mem_of_length_pos (by rw [hone]; exact Nat.one_pos)
  have hreach := Transition.reachable_of_guarded_run hrun
  obtain ⟨_, hfound, hmem, -⟩ := published_immutable hreach
    (Transition.reachable_of_guarded_run hrun') hview htool
  obtain rfl := Option.mem_unique hview' hfound
  exact ⟨registry, registry', hreach, view, hview, tool, htool, view', hview', hmem, hthree⟩

/-- **A published contract can be replaced**: a malformed contract under its key takes it out of
the view, and another body then takes its place. -/
theorem published_contract_replaced :
    (viewAfter [registers [payTool 1000]]).map PublishedView.canonical =
      some "\x7b\"tool_view_version\":\"2\",\"tools\":[pay@1/1000/false]\x7d" ∧
    (viewAfter [registers [payTool 1000], .register {} [.malformed ⟨"pay", "1"⟩ "unspecified mode"]]).map
      PublishedView.canonical = some "\x7b\"tool_view_version\":\"2\",\"tools\":[]\x7d" ∧
    (viewAfter [registers [payTool 1000], .register {} [.malformed ⟨"pay", "1"⟩ "unspecified mode"],
      registers [payTool 2000]]).map PublishedView.canonical =
        some "\x7b\"tool_view_version\":\"2\",\"tools\":[pay@1/2000/false]\x7d" := by
  refine ⟨?_, ?_, ?_⟩ <;> decide +kernel

instance {view : PublishedView} : Decidable view.CompanionClosed := by
  unfold PublishedView.CompanionClosed
  infer_instance

/-- A booking and its compensation make a closed view. -/
theorem published_closed_booking :
    ∃ registry : Registry plainCodec,
      RegistryReachable plainCodec (fun registry call => keepsCompanions registry call = true) registry ∧
      ∃ view, registry.current = some view ∧ view.tools.length = 2 ∧ view.CompanionClosed := by
  have hview : ((Transition.run (Transition.guarded keepsCompanions Registry.step)
      ({} : Registry plainCodec) [registers [bookTool], registers [releaseTool]]).bind fun registry =>
        registry.current.map fun view => view.tools.length) = some 2 := by decide +kernel
  obtain ⟨registry, hrun, hview⟩ := Option.bind_eq_some_iff.mp hview
  obtain ⟨view, hview, htwo⟩ := Option.map_eq_some_iff.mp hview
  have hreach := Transition.reachable_of_guarded_run hrun
  exact ⟨registry, hreach, view, hview, htwo, published_closed hreach hview⟩

/-- A version of the compensation that is not retry-safe comes after the booking was admitted. -/
def lateVersion : List RegistryCall :=
  [registers [bookTool, releaseTool], registers [releaseTool "2" false]]

/-- The route of the compensation has no healthy instance. -/
def unhealthyCompanion : List RegistryCall :=
  [.register { routable := fun route => route != "down" }
    [.contract bookTool, .contract (releaseTool "1" true "down")]]

/-- The compensation is registered again, malformed. -/
def malformedCompanion : List RegistryCall :=
  [registers [bookTool, releaseTool], .register {} [.malformed ⟨"release", "1"⟩ "unspecified mode"]]

/-- After these calls the published view is not closed. -/
def EndsOpen (calls : List RegistryCall) : Prop :=
  ∃ registry view, RegistryReachable plainCodec Transition.anyStep registry ∧
    registry.current = some view ∧ viewAfter calls = some view ∧ ¬ view.CompanionClosed

/-- Calls whose view fails the test end so. -/
theorem endsOpen_of_viewAfter {calls : List RegistryCall}
    (h : (viewAfter calls).any (fun view => !decide view.CompanionClosed) = true) :
    EndsOpen calls := by
  obtain ⟨view, hview, hnot⟩ := (Option.any_eq_true _ _).mp h
  obtain ⟨registry, hreach, hcur⟩ := registry_of_viewAfter hview
  exact ⟨registry, view, hreach, hcur, hview, by simpa using hnot⟩

/-- **A published view need not be closed**: it may lack a companion that was registered and not
admitted, or rejected afterwards, and it may have a version of it that is not retry-safe. -/
theorem published_view_open :
    EndsOpen lateVersion ∧ EndsOpen unhealthyCompanion ∧ EndsOpen malformedCompanion :=
  ⟨endsOpen_of_viewAfter (by decide +kernel), endsOpen_of_viewAfter (by decide +kernel),
    endsOpen_of_viewAfter (by decide +kernel)⟩

end Flory
