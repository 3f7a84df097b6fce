import Flory.Contracts
import Flory.Mcp

/-!
# What a Listing Shows

A principal is shown the tools its roles allow and nothing else: neither the listing nor the
digest of the view that is made for it depends on the other tools of the published view. The
allowed tools of a view come in the order of the view, which is that of their keys, so two views
with the same allowed tools show them in the same order.

## Main results

* `allowed_tools_eq`: the same tools are allowed, in the same order.
* `tools_list_noninterfering`: the answers to `tools/list` are equal, with their digests.
* `roles_cover_exactly`: roles that cover others are allowed more, so that a view that is closed
  under companions is so for every principal.
-/

namespace Flory.Mcp

open Authn (Principal Primitives allows)
open Except (error ok)
open Fallible (bind_eq_ok)
open ToolView (Tool Published)

/-! ### The order of a view -/

/-- Tools that precede each other have the same key. -/
theorem toolKey_eq_of_precedes {one other : Tool} (hone : one.precedes other = true)
    (hoth : other.precedes one = true) : toolKey one = toolKey other := by
  unfold Tool.precedes at hone hoth
  by_cases hid : one.toolId = other.toolId
  · simp only [hid, ne_eq, not_true_eq_false, if_false, decide_eq_true_eq] at hone hoth
    exact Prod.ext hid (goBytes_injective (le_antisymm hone hoth))
  · simp only [ne_eq, hid, Ne.symm hid, not_false_eq_true, if_true, decide_eq_true_eq] at hone hoth
    exact absurd (lt_trans hone hoth) (lt_irrefl _)

instance : Std.Total fun one other : Tool => one.precedes other = true where
  total one other := by
    unfold Tool.precedes
    by_cases hid : one.toolId = other.toolId
    · simpa [hid] using le_total (goBytes one.toolVersion) (goBytes other.toolVersion)
    simp only [ne_eq, hid, Ne.symm hid, not_false_eq_true, if_true, decide_eq_true_eq]
    have hbytes : goBytes one.toolId ≠ goBytes other.toolId :=
      fun hsame => hid (goBytes_injective hsame)
    rcases le_total (goBytes one.toolId) (goBytes other.toolId) with hle | hle
    · exact .inl (Std.lt_of_le_of_ne hle hbytes)
    · exact .inr (Std.lt_of_le_of_ne hle hbytes.symm)

instance : IsTrans Tool fun one other => one.precedes other = true where
  trans first second third hone hother := by
    unfold Tool.precedes at hone hother ⊢
    by_cases hfirst : first.toolId = second.toolId <;> by_cases hsecond : second.toolId = third.toolId
    · simp only [hfirst, hsecond, ne_eq, not_true_eq_false, if_false, decide_eq_true_eq]
        at hone hother ⊢
      exact le_trans hone hother
    · simp only [hfirst, hsecond, ne_eq, not_false_eq_true, if_true, decide_eq_true_eq] at hother ⊢
      exact hother
    · simp only [← hsecond, hfirst, ne_eq, not_false_eq_true, if_true, decide_eq_true_eq] at hone ⊢
      exact hone
    simp only [hfirst, hsecond, ne_eq, not_false_eq_true, if_true, decide_eq_true_eq] at hone hother
    have hlt := lt_trans hone hother
    have hne : first.toolId ≠ third.toolId := by
      intro hsame
      rw [hsame] at hlt
      exact lt_irrefl _ hlt
    simpa [hne] using hlt

/-! ### Published views -/

/-- A view as the registry publishes it: built from contracts under different keys. -/
structure PublishedView (sha256 : ByteArray → String) where
  contracts : List Tool
  published : Published
  schemas : String × String → Option Schema
  distinct : (contracts.map toolKey).Nodup
  built : ToolView.build sha256 contracts = ok published

variable {sha256 : ByteArray → String}

/-- The view that requests are resolved against. -/
def PublishedView.resolved (view : PublishedView sha256) : ResolvedView :=
  ⟨view.published, view.schemas⟩

theorem tools_of_build {tools : List Tool} {published : Published}
    (h : ToolView.build sha256 tools = ok published) : published.tools = ToolView.ordered tools := by
  obtain ⟨_, -, hpub⟩ := bind_eq_ok.mp h
  rw [← Except.ok.inj hpub]

namespace PublishedView

theorem sorted (view : PublishedView sha256) :
    view.published.tools.Pairwise fun one other => one.precedes other = true := by
  rw [tools_of_build view.built]
  exact List.pairwise_insertionSort _ _

/-- The tools of a view have different keys. -/
theorem nodup_keys (view : PublishedView sha256) : (view.published.tools.map toolKey).Nodup := by
  have hperm : (view.published.tools.map toolKey).Perm (view.contracts.map toolKey) := by
    rw [tools_of_build view.built]
    have hsor := (List.perm_insertionSort (fun one other : Tool => one.precedes other = true)
      (view.contracts.map Tool.ordered)).map toolKey
    rwa [List.map_map] at hsor
  exact hperm.nodup_iff.mpr view.distinct

/-- The tools of a view that roles allow. -/
def allowed (view : PublishedView sha256) (roles : List String) : List Tool :=
  view.published.tools.filter fun tool => allows roles tool.allowedRoles

/-- Whether two views contain the same tools among those that roles allow. -/
def AllowsSame (one other : PublishedView sha256) (roles : List String) : Prop :=
  ∀ tool, allows roles tool.allowedRoles = true →
    (tool ∈ one.published.tools ↔ tool ∈ other.published.tools)

/-- **The allowed tools of two views are the same list**, when they are the same tools. -/
theorem allowed_tools_eq {one other : PublishedView sha256} {roles : List String}
    (h : one.AllowsSame other roles) : one.allowed roles = other.allowed roles := by
  have hmem : ∀ tool, tool ∈ one.allowed roles ↔ tool ∈ other.allowed roles := by
    intro tool
    rw [allowed, allowed, List.mem_filter, List.mem_filter]
    exact and_congr_left fun hall => h tool hall
  have hnod : ∀ view : PublishedView sha256, (view.allowed roles).Nodup := fun view =>
    (List.Nodup.of_map _ view.nodup_keys).filter _
  have hperm : (one.allowed roles).Perm (other.allowed roles) :=
    (List.perm_ext_iff_of_nodup (hnod one) (hnod other)).mpr hmem
  refine hperm.eq_of_pairwise ?_ (one.sorted.filter _) (other.sorted.filter _)
  intro first second hfir hsec hle hge
  -- both are tools of the other view, where a key has one tool
  have hfir' := (List.mem_filter.mp ((hmem first).mp hfir)).1
  have hsec' := (List.mem_filter.mp hsec).1
  exact List.inj_on_of_nodup_map other.nodup_keys hfir' hsec' (toolKey_eq_of_precedes hle hge)

end PublishedView

/-! ### Two listings -/

section Listings

variable {prims : Primitives}

/-- A server while a view is current. -/
def Server.serving (server : Server prims) (view : PublishedView server.sha256) : Server prims :=
  { server with current := some view.resolved }

/-- What `scopeView` publishes depends on the allowed tools alone. -/
theorem scopeView_published (server : Server prims) (one other : PublishedView server.sha256)
    {roles : List String} (h : one.AllowsSame other roles) :
    ((server.serving one).scopeView one.resolved roles).map ResolvedView.published =
      ((server.serving other).scopeView other.resolved roles).map ResolvedView.published := by
  have hall := PublishedView.allowed_tools_eq h
  simp only [PublishedView.allowed] at hall
  simp only [Server.scopeView, Server.serving, PublishedView.resolved, hall]
  cases ToolView.build server.sha256
      (other.published.tools.filter fun tool => allows roles tool.allowedRoles) with
  | error message => rfl
  | ok published =>
    dsimp only
    cases server.putBlob published.ref published.canonical <;> rfl

/-- What a listing is made of: the published view, and the identity. -/
def listing (published : Published) (identity : Option Authn.WorkflowIdentity) : Listing :=
  { tools := published.tools.map listed
    toolViewRef := published.ref
    toolViewDigest := published.digest
    toolViewDocument := published.canonical
    authorizationIdentity := identity }

/-- A listing without a digest, step by step. -/
theorem toolsList_serving (server : Server prims) (view : PublishedView server.sha256)
    (principal : Option Principal) (runId : String) :
    (server.serving view).toolsList principal (ok { runId := runId }) = (do
      let published ← ((server.serving view).scopeView view.resolved
        (effectivePrincipal principal).roles).map ResolvedView.published
      let identity ← server.runIdentity (effectivePrincipal principal) runId
      ok (listing published identity)) := by
  have hres : (server.serving view).resolveView "" = ok view.resolved := rfl
  have hiden : (server.serving view).runIdentity (effectivePrincipal principal) runId =
      server.runIdentity (effectivePrincipal principal) runId := rfl
  simp only [Server.toolsList, hres, hiden]
  change (((server.serving view).scopeView view.resolved _).bind _) = _
  cases (server.serving view).scopeView view.resolved (effectivePrincipal principal).roles with
  | error | ok => rfl

/-- **`tools/list` is non-interfering**: published views that contain the same tools among those
that the principal's roles allow get the same answer, with the same digest, whatever else they
contain. -/
theorem tools_list_noninterfering (server : Server prims) (one other : PublishedView server.sha256)
    (principal : Option Principal) (runId : String)
    (h : one.AllowsSame other (effectivePrincipal principal).roles) :
    (server.serving one).toolsList principal (ok { runId := runId }) =
      (server.serving other).toolsList principal (ok { runId := runId }) := by
  rw [toolsList_serving, toolsList_serving, scopeView_published server one other h]

/-- A view of a given list of contracts, when it can be built. -/
theorem exists_publishedView (sha256 : ByteArray → String) (contracts : List Tool)
    (hdis : (contracts.map toolKey).Nodup)
    (hbuilt : (ToolView.build sha256 contracts).isOk = true) :
    ∃ view : PublishedView sha256, view.published.tools = ToolView.ordered contracts := by
  cases hview : ToolView.build sha256 contracts with
  | error =>
    rw [hview] at hbuilt
    cases hbuilt
  | ok published =>
    exact ⟨⟨contracts, published, fun _ => none, hdis, hview⟩, tools_of_build hview⟩

/-- A contract for one role. -/
def roleTool (toolId role : String) : Tool :=
  { ToolView.schemaTool ToolView.plainSchema with toolId := toolId, allowedRoles := [role] }

/-- A server on which examples are run. -/
def plainServer : Server Authn.plainPrimitives where
  sha256 := fun _ => "0"

/-- A planner is shown the same listing whether or not an auditor's tool is published next to
the tool it may call. -/
theorem tools_list_noninterfering_auditor :
    ∃ one other : PublishedView plainServer.sha256, one.published.tools.length = 1 ∧
      other.published.tools.length = 2 ∧ one.AllowsSame other ["planner"] ∧
      (plainServer.serving one).toolsList (some { roles := ["planner"] }) (ok { runId := "" }) =
        (plainServer.serving other).toolsList (some { roles := ["planner"] })
          (ok { runId := "" }) := by
  obtain ⟨one, hone⟩ := exists_publishedView plainServer.sha256 [roleTool "quote" "planner"]
    (by decide) (by decide +kernel)
  obtain ⟨other, hother⟩ := exists_publishedView plainServer.sha256
    [roleTool "quote" "planner", roleTool "audit" "auditor"] (by decide) (by decide +kernel)
  have hone' : one.published.tools = [(roleTool "quote" "planner").ordered] := hone
  have hother' : other.published.tools =
      [(roleTool "audit" "auditor").ordered, (roleTool "quote" "planner").ordered] := hother
  have hsame : one.AllowsSame other ["planner"] := by
    intro tool hall
    rw [hone', hother']
    simp only [List.mem_cons, List.not_mem_nil, or_false]
    refine ⟨.inr, fun h => h.resolve_left ?_⟩
    rintro rfl
    exact absurd hall (by decide)
  refine ⟨one, other, by rw [hone']; rfl, by rw [hother']; rfl, hsame, ?_⟩
  exact tools_list_noninterfering plainServer one other (some { roles := ["planner"] }) "" hsame

end Listings

end Flory.Mcp

namespace Flory

open Except (ok)
open ToolView (Tool)

/-! ### Roles and companions -/

/-- Binary search finds an element of a sorted list where it is. -/
theorem searchBetween_getElem {values : List String} (hs : values.Pairwise (· < ·)) {k : ℕ}
    (hk : k < values.length) {fuel low high : ℕ} (hlow : low ≤ k) (hhigh : k ≤ high)
    (hlen : high ≤ values.length) (hfuel : high - low < fuel) :
    searchBetween values values[k] fuel low high = k := by
  have hlt := List.pairwise_iff_getElem.mp hs
  induction fuel generalizing low high with
  | zero => omega
  | succ fuel ih =>
    unfold searchBetween
    split
    · generalize hm : (low + high) / 2 = mid
      have hmid : mid < values.length := by omega
      simp only [List.getD_eq_getElem?_getD, List.getElem?_eq_getElem hmid, Option.getD_some]
      split
      · rename_i hless
        have hne : mid ≠ k := by
          rintro rfl
          exact String.lt_irrefl _ hless
        have hnot : ¬ k < mid := fun hgt => String.lt_asymm (hlt _ _ hk hmid hgt) hless
        exact ih (by omega) hhigh hlen (by omega)
      · rename_i hless
        have hle : ¬ mid < k := fun hgt => hless (hlt _ _ hmid hk hgt)
        exact ih hlow (by omega) (by omega) (by omega)
    · omega

/-- A sorted list is searched for what it holds. -/
theorem holdsSorted_iff {values : List String} (hs : values.Pairwise (· < ·)) {x : String} :
    holdsSorted values x = true ↔ x ∈ values := by
  rw [holdsSorted, beq_iff_eq]
  constructor
  · exact List.mem_of_getElem?
  · intro hx
    obtain ⟨k, hk, rfl⟩ := List.mem_iff_getElem.mp hx
    rw [searchBetween_getElem hs hk (Nat.zero_le k) hk.le (Nat.le_refl _) (by omega)]
    exact List.getElem?_eq_getElem hk

/-- **Role coverage is authorisation implication.** -/
theorem rolesCover_iff {required offered : List String} (hreq : required.Pairwise (· < ·))
    (hoff : offered.Pairwise (· < ·)) : rolesCover required offered = true ↔
      ∀ roles, Authn.allows roles required = true → Authn.allows roles offered = true := by
  have hstar := holdsSorted_iff hreq (x := "*")
  have hstar' := holdsSorted_iff hoff (x := "*")
  simp only [rolesCover, Authn.allows, Bool.or_eq_true, List.any_eq_true, List.contains_iff_mem]
  constructor
  · grind
  · intro h
    by_cases hr : "*" ∈ required
    · simpa [hstar.mpr hr, hstar'] using h [] (by simp [hr])
    · have hall : "*" ∉ offered → ∀ role ∈ required, role ∈ offered := by
        intro ho role hrole
        have := h [role] (by simp [hrole])
        grind
      grind

/-- A tool of a view as the contract whose companions are resolved. -/
def contractOf (tool : Tool) : ToolContract where
  toolId := tool.toolId
  toolVersion := tool.toolVersion
  txn :=
    { effectClass := .none
      mode := if tool.txn.mode = "tcc" then .tcc else .saga
      idempotentRetryable := tool.txn.idempotentRetryable
      confirmTool := tool.txn.confirmTool
      cancelTool := tool.txn.cancelTool
      compensateTool := tool.txn.compensateTool
      statusTool := tool.txn.statusTool }
  compensationStyle := if tool.compensationStyle = "delta" then .delta
    else if tool.compensationStyle = "snapshot" then .snapshot else .notCompensating
  allowedRoles := tool.allowedRoles

/-- **Role coverage is exactly authorisation implication**, and a view closed under companions
stays closed when it is scoped to a principal. -/
theorem roles_cover_exactly {prims : Authn.Primitives} (server : Mcp.Server prims) :
    (∀ required offered, required ≠ [] → offered ≠ [] → required.Pairwise (· < ·) →
      offered.Pairwise (· < ·) → (rolesCover required offered = true ↔
        ∀ roles, Authn.allows roles required = true → Authn.allows roles offered = true)) ∧
    ∀ (source served : Mcp.ResolvedView) roles,
      (∀ tool ∈ source.published.tools, tool.allowedRoles.Pairwise (· < ·)) →
      (∀ tool ∈ source.published.tools,
        resolveCompanions (source.published.tools.map contractOf) (contractOf tool) = none) →
      server.scopeView source roles = ok served →
      ∀ tool ∈ served.published.tools, ∀ companion ∈ companions (contractOf tool),
        (∃ candidate ∈ served.published.tools, candidate.toolId = companion) ∧
        ∀ candidate ∈ source.published.tools, candidate.toolId = companion →
          candidate.ordered ∈ served.published.tools := by
  refine ⟨fun required offered _ _ => rolesCover_iff, ?_⟩
  intro source served roles hsor hclos hscope tool htool companion hcom
  have hmem : ∀ t, t ∈ served.published.tools ↔
      ∃ t' ∈ source.published.tools, Authn.allows roles t'.allowedRoles = true ∧ t'.ordered = t := by
    unfold Mcp.Server.scopeView at hscope
    split at hscope
    · cases hscope
    rename_i published hbuild
    split at hscope
    · cases hscope
    cases hscope
    intro t
    simp [Mcp.tools_of_build hbuild, ToolView.ordered, and_assoc]
  obtain ⟨t, ht, hall, rfl⟩ := (hmem tool).mp htool
  obtain ⟨⟨candidate, hcand, hid⟩, hfit⟩ := resolveCompanions_eq_none.mp (hclos t ht) companion hcom
  have hkept : ∀ candidate ∈ source.published.tools, candidate.toolId = companion →
      candidate.ordered ∈ served.published.tools := by
    intro candidate hcand hid
    have hcover := (resolveVersion_eq_none.mp
      (hfit (contractOf candidate) (List.mem_map_of_mem hcand) hid)).1
    exact (hmem _).mpr ⟨candidate, hcand, (rolesCover_iff (hsor t ht) (hsor candidate hcand)).mp
      hcover roles hall, rfl⟩
  obtain ⟨c, hc, rfl⟩ := List.mem_map.mp hcand
  exact ⟨⟨c.ordered, hkept c hc hid, hid⟩, hkept⟩

/-- A view with a booking of planners, its release, which auditors may call too, and a tool of
auditors. -/
def bookingView : Mcp.ResolvedView where
  published :=
    { ref := "", digest := "", canonical := ByteArray.empty
      tools :=
        [{ Mcp.roleTool "book" "planner" with
            txn := { effectClass := "reversible", mode := "saga", compensateTool := "release" } },
         { Mcp.roleTool "release" "planner" with
            txn := { effectClass := "bufferable", mode := "plain", idempotentRetryable := true }
            compensationStyle := "delta"
            allowedRoles := ["auditor", "planner"] },
         Mcp.roleTool "audit" "auditor"] }
  schemas _ := none

/-- The roles of the release cover those of the booking, and a planner is served both. -/
theorem roles_cover_exactly_planner :
    rolesCover ["planner"] ["auditor", "planner"] = true ∧
    (∀ roles, Authn.allows roles ["planner"] = true →
      Authn.allows roles ["auditor", "planner"] = true) ∧
    ∃ served, Mcp.plainServer.scopeView bookingView ["planner"] = ok served ∧
      served.published.tools.map (fun tool => (tool.toolId, companions (contractOf tool))) =
        [("book", ["release"]), ("release", [])] ∧
      ∀ tool ∈ served.published.tools, ∀ companion ∈ companions (contractOf tool),
        ∃ candidate ∈ served.published.tools, candidate.toolId = companion := by
  have hcover : rolesCover ["planner"] ["auditor", "planner"] = true := by decide +kernel
  obtain ⟨served, hserved, htools⟩ := Fallible.exists_ok_of_any
    (Mcp.plainServer.scopeView bookingView ["planner"])
    (fun served => served.published.tools.map
      (fun tool => (tool.toolId, companions (contractOf tool))) =
        [("book", ["release"]), ("release", [])]) (by decide +kernel)
  refine ⟨hcover, ?_, served, hserved, of_decide_eq_true htools, ?_⟩
  · exact ((roles_cover_exactly Mcp.plainServer).1 _ _ (by simp) (by simp) (by simp)
      (by decide)).mp hcover
  · intro tool htool companion hcom
    exact ((roles_cover_exactly Mcp.plainServer).2 bookingView served ["planner"]
      (by decide +kernel) (by decide +kernel) hserved tool htool companion hcom).1

end Flory
