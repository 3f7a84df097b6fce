import Flory.Counterfactual

/-!
# Published Rule Templates

`RuleTemplateStore` keeps the published templates by reference and by the digest of their content,
and records every publication as a patch of the draft published before under its reference.
A publication is that of an admitted draft (a refused one leaves the store as it is), and what
admits a draft, `publishRuleTemplate`, never reads its reference.

## Main results

* `resolve_pinned`: a digest resolves to a template with that digest.
* `replay_published`: the recorded patches lead to the published draft.
-/

namespace Flory

deriving instance DecidableEq for RuleBranch

/-- `RuleTemplateDraft`. -/
structure RuleTemplateDraft where
  templateRef : String
  branches : List RuleBranch

/-- `PublishedRuleTemplate` as it is resolved: the draft and its digest. -/
structure PinnedTemplate extends RuleTemplateDraft where
  digest : String

/-- `digestOfTemplate`, over a hash of the content. -/
def digestOfTemplate (sha : RuleTemplateDraft → String) (draft : RuleTemplateDraft) : String :=
  "sha256:" ++ sha draft

/-- `PatchOperation`: on the whole document (the empty path), or on one of its branches. -/
inductive PatchOperation
  | addRoot (draft : RuleTemplateDraft)
  | add (index : ℕ) (value : RuleBranch)
  | remove (index : ℕ)
  | replace (index : ℕ) (value : RuleBranch)

/-- The loop of `diffTemplates` from an index on, over the branches left of the two drafts. -/
def diffBranches (index : ℕ) : List RuleBranch → List RuleBranch → List PatchOperation
  | before, [] => (List.range' index before.length).map .remove
  | [], after :: rest => .add index after :: diffBranches (index + 1) [] rest
  | before :: rest, after :: rest' =>
    (if before = after then [] else [.replace index after]) ++ diffBranches (index + 1) rest rest'

/-- `diffTemplates`. -/
def diffTemplates : Option RuleTemplateDraft → RuleTemplateDraft → List PatchOperation
  | none, next => [.addRoot next]
  | some previous, next => diffBranches 0 previous.branches next.branches

/-- `RuleTemplateStore`, with the references and the diffs of its `rule_template/published`. -/
structure RuleTemplateStore where
  byRef : Table String PinnedTemplate := ∅
  byDigest : Table String PinnedTemplate := ∅
  drafts : Table String RuleTemplateDraft := ∅
  events : List (String × List PatchOperation) := []

namespace RuleTemplateStore

variable (sha : RuleTemplateDraft → String)

/-- `publish`. -/
def publish (store : RuleTemplateStore) (draft : RuleTemplateDraft) : RuleTemplateStore where
  byRef := store.byRef.insert draft.templateRef ⟨draft, digestOfTemplate sha draft⟩
  byDigest := store.byDigest.insert (digestOfTemplate sha draft) ⟨draft, digestOfTemplate sha draft⟩
  drafts := store.drafts.insert draft.templateRef draft
  events := store.events ++
    [(draft.templateRef, diffTemplates (store.drafts.lookup draft.templateRef) draft)]

/-- `resolve`. -/
def resolve (store : RuleTemplateStore) (reference : String) : Option PinnedTemplate :=
  (store.byRef.lookup reference).or (store.byDigest.lookup reference)

/-- The stores that publications lead to, each of which meets a condition. -/
abbrev LeadsTo (allowed : RuleTemplateStore → RuleTemplateDraft → Prop) :
    RuleTemplateStore → RuleTemplateStore → Prop :=
  Transition.Reachable (fun store draft => some (store.publish sha draft)) allowed

/-! ### Pins -/

/-- The reference of a draft is no digest, and its digest no reference. -/
def KeepsPins (store : RuleTemplateStore) (draft : RuleTemplateDraft) : Prop :=
  draft.templateRef ≠ digestOfTemplate sha draft ∧
    store.byDigest.lookup draft.templateRef = none ∧
    store.byRef.lookup (digestOfTemplate sha draft) = none

/-- A digest leads to a template with that digest, and is no reference. -/
def Pinned (store : RuleTemplateStore) : Prop :=
  ∀ digest template, store.byDigest.lookup digest = some template →
    template.digest = digest ∧ store.byRef.lookup digest = none

variable {sha} {store later : RuleTemplateStore} {draft : RuleTemplateDraft}

/-- What a publication keeps. -/
theorem Pinned.publish (h : store.Pinned) (hkeeps : KeepsPins sha store draft) :
    (store.publish sha draft).Pinned := by
  obtain ⟨hown, hdig, href⟩ := hkeeps
  intro digest template hlook
  simp only [RuleTemplateStore.publish, Table.lookup_insert_eq] at hlook ⊢
  split at hlook
  · next heq =>
    cases hlook
    rw [heq, if_neg (Ne.symm hown)]
    exact ⟨rfl, href⟩
  · rw [if_neg fun heq => by rw [heq, hdig] at hlook; cases hlook]
    exact h digest template hlook

/-- **A pin is stable**, as long as no reference is a digest: a digest, once published, resolves to
a template with that digest, whatever is published later. -/
theorem resolve_pinned (hstore : LeadsTo sha (KeepsPins sha) {} store)
    (hkeeps : KeepsPins sha store draft)
    (hlater : LeadsTo sha (KeepsPins sha) (store.publish sha draft) later) :
    ∃ template, later.resolve (digestOfTemplate sha draft) = some template ∧
      template.digest = digestOfTemplate sha draft := by
  have hpin : store.Pinned := hstore.invariant nofun fun _ _ _ h hall hstep =>
    Option.some.inj hstep ▸ h.publish hall
  obtain ⟨hpin, hsome⟩ := hlater.invariant
      (I := fun s => s.Pinned ∧ (s.byDigest.lookup (digestOfTemplate sha draft)).isSome)
      ⟨hpin.publish hkeeps, by simp [publish]⟩ <| by
    rintro s _ _ ⟨hpin, hsome⟩ hall ⟨⟩
    refine ⟨hpin.publish hall, ?_⟩
    rw [publish, Table.lookup_insert_eq]
    split
    · rfl
    · exact hsome
  obtain ⟨template, hlook⟩ := Option.isSome_iff_exists.mp hsome
  obtain ⟨hdig, href⟩ := hpin _ _ hlook
  exact ⟨template, by rw [resolve, href, hlook]; rfl, hdig⟩

/-- A template with one branch for each condition. -/
def conditional (ref : String) (conditions : List String) : RuleTemplateDraft :=
  ⟨ref, conditions.map fun condition => { condition, subDag := ⟨[], []⟩ }⟩

/-- The conditions as a hash. -/
def plainHash (draft : RuleTemplateDraft) : String :=
  String.join (draft.branches.map RuleBranch.condition)

/-- The digest of a version that is superseded. -/
theorem resolve_pinned_twoVersions :
    ∃ template, ((publish plainHash {} (conditional "rule" ["a"])).publish plainHash
      (conditional "rule" ["b"])).resolve "sha256:a" = some template ∧ template.digest = "sha256:a" :=
  resolve_pinned .refl ⟨by decide, rfl, rfl⟩ (.tail .refl ⟨by decide, rfl, rfl⟩ rfl)

theorem resolve_publish (store : RuleTemplateStore) (draft : RuleTemplateDraft) :
    (store.publish sha draft).resolve draft.templateRef =
      some ⟨draft, digestOfTemplate sha draft⟩ := by
  rw [resolve, publish, Table.lookup_insert_eq, if_pos rfl, Option.some_or]

/-- **A reference moves a pin**: whatever the hash, the digest of one template can be the reference
of the next. -/
theorem pin_moved : ¬ ∃ sha : RuleTemplateDraft → String, Function.Injective sha ∧
    ∀ first second, ∃ template, ((publish sha {} first).publish sha second).resolve
      (digestOfTemplate sha first) = some template ∧
      template.digest = digestOfTemplate sha first := by
  rintro ⟨sha, hinj, h⟩
  let first := conditional "rule" ["a"]
  obtain ⟨template, hres, hdig⟩ := h first (conditional (digestOfTemplate sha first) ["b"])
  cases hres.symm.trans (resolve_publish _ (conditional (digestOfTemplate sha first) ["b"]))
  have hsame := hinj ((String.append_right_inj _).mp hdig)
  simp [first, conditional] at hsame

/-! ### Replay -/

/-- The operations recorded for a reference. -/
def history (store : RuleTemplateStore) (ref : String) : List PatchOperation :=
  (store.events.filter (·.1 == ref)).flatMap (·.2)

end RuleTemplateStore

/-- One operation on a document as RFC 6902 has it: `add` inserts at an index up to the length, and
the others need an entry there. -/
def patch (document : RuleTemplateDraft) : PatchOperation → Option RuleTemplateDraft
  | .addRoot draft => some draft
  | .add index value =>
    if index ≤ document.branches.length then
      some { document with branches := document.branches.insertIdx index value }
    else none
  | .remove index =>
    if index < document.branches.length then
      some { document with branches := document.branches.eraseIdx index }
    else none
  | .replace index value =>
    if index < document.branches.length then
      some { document with branches := document.branches.set index value }
    else none

/-- The document that operations lead to, starting from nothing. -/
def replay : List PatchOperation → Option RuleTemplateDraft
  | .addRoot draft :: rest => rest.foldlM patch draft
  | _ => none

namespace RuleTemplateStore

variable {sha : RuleTemplateDraft → String} {store : RuleTemplateStore} {draft : RuleTemplateDraft}
  {ref : String}

/-- A draft has at most one branch less than the one before under its reference. -/
def KeepsBranches (store : RuleTemplateStore) (draft : RuleTemplateDraft) : Prop :=
  ∀ previous, store.drafts.lookup draft.templateRef = some previous →
    previous.branches.length ≤ draft.branches.length + 1

/-- The loop leads from the one list of branches to the other. -/
theorem foldlM_diffBranches {done old new : List RuleBranch} {index : ℕ} (hdone : done.length = index)
    (h : old.length ≤ new.length + 1) :
    (diffBranches index old new).foldlM patch ⟨ref, done ++ old⟩ = some ⟨ref, done ++ new⟩ := by
  -- `done` has the branches of the next draft up to the index
  induction new generalizing index done old with
  | nil =>
    match old, h with
    | [], _ => simp [diffBranches]
    | [_], _ => simp [diffBranches, patch, ← hdone, List.eraseIdx_append_of_length_le]
  | cons after rest ih =>
    have hrest := @ih (done ++ [after]) old.tail (index + 1) (by simp [hdone]) (by simpa using h)
    cases old with
    | nil => simpa [diffBranches, patch, ← hdone] using hrest
    | cons before =>
      by_cases heq : before = after
      · simpa [diffBranches, heq] using hrest
      · simpa [diffBranches, heq, patch, ← hdone] using hrest

theorem replay_append {ops : List PatchOperation} (h : replay ops = some draft)
    (ops' : List PatchOperation) : replay (ops ++ ops') = ops'.foldlM patch draft := by
  unfold replay at h
  split at h
  · rw [List.cons_append, replay, List.foldlM_append, h]
    rfl
  · cases h

/-- The history of a reference leads to its last draft. -/
def Replayed (store : RuleTemplateStore) : Prop :=
  ∀ ref, (store.drafts.lookup ref = none → store.history ref = []) ∧
    ∀ draft, store.drafts.lookup ref = some draft →
      draft.templateRef = ref ∧ replay (store.history ref) = some draft

theorem history_publish : (store.publish sha draft).history ref = store.history ref ++
    if draft.templateRef = ref then diffTemplates (store.drafts.lookup draft.templateRef) draft
    else [] := by
  rw [publish, history, List.filter_append, List.flatMap_append]
  by_cases heq : draft.templateRef = ref <;> simp [heq, history]

/-- The recorded patch leads from the last draft to the next. -/
theorem Replayed.next (h : store.Replayed) (hkeeps : KeepsBranches store draft) :
    replay ((store.publish sha draft).history draft.templateRef) = some draft := by
  obtain ⟨hnone, hsome⟩ := h draft.templateRef
  rw [history_publish, if_pos rfl]
  cases hprev : store.drafts.lookup draft.templateRef with
  | none =>
    rw [hnone hprev]
    rfl
  | some previous =>
    obtain ⟨href, hrep⟩ := hsome previous hprev
    obtain ⟨_, _⟩ := previous
    cases href
    rw [replay_append hrep]
    exact foldlM_diffBranches (List.length_nil) (hkeeps _ hprev)

theorem Replayed.publish (h : store.Replayed) (hkeeps : KeepsBranches store draft) :
    (store.publish sha draft).Replayed := by
  intro ref
  by_cases heq : ref = draft.templateRef
  · have hlook : (store.publish sha draft).drafts.lookup ref = some draft := by
      rw [RuleTemplateStore.publish, Table.lookup_insert_eq, if_pos heq]
    refine ⟨fun hnone => absurd (hlook.symm.trans hnone) (Option.some_ne_none _), ?_⟩
    intro last hlast
    cases hlook.symm.trans hlast
    exact ⟨heq.symm, heq ▸ h.next hkeeps⟩
  · rw [history_publish, if_neg (Ne.symm heq), List.append_nil]
    simpa [RuleTemplateStore.publish, heq] using h ref

/-- **The history of a template can be replayed**, as long as no draft drops two branches. -/
theorem replay_published (hstore : LeadsTo sha KeepsBranches {} store)
    (hkeeps : KeepsBranches store draft) :
    replay ((store.publish sha draft).history draft.templateRef) = some draft := by
  have hrep : store.Replayed := hstore.invariant (fun _ => ⟨fun _ => rfl, nofun⟩)
    fun _ _ _ h hall hstep => Option.some.inj hstep ▸ h.publish hall
  exact hrep.next hkeeps

/-- A rule with these branches is published after one with three. -/
def republished (conditions : List String) : RuleTemplateStore :=
  (publish plainHash {} (conditional "rule" ["a", "b", "c"])).publish plainHash
    (conditional "rule" conditions)

/-- One branch of three is dropped and another one replaced. -/
theorem replay_published_two :
    replay ((republished ["a", "d"]).history "rule") = some (conditional "rule" ["a", "d"]) :=
  replay_published (.tail .refl nofun rfl) fun previous h => by
    cases h
    decide

/-- **Two branches of three cannot be dropped**: the second is removed, and then there is no third. -/
theorem replay_dropped :
    (∀ branch ∈ (conditional "rule" ["a", "b", "c"]).branches,
      checkSubDag branch.subDag .empty [] = .ok []) ∧
    replay ((republished ["a"]).history "rule") = none :=
  ⟨by decide +kernel, rfl⟩

end RuleTemplateStore

end Flory
