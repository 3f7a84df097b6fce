import Flory.OrderedMap

/-!
# The Ancestors of Every Node, Depth First

The transitive closure of a parent relation, found by a depth-first search that keeps the
ancestors of every finished node and stops at a node it is still visiting, or at a parent
it does not know.

Each visit adds a node to those that are being visited, so no more visits are nested than
there are nodes; the search takes that number as its fuel.

## Main results

* `visit_ok`: a visit that does not stop returns exactly the ancestors of its node.
* `closure_ok`: a search that does not stop finds the ancestors of every node, no cycle and no
  unknown parent.
* `closure_total`: a search stops only at a cycle or an unknown parent.
-/

namespace Closure

variable {α : Type} [DecidableEq α]
  {x : α} {rest result : List α} {fuel : ℕ} {visiting nodes : List α}

/-- Why a search stops. -/
inductive Stop (α : Type)
  | cycle (node : α)
  | unknown (parent child : α)

/-- The ancestors of the nodes that are finished. -/
abbrev Cache (α : Type) :=
  OrderedMap α (List α)

omit [DecidableEq α] in
/-- One node is an ancestor of another when a proper path of parents leads to it. -/
def Ancestor (parents : α → List α) : α → α → Prop :=
  Relation.TransGen fun parent child => parent ∈ parents child

/-- The parents of a node and their ancestors, on top of those already collected. -/
def collect (known : α → Bool) (visitParent : α → Cache α → Except (Stop α) (List α × Cache α))
    (x : α) : List α → List α → Cache α → Except (Stop α) (List α × Cache α)
  | [], result, cache => .ok (result, cache)
  | parent :: rest, result, cache =>
    if known parent then
      match visitParent parent cache with
      | .ok (ancestors, cache) =>
        collect known visitParent x rest
          (OrderedSet.addAll (OrderedSet.add result parent) ancestors) cache
      | .error stop => .error stop
    else .error (.unknown parent x)

/-- The ancestors of a node, with the finished nodes. -/
def visit (known : α → Bool) (parents : α → List α) :
    ℕ → List α → α → Cache α → Except (Stop α) (List α × Cache α)
  | 0, _, x, cache =>
    match cache.get? x with
    | some ancestors => .ok (ancestors, cache)
    | none => .error (.cycle x)
  | fuel + 1, visiting, x, cache =>
    match cache.get? x with
    | some ancestors => .ok (ancestors, cache)
    | none =>
      if x ∈ visiting then .error (.cycle x)
      else
        match collect known (visit known parents fuel (OrderedSet.add visiting x)) x
          (parents x) [] cache with
        | .ok (result, cache) => .ok (result, cache.set x result)
        | .error stop => .error stop

/-- The ancestors of every one of the nodes. -/
def closure (known : α → Bool) (parents : α → List α) (fuel : ℕ) :
    List α → Cache α → Except (Stop α) (Cache α)
  | [], cache => .ok cache
  | x :: rest, cache =>
    match visit known parents fuel [] x cache with
    | .ok (_, cache) => closure known parents fuel rest cache
    | .error stop => .error stop

/-! ### What a search finds -/

variable {visitParent : α → Cache α → Except (Stop α) (List α × Cache α)} {cache : Cache α}

section Search

variable {known : α → Bool} {parents : α → List α}

/-- What is kept of a finished node is its set of ancestors. -/
def Exact (parents : α → List α) (cache : Cache α) : Prop :=
  ∀ x ancestors, cache.get? x = some ancestors → ∀ z, z ∈ ancestors ↔ Ancestor parents z x

/-- Below a finished node there is no cycle: every path of parents ends. -/
def Grounded (parents : α → List α) (cache : Cache α) : Prop :=
  ∀ x ancestors, cache.get? x = some ancestors → Acc (fun parent child => parent ∈ parents child) x

/-- The parents of a finished node are known. -/
def Informed (known : α → Bool) (parents : α → List α) (cache : Cache α) : Prop :=
  ∀ x ancestors, cache.get? x = some ancestors → ∀ parent ∈ parents x, known parent = true

/-- What a search keeps of its finished nodes. -/
structure Finished (known : α → Bool) (parents : α → List α) (cache : Cache α) : Prop where
  isExact : Exact parents cache
  grounded : Grounded parents cache
  informed : Informed known parents cache

/-- The finished nodes of one search are among those of another. -/
def Extends (cache cache' : Cache α) : Prop :=
  ∀ x ancestors, cache.get? x = some ancestors → cache'.get? x = some ancestors

omit [DecidableEq α] in
/-- An ancestor is a parent, or an ancestor of a parent. -/
theorem ancestor_iff {z : α} :
    Ancestor parents z x ↔ ∃ parent ∈ parents x, z = parent ∨ Ancestor parents z parent := by
  constructor
  · intro h
    cases h with
    | single hpar => exact ⟨z, hpar, .inl rfl⟩
    | tail hbef hpar => exact ⟨_, hpar, .inr hbef⟩
  · rintro ⟨parent, hpar, rfl | hbef⟩
    · exact .single hpar
    · exact .tail hbef hpar

variable {cache' : Cache α}

/-- What the collection finds, when the visits of the parents return their ancestors. -/
theorem collect_ok
    (hvis : ∀ parent cache ancestors cache', visitParent parent cache = .ok (ancestors, cache') →
      Finished known parents cache → Finished known parents cache' ∧ Extends cache cache' ∧
        cache'.get? parent = some ancestors)
    {result' : List α} (h : collect known visitParent x rest result cache = .ok (result', cache'))
    (hcac : Finished known parents cache) :
    Finished known parents cache' ∧ Extends cache cache' ∧
      (∀ y ∈ rest, known y = true ∧ Acc (fun parent child => parent ∈ parents child) y) ∧
      ∀ z, z ∈ result' ↔ z ∈ result ∨ ∃ parent ∈ rest, z = parent ∨ Ancestor parents z parent := by
  induction rest generalizing result cache with
  | nil =>
    cases h
    exact ⟨hcac, fun _ _ => id, by simp, by simp⟩
  | cons parent rest ih =>
    unfold collect at h
    split at h
    · rename_i hknown
      split at h
      · rename_i ancestors mid hmid
        obtain ⟨hmidc, hext, hpar⟩ := hvis _ _ _ _ hmid hcac
        obtain ⟨hcac', hext', hrest, hres⟩ := ih h hmidc
        refine ⟨hcac', fun y s hy => hext' y s (hext y s hy),
          List.forall_mem_cons.mpr ⟨⟨hknown, hmidc.grounded _ _ hpar⟩, hrest⟩, fun z => ?_⟩
        rw [hres, OrderedSet.mem_addAll, OrderedSet.mem_add, hmidc.isExact _ _ hpar]
        simp only [List.mem_cons, exists_eq_or_imp, or_assoc]
      · cases h
    · cases h

/-- **A visit returns exactly the ancestors of its node**, and keeps what was found. -/
theorem visit_ok {ancestors : List α}
    (h : visit known parents fuel visiting x cache = .ok (ancestors, cache'))
    (hcac : Finished known parents cache) :
    Finished known parents cache' ∧ Extends cache cache' ∧ cache'.get? x = some ancestors := by
  induction fuel generalizing visiting x cache ancestors cache' with
  | zero =>
    unfold visit at h
    split at h
    · rename_i s hs
      obtain ⟨rfl, rfl⟩ := Prod.mk.inj (Except.ok.inj h)
      exact ⟨hcac, fun _ _ => id, hs⟩
    · cases h
  | succ fuel ih =>
    unfold visit at h
    split at h
    · rename_i s hs
      obtain ⟨rfl, rfl⟩ := Prod.mk.inj (Except.ok.inj h)
      exact ⟨hcac, fun _ _ => id, hs⟩
    rename_i hnew
    split at h
    · cases h
    split at h
    · rename_i result mid hcol
      obtain ⟨rfl, rfl⟩ := Prod.mk.inj (Except.ok.inj h)
      obtain ⟨hmid, hext, hpar, hres⟩ :=
        collect_ok (fun _ _ _ _ => ih) hcol hcac
      have hx : Acc (fun parent child => parent ∈ parents child) x := ⟨x, fun y hy => (hpar y hy).2⟩
      have hanc : ∀ z, z ∈ result ↔ Ancestor parents z x := fun z => by
        rw [hres, ancestor_iff]
        simp
      refine ⟨⟨fun y s hy => ?_, fun y s hy => ?_, fun y s hy => ?_⟩, fun y s hy => ?_,
        by rw [OrderedMap.get?_set, if_pos rfl]⟩
      · rw [OrderedMap.get?_set] at hy
        split at hy
        · rename_i heq
          obtain rfl := Option.some.inj hy
          exact heq ▸ hanc
        · exact hmid.isExact y s hy
      · rw [OrderedMap.get?_set] at hy
        split at hy
        · exact ‹y = x› ▸ hx
        · exact hmid.grounded y s hy
      · rw [OrderedMap.get?_set] at hy
        split at hy
        · exact ‹y = x› ▸ fun p hp => (hpar p hp).1
        · exact hmid.informed y s hy
      · rw [OrderedMap.get?_set]
        split
        · rename_i heq
          rw [heq, hnew] at hy
          cases hy
        · exact hext y s hy
    · cases h

/-- **A search finds the ancestors of every node**, exactly, no cycle and no unknown parent. -/
theorem closure_ok (h : closure known parents fuel nodes cache = .ok cache')
    (hcac : Finished known parents cache) :
    Finished known parents cache' ∧ Extends cache cache' ∧
      ∀ x ∈ nodes, ∃ ancestors, cache'.get? x = some ancestors := by
  induction nodes generalizing cache with
  | nil =>
    cases h
    exact ⟨hcac, fun _ _ => id, by simp⟩
  | cons x rest ih =>
    unfold closure at h
    split at h
    · rename_i ancestors mid hvis
      obtain ⟨hmid, hext, hx⟩ := visit_ok hvis hcac
      obtain ⟨hcac', hext', hrest⟩ := ih h hmid
      refine ⟨hcac', fun y s hy => hext' y s (hext y s hy), fun y hy => ?_⟩
      rcases List.mem_cons.mp hy with rfl | hy
      · exact ⟨ancestors, hext' _ _ hx⟩
      · exact hrest y hy
    · cases h

theorem finished_empty : Finished known parents (OrderedMap.empty : Cache α) := by
  constructor <;> simp [Exact, Grounded, Informed, OrderedMap.get?, OrderedMap.empty]

end Search

/-! ### Searches that do not stop -/

section Total

variable {known : α → Bool} {parents : α → List α}

omit [DecidableEq α] in
/-- Nodes that are known with all their parents, and a rank that falls along the parents: a
graph without a cycle. -/
structure Ranked (known : α → Bool) (parents : α → List α) (nodes : List α) (rank : α → ℕ) :
    Prop where
  isKnown : ∀ x ∈ nodes, known x = true
  closed : ∀ x ∈ nodes, ∀ parent ∈ parents x, parent ∈ nodes
  falls : ∀ x ∈ nodes, ∀ parent ∈ parents x, rank parent < rank x

/-- The collection does not stop when no visit of a parent does. -/
theorem collect_total (hknown : ∀ parent ∈ rest, known parent = true)
    (hvis : ∀ parent ∈ rest, ∀ cache, ∃ found, visitParent parent cache = .ok found) :
    ∃ found, collect known visitParent x rest result cache = .ok found := by
  induction rest generalizing result cache with
  | nil => exact ⟨_, rfl⟩
  | cons parent rest ih =>
    obtain ⟨⟨_, _⟩, hmid⟩ := hvis parent List.mem_cons_self cache
    unfold collect
    simp only [hknown parent List.mem_cons_self, if_true, hmid]
    exact ih (fun p hp => hknown p (List.mem_cons_of_mem _ hp))
      (fun p hp => hvis p (List.mem_cons_of_mem _ hp))

/-- **A visit does not stop** in a graph without a cycle, if its fuel exceeds the number of
nodes that are not being visited. -/
theorem visit_total {rank : α → ℕ} (h : Ranked known parents nodes rank) (hx : x ∈ nodes)
    (hnod : visiting.Nodup) (hvis : ∀ v ∈ visiting, v ∈ nodes ∧ rank x < rank v)
    (hfuel : nodes.length < fuel + visiting.length) :
    ∃ found, visit known parents fuel visiting x cache = .ok found := by
  induction fuel generalizing visiting x cache with
  | zero =>
    have hlen := (hnod.subperm fun v hv => (hvis v hv).1).length_le
    omega
  | succ fuel ih =>
    have hnew : x ∉ visiting := fun hmem => Nat.lt_irrefl _ (hvis x hmem).2
    unfold visit
    cases hcac : cache.get? x with
    | some => exact ⟨_, rfl⟩
    | none =>
      have hcol : ∃ found, collect known
          (visit known parents fuel (OrderedSet.add visiting x)) x (parents x) [] cache =
            .ok found := by
        refine collect_total (fun p hp => h.isKnown p (h.closed x hx p hp)) fun p hp cache => ?_
        have hadd : OrderedSet.add visiting x = visiting ++ [x] := by
          simp [OrderedSet.add, hnew]
        refine ih (h.closed x hx p hp) ?_ ?_ ?_
        · rw [hadd]
          exact List.nodup_append.mpr ⟨hnod, by simp, by
            rintro v hv _ hx rfl
            exact hnew (List.mem_singleton.mp hx ▸ hv)⟩
        · intro v hv
          rw [hadd, List.mem_append, List.mem_singleton] at hv
          have hfal := h.falls x hx p hp
          rcases hv with hv | rfl
          · exact ⟨(hvis v hv).1, Nat.lt_trans hfal (hvis v hv).2⟩
          · exact ⟨hx, hfal⟩
        · rw [hadd, List.length_append, List.length_singleton]
          omega
      obtain ⟨⟨_, _⟩, hmid⟩ := hcol
      simp only [hnew, if_false, hmid]
      exact ⟨_, rfl⟩

/-- **A search does not stop** in a graph without a cycle. -/
theorem closure_total {rank : α → ℕ} (h : Ranked known parents nodes rank)
    (hfuel : nodes.length < fuel) (hrest : ∀ x ∈ rest, x ∈ nodes) (cache : Cache α) :
    ∃ found, closure known parents fuel rest cache = .ok found := by
  induction rest generalizing cache with
  | nil => exact ⟨_, rfl⟩
  | cons x rest ih =>
    have hvis : ∃ found, visit known parents fuel [] x cache = .ok found :=
      visit_total h (hrest x List.mem_cons_self) List.nodup_nil (by simp) (by simpa using hfuel)
    obtain ⟨⟨_, mid⟩, hmid⟩ := hvis
    unfold closure
    simp only [hmid]
    exact ih (fun y hy => hrest y (List.mem_cons_of_mem _ hy)) mid

end Total

end Closure
