import Mathlib.Data.Finset.Card
import Mathlib.Data.List.MinMax
import Mathlib.Order.Nat

/-!
# Depths in a Finite Acyclic Graph

The length of the longest path to a node, where the path stays among a list of members. It
is found level by level, as a recursive query finds it: the members at the end of a path of
`n + 1` edges are those with an edge from the end of a path of `n`.

A graph in which some rank increases along every edge has no cycle, so no path among the
members has more edges than members. If moreover every node on a path between two members
is a member, the depth increases along every path.

## Main results

* `depth_lt_of_edge`: the depth increases along an edge between members.
* `depth_lt_of_below`: it increases along every path between them, when they are convex.
-/

namespace Dag

variable {α : Type} [DecidableEq α]

/-- The members at the end of a path of this many edges among the members. -/
def pathsAt (edge : α → α → Bool) (members : List α) : ℕ → List α
  | 0 => members
  | n + 1 => members.filter fun child => (pathsAt edge members n).any fun parent => edge parent child

/-- The largest number of edges of such a path to a node. -/
def depth (edge : α → α → Bool) (members : List α) (v : α) : ℕ :=
  ((List.range (members.length + 1)).filter fun n =>
    (pathsAt edge members n).contains v).foldr max 0

omit [DecidableEq α] in
/-- A node is below another when a proper path leads to it. -/
def Below (edge : α → α → Bool) : α → α → Prop :=
  Relation.TransGen fun parent child => edge parent child = true

omit [DecidableEq α] in
/-- Members are convex when every node on a path between two of them is one of them. -/
def Convex (edge : α → α → Bool) (members : List α) : Prop :=
  ∀ u ∈ members, ∀ v ∈ members, ∀ x, Below edge u x → Below edge x v → x ∈ members

/-! ### The largest number of a list -/

theorem foldr_max_mem (l : List ℕ) : l.foldr max 0 = 0 ∨ l.foldr max 0 ∈ l := by
  by_cases hl : l = []
  · exact .inl (by rw [hl]; rfl)
  · exact .inr (List.maximum_mem (List.foldr_max_of_ne_nil hl).symm)

/-! ### Paths among the members -/

section Ranked

variable {edge : α → α → Bool} {members : List α} {rank : α → ℕ} {n : ℕ} {v : α}

omit [DecidableEq α] in
theorem mem_of_mem_pathsAt (h : v ∈ pathsAt edge members n) : v ∈ members := by
  cases n with
  | zero => exact h
  | succ => exact (List.mem_filter.mp h).1

section

variable (hrank : ∀ a ∈ members, ∀ b ∈ members, edge a b = true → rank a < rank b)

include hrank

omit [DecidableEq α] in
/-- A path of `n` edges visits `n + 1` members, whose ranks decrease towards its start. -/
theorem exists_path (h : v ∈ pathsAt edge members n) :
    ∃ path : List α, path.length = n ∧ (v :: path).Pairwise (fun a b => rank b < rank a) ∧
      ∀ x ∈ v :: path, x ∈ members := by
  induction n generalizing v with
  | zero => exact ⟨[], rfl, List.pairwise_singleton _ _, List.forall_mem_singleton.mpr h⟩
  | succ n ih =>
    obtain ⟨hv, hpar⟩ := List.mem_filter.mp h
    obtain ⟨p, hp, hedge⟩ := List.any_eq_true.mp hpar
    obtain ⟨path, hlen, hdec, hmem⟩ := ih hp
    refine ⟨p :: path, by simp [hlen], List.pairwise_cons.mpr ⟨fun x hx => ?_, hdec⟩,
      List.forall_mem_cons.mpr ⟨hv, hmem⟩⟩
    have hlt := hrank p (mem_of_mem_pathsAt hp) v hv hedge
    rcases List.mem_cons.mp hx with rfl | hx
    · exact hlt
    · exact Nat.lt_trans ((List.pairwise_cons.mp hdec).1 x hx) hlt

omit [DecidableEq α] in
/-- A path has fewer edges than there are members. -/
theorem lt_length_of_mem_pathsAt (h : v ∈ pathsAt edge members n) : n < members.length := by
  obtain ⟨path, rfl, hdec, hmem⟩ := exists_path hrank h
  have hnod : (v :: path).Nodup :=
    List.Pairwise.imp (fun {a b} (hlt : rank b < rank a) (heq : a = b) =>
      Nat.lt_irrefl _ (heq ▸ hlt)) hdec
  exact (hnod.subperm hmem).length_le

/-! ### Depths -/

omit hrank in
theorem le_depth (hn : n ≤ members.length) (h : v ∈ pathsAt edge members n) :
    n ≤ depth edge members v :=
  List.le_max_of_le (List.mem_filter.mpr ⟨by simpa using Nat.lt_succ_of_le hn, by simpa using h⟩)
    (Nat.le_refl n)

omit hrank in
/-- A path as long as the depth leads to every member. -/
theorem mem_pathsAt_depth (hv : v ∈ members) : v ∈ pathsAt edge members (depth edge members v) := by
  rcases foldr_max_mem ((List.range (members.length + 1)).filter fun n =>
    (pathsAt edge members n).contains v) with hzero | hmem
  · rw [depth, hzero]
    exact hv
  · have := (List.mem_filter.mp hmem).2
    exact List.contains_iff_mem.mp this

/-- **The depth increases along an edge** between members. -/
theorem depth_lt_of_edge {u : α} (hu : u ∈ members) (hv : v ∈ members) (hedge : edge u v = true) :
    depth edge members u < depth edge members v := by
  have hpath : u ∈ pathsAt edge members (depth edge members u) := mem_pathsAt_depth hu
  refine le_depth (lt_length_of_mem_pathsAt hrank hpath) ?_
  exact List.mem_filter.mpr ⟨hv, List.any_eq_true.mpr ⟨u, hpath, hedge⟩⟩

/-- **The depth increases along every path** between convex members. -/
theorem depth_lt_of_below (hcon : Convex edge members) {u : α} (hu : u ∈ members)
    (hv : v ∈ members) (h : Below edge u v) : depth edge members u < depth edge members v := by
  induction h with
  | single hedge => exact depth_lt_of_edge hrank hu hv hedge
  | tail hbel hedge ih =>
    have hmid := hcon u hu _ hv _ hbel (.single hedge)
    exact Nat.lt_trans (ih hmid) (depth_lt_of_edge hrank hmid hv hedge)

end

end Ranked

/-! ### Ranks -/

/-- A relation without a cycle whose edges start at finitely many nodes has a rank that
increases along it: the number of nodes below. -/
theorem exists_rank {r : α → α → Prop} {nodes : List α} (hmem : ∀ a b, r a b → a ∈ nodes)
    (hacyc : ∀ a, ¬ Relation.TransGen r a a) : ∃ rank : α → ℕ, ∀ a b, r a b → rank a < rank b := by
  classical
  refine ⟨fun b => (nodes.toFinset.filter fun a => Relation.TransGen r a b).card, fun a b hab => ?_⟩
  refine Finset.card_lt_card ((Finset.ssubset_iff_of_subset fun x hx => ?_).mpr ⟨a, ?_, ?_⟩)
  · rw [Finset.mem_filter] at hx ⊢
    exact ⟨hx.1, hx.2.tail hab⟩
  · exact Finset.mem_filter.mpr ⟨List.mem_toFinset.mpr (hmem a b hab), .single hab⟩
  · exact fun ha => hacyc a (Finset.mem_filter.mp ha).2

/-- In a list in which no edge leads backwards, edges lead to later positions. -/
theorem idxOf_lt_of_edge {edge : α → α → Bool} {nodes : List α}
    (hfor : nodes.Pairwise fun a b => edge b a = false) {a b : α} (ha : a ∈ nodes)
    (hb : b ∈ nodes) (hne : a ≠ b) (hedge : edge a b = true) : nodes.idxOf a < nodes.idxOf b := by
  by_contra hnot
  have hlt : nodes.idxOf b < nodes.idxOf a := by
    refine Nat.lt_of_le_of_ne (Nat.le_of_not_lt hnot) fun heq => hne ?_
    exact ((List.idxOf_inj hb).mp heq).symm
  have hback := List.pairwise_iff_getElem.mp hfor _ _ (List.idxOf_lt_length_of_mem hb)
    (List.idxOf_lt_length_of_mem ha) hlt
  rw [List.getElem_idxOf, List.getElem_idxOf, hedge] at hback
  cases hback

end Dag
