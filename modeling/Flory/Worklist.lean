import Mathlib.Data.Finset.Card
import Mathlib.Data.Nat.Find

/-!
# Searching a Graph with a Worklist

The nodes that can be reached from a node of a graph, collected by a search that keeps the
nodes seen and a stack of those still to be expanded. A node enters the stack once, when it
is first seen, so a search with one unit of fuel for the start and one for each node that
can be seen expands everything. A depth-first visit collects the same nodes by recursion.

## Main results

* `reached_spec`: with enough fuel a search returns the nodes that can be reached.
* `mem_visit`: so does a depth-first visit.
* `exists_distance_iff`: a node has a distance when it is the root or can be reached.
* `Distance.le_card`: a shortest walk is no longer than there are nodes with successors.
-/

namespace Worklist

variable {α : Type} [DecidableEq α]

/-- The nodes seen, and the stack of those still to be expanded, its top first. -/
structure Progress (α : Type) where
  seen : List α
  stack : List α

/-- A node is pushed when it is first seen. -/
def push (progress : Progress α) (x : α) : Progress α :=
  if x ∈ progress.seen then progress else ⟨progress.seen ++ [x], x :: progress.stack⟩

/-- The search: the top of the stack is expanded until the stack is empty. -/
def search (next : α → List α) : ℕ → Progress α → List α
  | 0, progress => progress.seen
  | fuel + 1, progress =>
    match progress.stack with
    | [] => progress.seen
    | x :: stack => search next fuel ((next x).foldl push ⟨progress.seen, stack⟩)

/-- The nodes reached from a node. -/
def reached (next : α → List α) (fuel : ℕ) (x : α) : List α :=
  search next fuel ⟨[], [x]⟩

/-- A node follows another. -/
def Reaches (next : α → List α) : α → α → Prop :=
  Relation.TransGen fun x y => y ∈ next x

omit [DecidableEq α] in
theorem Reaches.succ {next : α → List α} {root x y : α} (h : x = root ∨ Reaches next root x)
    (hy : y ∈ next x) :
    Reaches next root y := by
  obtain rfl | h := h
  · exact .single hy
  · exact h.tail hy

/-! ### What a search returns -/

section Search

variable {next : α → List α} {root : α} {progress : Progress α}

/-- The pushes add the nodes that are new, each once. -/
theorem foldl_push (xs : List α) (progress : Progress α) :
    ∃ new : List α, xs.foldl push progress =
        ⟨progress.seen ++ new, new.reverse ++ progress.stack⟩ ∧
      new.Nodup ∧ ∀ y, y ∈ new ↔ y ∈ xs ∧ y ∉ progress.seen := by
  induction xs generalizing progress with
  | nil => exact ⟨[], by simp, .nil, by simp⟩
  | cons x rest ih =>
    obtain ⟨new, hnew, hnod, hmem⟩ := ih (push progress x)
    rw [List.foldl_cons, hnew]
    by_cases hx : x ∈ progress.seen
    · have hkept : push progress x = progress := if_pos hx
      rw [hkept] at hmem ⊢
      exact ⟨new, rfl, hnod, fun y => by grind⟩
    · have hpus : push progress x = ⟨progress.seen ++ [x], x :: progress.stack⟩ := if_neg hx
      rw [hpus] at hmem ⊢
      refine ⟨x :: new, by simp, List.nodup_cons.mpr ⟨fun h => ?_, hnod⟩, fun y => by grind⟩
      exact ((hmem x).mp h).2 (by simp)

/-- **A search on its way**: what was seen is reachable, each node once, and what was seen and is
not on the stack was expanded. -/
structure Searching (next : α → List α) (root : α) (progress : Progress α) : Prop where
  nodup : progress.seen.Nodup
  seen : ∀ x ∈ progress.seen, Reaches next root x
  stack : ∀ x ∈ progress.stack, x = root ∨ x ∈ progress.seen
  expanded : ∀ x, x = root ∨ x ∈ progress.seen →
    x ∈ progress.stack ∨ ∀ y ∈ next x, y ∈ progress.seen

omit [DecidableEq α] in
/-- Expanding the top of the stack. -/
theorem Searching.step {x : α} {stack new : List α} (h : Searching next root progress)
    (hstack : progress.stack = x :: stack) (hnod : new.Nodup)
    (hmem : ∀ y, y ∈ new ↔ y ∈ next x ∧ y ∉ progress.seen) :
    Searching next root ⟨progress.seen ++ new, new.reverse ++ stack⟩ where
  nodup := List.nodup_append'.mpr ⟨h.nodup, hnod, fun y hy hnew => ((hmem y).mp hnew).2 hy⟩
  seen y hy := by
    rcases List.mem_append.mp hy with hy | hy
    · exact h.seen y hy
    have htop := h.stack x (hstack ▸ List.mem_cons_self)
    exact .succ (htop.imp_right (h.seen x)) ((hmem y).mp hy).1
  stack y hy := by
    have hold := h.stack y
    grind
  expanded y hy := by
    have hold := h.expanded y
    grind

omit [DecidableEq α] in
/-- A search with nothing left on its stack has seen what can be reached. -/
theorem Searching.mem_iff (h : Searching next root progress) (hstack : progress.stack = []) (y : α) :
    y ∈ progress.seen ↔ Reaches next root y := by
  have hclos : ∀ x, x = root ∨ x ∈ progress.seen → ∀ y ∈ next x, y ∈ progress.seen :=
    fun x hx => (h.expanded x hx).resolve_left (by simp [hstack])
  refine ⟨h.seen y, fun hy => ?_⟩
  induction hy with
  | single hy => exact hclos root (.inl rfl) _ hy
  | tail _ hy ih => exact hclos _ (.inr ih) _ hy

variable {fuel : ℕ}

/-- With fuel for the stack and for every node not yet seen, a search ends. -/
theorem Searching.search {univ : List α} (huniv : ∀ x, ∀ y ∈ next x, y ∈ univ)
    (h : Searching next root progress)
    (hfuel : progress.stack.length + univ.length ≤ fuel + progress.seen.length) :
    (search next fuel progress).Nodup ∧ ∀ y, y ∈ search next fuel progress ↔ Reaches next root y := by
  induction fuel generalizing progress with
  | zero =>
    have hseen : progress.seen ⊆ univ := fun y hy => by
      obtain ⟨x, -, hx⟩ := Relation.TransGen.tail'_iff.mp (h.seen y hy)
      exact huniv x y hx
    have hle := (h.nodup.subperm hseen).length_le
    exact ⟨h.nodup, h.mem_iff (List.length_eq_zero_iff.mp (by omega))⟩
  | succ fuel ih =>
    unfold Worklist.search
    split
    · exact ⟨h.nodup, h.mem_iff ‹_›⟩
    rename_i x stack hstack
    obtain ⟨_, hnew, hnod, hmem⟩ := foldl_push (next x) ⟨progress.seen, stack⟩
    rw [hnew]
    refine ih (h.step hstack hnod hmem) ?_
    rw [hstack, List.length_cons] at hfuel
    simp only [List.length_append, List.length_reverse]
    omega

/-- **A search with enough fuel returns what can be reached**, each node once. -/
theorem reached_spec {univ : List α} (huniv : ∀ x, ∀ y ∈ next x, y ∈ univ)
    (hfuel : univ.length + 1 ≤ fuel) (root : α) :
    (reached next fuel root).Nodup ∧ ∀ y, y ∈ reached next fuel root ↔ Reaches next root y := by
  refine Searching.search huniv ⟨.nil, by simp, by simp, fun x hx => .inl ?_⟩ ?_
  · simpa using hx
  · simpa [Nat.add_comm] using hfuel

end Search

/-! ### Distances -/

section Distances

variable {next : α → List α} {root x : α} {n m : ℕ}

/-- The nodes a number of steps away. -/
def Walk (next : α → List α) (root : α) : ℕ → α → Prop
  | 0, x => x = root
  | n + 1, x => ∃ y, Walk next root n y ∧ x ∈ next y

/-- The nodes that are a number of steps away, and no fewer. -/
def Distance (next : α → List α) (root : α) (n : ℕ) (x : α) : Prop :=
  Walk next root n x ∧ ∀ m < n, ¬ Walk next root m x

omit [DecidableEq α] in
theorem Distance.unique (h : Distance next root n x) (h' : Distance next root m x) : n = m := by
  by_contra hne
  rcases Nat.lt_or_gt_of_ne hne with hlt | hlt
  · exact h'.2 n hlt h.1
  · exact h.2 m hlt h'.1

omit [DecidableEq α] in
/-- A walk is no shorter than the distance. -/
theorem Walk.exists_distance (h : Walk next root n x) : ∃ m ≤ n, Distance next root m x := by
  classical
  have hex : ∃ m, Walk next root m x := ⟨n, h⟩
  exact ⟨Nat.find hex, Nat.find_min' hex h, Nat.find_spec hex, fun m hm => Nat.find_min hex hm⟩

omit [DecidableEq α] in
/-- A node with a distance is the root, or follows one that is a step closer. -/
theorem Distance.pred (h : Distance next root (n + 1) x) :
    ∃ y, Distance next root n y ∧ x ∈ next y := by
  obtain ⟨y, hwalk, hx⟩ := h.1
  exact ⟨y, ⟨hwalk, fun m hm hy => h.2 (m + 1) (by omega) ⟨y, hy, hx⟩⟩, hx⟩

omit [DecidableEq α] in
/-- There are nodes at every smaller distance. -/
theorem Distance.exists_of_le (h : Distance next root n x) (hle : m ≤ n) :
    ∃ y, Distance next root m y := by
  induction n generalizing x with
  | zero => exact ⟨x, by rwa [Nat.le_zero.mp hle]⟩
  | succ n ih =>
    rcases Nat.lt_or_ge n m with hlt | hge
    · exact ⟨x, by rwa [show m = n + 1 by omega]⟩
    · obtain ⟨y, hy, -⟩ := h.pred
      exact ih hy hge

/-- The nodes before one at a distance have distances and successors of their own, so there are
at least as many of them. -/
theorem Distance.le_card {univ : Finset α} (huniv : ∀ x, ∀ y ∈ next x, x ∈ univ)
    (h : Distance next root n x) : n ≤ univ.card := by
  suffices hbef : ∃ before : Finset α, before.card = n ∧
      ∀ y ∈ before, y ∈ univ ∧ ∃ m < n, Distance next root m y by
    obtain ⟨before, hcard, hmem⟩ := hbef
    exact hcard ▸ Finset.card_le_card fun y hy => (hmem y hy).1
  induction n generalizing x with
  | zero => exact ⟨∅, rfl, by simp⟩
  | succ n ih =>
    obtain ⟨y, hy, hx⟩ := h.pred
    obtain ⟨before, hcard, hmem⟩ := ih hy
    have hnew : y ∉ before := by
      intro hold
      obtain ⟨-, m, hlt, hm⟩ := hmem y hold
      have heq := hy.unique hm
      omega
    refine ⟨insert y before, by rw [Finset.card_insert_of_notMem hnew, hcard], fun z hz => ?_⟩
    obtain rfl | hz := Finset.mem_insert.mp hz
    · exact ⟨huniv z x hx, n, by omega, hy⟩
    · obtain ⟨hz, m, hlt, hm⟩ := hmem z hz
      exact ⟨hz, m, by omega, hm⟩

omit [DecidableEq α] in
/-- The nodes with a distance are the root and what can be reached from it. -/
theorem exists_distance_iff : (∃ n, Distance next root n x) ↔ x = root ∨ Reaches next root x := by
  constructor
  · rintro ⟨n, h⟩
    induction n generalizing x with
    | zero => exact .inl h.1
    | succ n ih =>
      obtain ⟨y, hy, hx⟩ := h.pred
      exact .inr (Reaches.succ (ih hy) hx)
  · intro h
    have hwalk : ∃ n, Walk next root n x := by
      obtain rfl | h := h
      · exact ⟨0, rfl⟩
      induction h with
      | single hx => exact ⟨1, root, rfl, hx⟩
      | tail _ hx ih =>
        obtain ⟨n, hn⟩ := ih
        exact ⟨n + 1, _, hn, hx⟩
    obtain ⟨n, hn⟩ := hwalk
    obtain ⟨m, -, hm⟩ := hn.exists_distance
    exact ⟨m, hm⟩

end Distances

/-! ### Depth-first visits -/

section Visit

variable {next : α → Option (List α)} {included : Finset α}

/-- A depth-first visit. It passes over the nodes already included and those without a row, and
includes a node before it visits its successors in turn. -/
def visit (next : α → Option (List α)) : ℕ → Finset α → α → Finset α
  | 0, included, _ => included
  | fuel + 1, included, x =>
    if x ∈ included then included
    else match next x with
      | none => included
      | some xs => xs.foldl (visit next fuel) (insert x included)

/-- A node is behind another, by rows. -/
def Behind (next : α → Option (List α)) : α → α → Prop :=
  Relation.ReflTransGen fun x y => ∃ xs, next x = some xs ∧ y ∈ xs

/-- **What the visits of some roots include**: the roots, and with a new node its successors. -/
structure Visited (next : α → Option (List α)) (roots : List α) (included result : Finset α) :
    Prop where
  kept : included ⊆ result
  visited : ∀ x ∈ roots, (next x).isSome → x ∈ result
  new : ∀ y ∈ result, y ∉ included → (∃ x ∈ roots, Behind next x y) ∧
    ∃ ys, next y = some ys ∧ ∀ z ∈ ys, (next z).isSome → z ∈ result

omit [DecidableEq α] in
/-- A visit, and then others. -/
theorem Visited.cons {x : α} {xs : List α} {between result : Finset α}
    (h : Visited next [x] included between) (hrest : Visited next xs between result) :
    Visited next (x :: xs) included result where
  kept := h.kept.trans hrest.kept
  visited := List.forall_mem_cons.mpr
    ⟨fun hknown => hrest.kept (h.visited x (by simp) hknown), hrest.visited⟩
  new y hy hnew := by
    by_cases hbet : y ∈ between
    · obtain ⟨hroot, ys, hys, hclos⟩ := h.new y hbet hnew
      exact ⟨by simpa using .inl (by simpa using hroot), ys, hys,
        fun z hz hknown => hrest.kept (hclos z hz hknown)⟩
    · obtain ⟨⟨z, hz, hbeh⟩, hclos⟩ := hrest.new y hy hbet
      exact ⟨⟨z, by simp [hz], hbeh⟩, hclos⟩

/-- With fuel for every node that is not included, a visit includes what it should. -/
theorem visited_visit {univ : Finset α} (huniv : ∀ x, (next x).isSome → x ∈ univ) {x : α}
    (hfuel : (univ \ included).card < fuel) :
    Visited next [x] included (visit next fuel included x) := by
  induction fuel generalizing included x with
  | zero => cases hfuel
  | succ fuel ih =>
    unfold visit
    split
    · exact ⟨subset_rfl, by simp_all, by simp_all⟩
    rename_i hx
    split
    · exact ⟨subset_rfl, by simp_all, by simp_all⟩
    rename_i xs hxs
    have hvis : ∀ ys included, (univ \ included).card < fuel →
        Visited next ys included (ys.foldl (visit next fuel) included) := by
      intro ys
      induction ys with
      | nil => exact fun included _ => ⟨subset_rfl, by simp, by simp_all⟩
      | cons y ys ihys =>
        intro included hfuel
        have hfir := ih (x := y) hfuel
        have hleft : univ \ visit next fuel included y ⊆ univ \ included :=
          Finset.sdiff_subset_sdiff subset_rfl hfir.kept
        exact hfir.cons (ihys _ ((Finset.card_le_card hleft).trans_lt hfuel))
    have hmem : x ∈ univ \ included := by simp [hx, huniv x (by simp [hxs])]
    have hrest := hvis xs (insert x included) (by
      have hless := Finset.card_erase_lt_of_mem hmem
      rw [← Finset.sdiff_insert] at hless
      omega)
    have hkept := Finset.insert_subset_iff.mp hrest.kept
    refine ⟨hkept.2, by simpa using fun _ => hkept.1, fun y hy hnew => ?_⟩
    by_cases hyx : y = x
    · subst hyx
      exact ⟨⟨y, by simp, .refl⟩, xs, hxs, hrest.visited⟩
    · obtain ⟨⟨z, hz, hbeh⟩, hclos⟩ := hrest.new y hy (by simp [hnew, hyx])
      exact ⟨⟨x, by simp, .head ⟨xs, hxs, hz⟩ hbeh⟩, hclos⟩

/-- **A visit with enough fuel includes what has a row and is behind its root.** -/
theorem mem_visit {univ : Finset α} (huniv : ∀ x, (next x).isSome → x ∈ univ)
    (hfuel : univ.card < fuel) {root y : α} :
    y ∈ visit next fuel ∅ root ↔ (next y).isSome ∧ Behind next root y := by
  have h : Visited next [root] ∅ (visit next fuel ∅ root) := visited_visit huniv (by simpa)
  constructor
  · intro hy
    obtain ⟨hroot, ys, hys, -⟩ := h.new y hy (by simp)
    exact ⟨by simp [hys], by simpa using hroot⟩
  rintro ⟨hknown, hbeh⟩
  induction hbeh with
  | refl => exact h.visited root (by simp) hknown
  | tail _ hy ih =>
    obtain ⟨xs, hxs, hy⟩ := hy
    obtain ⟨-, ys, hys, hclos⟩ := h.new _ (ih (by simp [hxs])) (by simp)
    obtain rfl := Option.some.inj (hxs.symm.trans hys)
    exact hclos _ hy hknown

end Visit

end Worklist
