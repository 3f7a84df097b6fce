import Mathlib.Data.List.Nodup
import Mathlib.Data.List.Perm.Subperm

/-!
# Maps and Sets in Insertion Order

A finite map that lists its entries in the order in which their keys were first set: a key
that is set again keeps its place and takes the new value. Sets are lists to which an
element is added at the end unless it is there.

## Main results

* `get?_set`: what a map holds after an entry was set.
* `get?_eq_some_iff`: the entries of a map are what it holds.
* `mem_keys_ofEntries`: the keys of a map made from a list of entries are those of the list.
* `get?_ofEntries_map`: maps made from lists of the same keys hold corresponding values.
-/

/-- A finite map in insertion order. -/
structure OrderedMap (κ ν : Type) where
  entries : List (κ × ν)
  nodup : (entries.map Prod.fst).Nodup

namespace OrderedMap

variable {κ ν : Type} [DecidableEq κ] {k k' : κ} {v : ν} {entries : List (κ × ν)} {α μ : Type}

/-- Sets a key in a list of entries: in its place, or at the end. -/
def setEntry (k : κ) (v : ν) : List (κ × ν) → List (κ × ν)
  | [] => [(k, v)]
  | (k', v') :: rest => if k' = k then (k, v) :: rest else (k', v') :: setEntry k v rest

/-- The keys after an entry was set. -/
theorem mem_keys_setEntry :
    k' ∈ (setEntry k v entries).map Prod.fst ↔ k' = k ∨ k' ∈ entries.map Prod.fst := by
  induction entries with
  | nil => simp [setEntry]
  | cons entry rest ih =>
    obtain ⟨a, b⟩ := entry
    unfold setEntry
    split
    · rename_i heq
      subst heq
      simp
    · simp only [List.map_cons, List.mem_cons, ih]
      tauto

/-- Setting an entry keeps the keys distinct. -/
theorem nodup_setEntry (h : (entries.map Prod.fst).Nodup) :
    ((setEntry k v entries).map Prod.fst).Nodup := by
  induction entries with
  | nil => simp [setEntry]
  | cons entry rest ih =>
    obtain ⟨a, b⟩ := entry
    obtain ⟨hnew, hrest⟩ := List.nodup_cons.mp h
    unfold setEntry
    split
    · rename_i heq
      exact heq ▸ h
    rename_i hne
    refine List.nodup_cons.mpr ⟨fun hmem => ?_, ih hrest⟩
    exact (mem_keys_setEntry.mp hmem).elim hne hnew

/-- The empty map. -/
def empty : OrderedMap κ ν :=
  ⟨[], List.nodup_nil⟩

/-- The map with a key set. -/
def set (m : OrderedMap κ ν) (k : κ) (v : ν) : OrderedMap κ ν :=
  ⟨setEntry k v m.entries, nodup_setEntry m.nodup⟩

/-- The map of a list of entries, of which a later one replaces the value of an earlier one. -/
def ofEntries (entries : List (κ × ν)) : OrderedMap κ ν :=
  entries.foldl (fun m entry => m.set entry.1 entry.2) empty

/-- What a map holds under a key. -/
def get? (m : OrderedMap κ ν) (k : κ) : Option ν :=
  m.entries.lookup k

/-- Whether a map holds something under a key. -/
def has (m : OrderedMap κ ν) (k : κ) : Bool :=
  (m.get? k).isSome

omit [DecidableEq κ] in
/-- The keys, in order. -/
def keys (m : OrderedMap κ ν) : List κ :=
  m.entries.map Prod.fst

omit [DecidableEq κ] in
/-- The values, in order. -/
def values (m : OrderedMap κ ν) : List ν :=
  m.entries.map Prod.snd

/-! ### What a map holds -/

/-- The first entry decides, or the rest. -/
theorem lookup_cons_eq_ite {a : κ} {b : ν} {rest : List (κ × ν)} :
    ((a, b) :: rest).lookup k = if k = a then some b else rest.lookup k := by
  rw [List.lookup_cons]
  by_cases hk : k = a
  · simp [hk]
  · have hbeq : (k == a) = false := beq_eq_false_iff_ne.mpr hk
    rw [hbeq, if_neg hk]

/-- A list of entries with distinct keys holds what it lists. -/
theorem lookup_eq_some_iff (h : (entries.map Prod.fst).Nodup) :
    entries.lookup k = some v ↔ (k, v) ∈ entries := by
  induction entries with
  | nil => simp
  | cons entry rest ih =>
    obtain ⟨a, b⟩ := entry
    obtain ⟨hnew, hrest⟩ := List.nodup_cons.mp h
    rw [lookup_cons_eq_ite]
    by_cases hk : k = a
    · subst hk
      simp only [if_true, Option.some.injEq, List.mem_cons, Prod.mk.injEq, true_and]
      constructor
      · exact fun heq => .inl heq.symm
      rintro (heq | hmem)
      · exact heq.symm
      · exact absurd (List.mem_map_of_mem hmem) hnew
    · simp [hk, ih hrest]

variable {m : OrderedMap κ ν}

/-- **The entries of a map are what it holds.** -/
theorem get?_eq_some_iff : m.get? k = some v ↔ (k, v) ∈ m.entries :=
  lookup_eq_some_iff m.nodup

theorem has_iff : m.has k = true ↔ k ∈ m.keys := by
  simp only [has, Option.isSome_iff_exists, get?_eq_some_iff, keys, List.mem_map, Prod.exists,
    exists_and_right, exists_eq_right]

/-- A list of entries in which a key was set. -/
theorem lookup_setEntry :
    (setEntry k v entries).lookup k' = if k' = k then some v else entries.lookup k' := by
  induction entries with
  | nil => exact lookup_cons_eq_ite
  | cons entry rest ih =>
    obtain ⟨a, b⟩ := entry
    unfold setEntry
    split
    · rename_i heq
      subst heq
      rw [lookup_cons_eq_ite, lookup_cons_eq_ite]
      by_cases hk : k' = a <;> simp [hk]
    · rename_i hne
      rw [lookup_cons_eq_ite, lookup_cons_eq_ite, ih]
      by_cases hk : k' = a
      · subst hk
        simp [hne]
      · simp [hk]

/-- **What a map holds after an entry was set.** -/
theorem get?_set : (m.set k v).get? k' = if k' = k then some v else m.get? k' :=
  lookup_setEntry

theorem mem_keys_set : k' ∈ (m.set k v).keys ↔ k' = k ∨ k' ∈ m.keys :=
  mem_keys_setEntry

/-- The keys of a map made from a list of entries, on top of another. -/
theorem mem_keys_foldl :
    k ∈ (entries.foldl (fun m entry => m.set entry.1 entry.2) m).keys ↔
      k ∈ m.keys ∨ k ∈ entries.map Prod.fst := by
  induction entries generalizing m with
  | nil => simp
  | cons entry rest ih =>
    rw [List.foldl_cons, ih, mem_keys_set, List.map_cons, List.mem_cons]
    tauto

/-- **The keys of a map made from a list of entries.** -/
theorem mem_keys_ofEntries : k ∈ (ofEntries entries).keys ↔ k ∈ entries.map Prod.fst := by
  rw [ofEntries, mem_keys_foldl]
  simp [keys, empty]

/-- What a map made from a list of entries holds, on top of another, comes from the list or
from the other. -/
theorem get?_foldl (h : (entries.foldl (fun m entry => m.set entry.1 entry.2) m).get? k = some v) :
    m.get? k = some v ∨ (k, v) ∈ entries := by
  induction entries generalizing m with
  | nil => exact .inl h
  | cons entry rest ih =>
    rcases ih h with hset | hmem
    · rw [get?_set] at hset
      split at hset
      · rename_i heq
        cases hset
        exact .inr (by simp [heq])
      · exact .inl hset
    · exact .inr (by simp [hmem])

theorem mem_of_get?_ofEntries (h : (ofEntries entries).get? k = some v) : (k, v) ∈ entries :=
  (get?_foldl h).resolve_left (by simp [get?, empty])

/-- What is found in a map of items by their names. -/
theorem mem_of_get?_index {name : ν → κ} {items : List ν}
    (h : (ofEntries (items.map fun item => (name item, item))).get? k = some v) :
    v ∈ items ∧ name v = k := by
  obtain ⟨_, hfound, heq⟩ := List.mem_map.mp (mem_of_get?_ofEntries h)
  cases heq
  exact ⟨hfound, rfl⟩

variable {items : List α} {key : α → κ}

/-- Maps made from the same keys hold corresponding values. -/
theorem get?_foldl_map {value : α → ν} {f : ν → μ} {m' : OrderedMap κ μ}
    (h : ∀ k, m'.get? k = (m.get? k).map f) (k : κ) :
    (items.foldl (fun m x => m.set (key x) (f (value x))) m').get? k =
      ((items.foldl (fun m x => m.set (key x) (value x)) m).get? k).map f := by
  induction items generalizing m m' with
  | nil => exact h k
  | cons x rest ih =>
    refine ih fun k => ?_
    rw [get?_set, get?_set, h]
    split <;> rfl

/-- **Maps made from lists of the same keys hold corresponding values.** -/
theorem get?_ofEntries_map {value : α → ν} {f : ν → μ} :
    (ofEntries (items.map fun x => (key x, f (value x)))).get? k =
      ((ofEntries (items.map fun x => (key x, value x))).get? k).map f := by
  rw [ofEntries, ofEntries, List.foldl_map, List.foldl_map]
  have hinit : ∀ k, (empty : OrderedMap κ μ).get? k = ((empty : OrderedMap κ ν).get? k).map f :=
    fun _ => rfl
  exact get?_foldl_map hinit k

/-- Setting an entry and then rewriting the values is the same as the other way round. -/
theorem setEntry_map {f : ν → μ} :
    (setEntry k v entries).map (Prod.map id f) =
      setEntry k (f v) (entries.map (Prod.map id f)) := by
  induction entries with
  | nil => rfl
  | cons entry rest ih =>
    obtain ⟨a, b⟩ := entry
    simp only [setEntry, List.map_cons, Prod.map_apply, id]
    split
    · rfl
    · rw [List.map_cons, ih]
      rfl

/-- **The entries of a map with its values rewritten.** -/
theorem entries_ofEntries_map (f : ν → μ) (entries : List (κ × ν)) :
    (ofEntries (entries.map (Prod.map id f))).entries =
      (ofEntries entries).entries.map (Prod.map id f) := by
  have hfold : ∀ (m : OrderedMap κ ν) (m' : OrderedMap κ μ),
      m'.entries = m.entries.map (Prod.map id f) →
      ((entries.map (Prod.map id f)).foldl (fun m entry => m.set entry.1 entry.2) m').entries =
        (entries.foldl (fun m entry => m.set entry.1 entry.2) m).entries.map (Prod.map id f) := by
    induction entries with
    | nil => exact fun _ _ h => h
    | cons entry rest ih =>
      intro m m' h
      refine ih (m.set entry.1 entry.2) (m'.set entry.1 (f entry.2)) ?_
      change setEntry entry.1 (f entry.2) m'.entries = (setEntry entry.1 entry.2 m.entries).map _
      rw [h, setEntry_map]
  exact hfold empty empty rfl

/-- A new key is set at the end. -/
theorem setEntry_of_notMem (h : k ∉ entries.map Prod.fst) :
    setEntry k v entries = entries ++ [(k, v)] := by
  induction entries with
  | nil => rfl
  | cons entry rest ih =>
    obtain ⟨a, b⟩ := entry
    simp only [List.map_cons, List.mem_cons, not_or] at h
    rw [setEntry, if_neg (Ne.symm h.1), ih h.2]
    rfl

/-- **Entries with distinct keys are the entries of their map.** -/
theorem entries_ofEntries (h : (entries.map Prod.fst).Nodup) :
    (ofEntries entries).entries = entries := by
  have hfold : ∀ m : OrderedMap κ ν, (∀ k ∈ entries.map Prod.fst, k ∉ m.entries.map Prod.fst) →
      (entries.foldl (fun m entry => m.set entry.1 entry.2) m).entries = m.entries ++ entries := by
    induction entries with
    | nil => simp
    | cons entry rest ih =>
      intro m hnew
      obtain ⟨hfir, hrest⟩ := List.nodup_cons.mp h
      have hset : (m.set entry.1 entry.2).entries = m.entries ++ [entry] :=
        setEntry_of_notMem (hnew entry.1 List.mem_cons_self)
      rw [List.foldl_cons, ih hrest, hset, List.append_assoc, List.singleton_append]
      intro k hk
      rw [hset, List.map_append, List.mem_append, not_or]
      refine ⟨hnew k (List.mem_cons_of_mem _ hk), ?_⟩
      rw [List.map_singleton, List.mem_singleton]
      rintro rfl
      exact hfir hk
  exact hfold empty nofun

theorem mem_of_mem_entries_ofEntries {entry : κ × ν} (h : entry ∈ (ofEntries entries).entries) :
    entry ∈ entries :=
  mem_of_get?_ofEntries (get?_eq_some_iff.mpr h)

/-- Keys that are numbered one by one are told apart by their numbers. -/
theorem get?_mapIdx_inj {number : ℕ → ν} (hnum : Function.Injective number) {a b : κ} {n : ν}
    (ha : (ofEntries (items.mapIdx fun i x => (key x, number i))).get? a = some n)
    (hb : (ofEntries (items.mapIdx fun i x => (key x, number i))).get? b = some n) : a = b := by
  obtain ⟨i, hi, hia⟩ := List.mem_mapIdx.mp (mem_of_get?_ofEntries ha)
  obtain ⟨j, hj, hjb⟩ := List.mem_mapIdx.mp (mem_of_get?_ofEntries hb)
  obtain ⟨rfl, hin⟩ := Prod.mk.inj hia
  obtain ⟨rfl, hjn⟩ := Prod.mk.inj hjb
  obtain rfl := hnum (hin.trans hjn.symm)
  rfl

/-- Every key that is numbered has a number. -/
theorem isSome_get?_mapIdx {number : ℕ → ν} {x : α} (h : x ∈ items) :
    ((ofEntries (items.mapIdx fun i x => (key x, number i))).get? (key x)).isSome := by
  obtain ⟨i, hi, rfl⟩ := List.getElem_of_mem h
  exact has_iff.mpr (mem_keys_ofEntries.mpr (List.mem_map.mpr
    ⟨_, List.mem_mapIdx.mpr ⟨i, hi, rfl⟩, rfl⟩))

end OrderedMap

namespace OrderedSet

variable {α : Type} [DecidableEq α]

/-- A set with an element added at the end, unless it is there. -/
def add (s : List α) (x : α) : List α :=
  if x ∈ s then s else s ++ [x]

/-- A set with the elements of a list added, one after the other. -/
def addAll (s : List α) (xs : List α) : List α :=
  xs.foldl add s

/-- The elements of a list, as a set. -/
def ofList (xs : List α) : List α :=
  addAll [] xs

variable {y : α}

/-- An element was there, or is the one that was added. -/
@[simp] theorem mem_add {s : List α} {x : α} : y ∈ add s x ↔ y ∈ s ∨ y = x := by
  unfold add
  split
  · rename_i hmem
    exact ⟨.inl, fun h => h.elim id fun heq => heq ▸ hmem⟩
  · simp

/-- An element was there, or is one of those that were added. -/
@[simp] theorem mem_addAll {s xs : List α} : y ∈ addAll s xs ↔ y ∈ s ∨ y ∈ xs := by
  unfold addAll
  induction xs generalizing s with
  | nil => simp
  | cons x rest ih =>
    rw [List.foldl_cons, ih, mem_add, List.mem_cons]
    tauto

/-- The elements of a list. -/
@[simp] theorem mem_ofList {xs : List α} : y ∈ ofList xs ↔ y ∈ xs := by
  simp [ofList]

end OrderedSet
