import Mathlib.Data.List.AList
import Mathlib.Data.List.Perm.Subperm
import Mathlib.Data.List.Count

/-!
# Keyed Tables

A relational table with a primary key, over Mathlib's association lists: `Table κ ρ`
maps keys to rows, and the list of keys never repeats. The operations are those of a
database: insertion of a row is `AList.insert`, or `insertNew` when a taken key is left
alone; an update of the rows meeting a condition is `mapRows`, a deletion is `filterRows`,
and an existence query is `anyRow`.

Every operation is described by what it does to `AList.lookup`, so that a proof about a
sequence of table operations never has to look at the underlying list.

## Main results

* `lookup_mapRows`, `lookup_filterRows`: the lookup of an updated or filtered table.
* `anyRow_iff`: an existence query holds exactly when some key maps to a matching row.
* `exists_of_countRows_eq`: the counting principle. When the rows meeting a condition
  name pairwise distinct elements of a duplicate-free list, and there are as many of
  them as the list is long, every element of the list is named by one of them.
-/

/-- A table with primary key `κ` and rows `ρ`. -/
abbrev Table (κ ρ : Type) : Type :=
  AList (fun _ : κ => ρ)

namespace Table

variable {κ ρ : Type} [DecidableEq κ] {f : κ → ρ → ρ} {k : κ} {r : ρ} {p : κ → ρ → Bool}

/-- The table with every row rewritten by `f`, which also sees the row's key. -/
def mapRows (f : κ → ρ → ρ) (t : Table κ ρ) : Table κ ρ where
  entries := t.entries.map fun e => ⟨e.1, f e.1 e.2⟩
  nodupKeys := by
    have h : (t.entries.map fun e => (⟨e.1, f e.1 e.2⟩ : Sigma fun _ : κ => ρ)).keys =
        t.entries.keys := by
      simp [List.keys, List.map_map, Function.comp_def]
    rw [List.NodupKeys, h]
    exact t.nodupKeys

/-- The table with only the rows meeting `p`. -/
def filterRows (p : κ → ρ → Bool) (t : Table κ ρ) : Table κ ρ where
  entries := t.entries.filter fun e => p e.1 e.2
  nodupKeys := t.nodupKeys.sublist (List.filter_sublist)

/-- The table with a row inserted unless its key is taken (`ON CONFLICT DO NOTHING`). -/
def insertNew (t : Table κ ρ) (k : κ) (r : ρ) : Table κ ρ :=
  if (t.lookup k).isSome then t else AList.insert k r t

/-- Rows inserted one after the other, each unless its key is taken by then. -/
def insertAll (t : Table κ ρ) (rows : List (κ × ρ)) : Table κ ρ :=
  rows.foldl (fun t row => t.insertNew row.1 row.2) t

/-- Whether some row meets `p`. -/
def anyRow (p : κ → ρ → Bool) (t : Table κ ρ) : Bool :=
  t.entries.any fun e => p e.1 e.2

/-- The number of rows meeting `p`. -/
def countRows (p : κ → ρ → Bool) (t : Table κ ρ) : ℕ :=
  t.entries.countP fun e => p e.1 e.2

/-- The rows meeting `p`, with their keys. -/
def rowsWhere (p : κ → ρ → Bool) (t : Table κ ρ) : List (κ × ρ) :=
  (t.entries.filter fun e => p e.1 e.2).map fun e => (e.1, e.2)

variable {t : Table κ ρ}

omit [DecidableEq κ] in
/-- A row of a rewritten table is a rewritten row. -/
theorem mem_entries_mapRows :
    (⟨k, r⟩ : Sigma fun _ : κ => ρ) ∈ (t.mapRows f).entries ↔
      ∃ r₀, (⟨k, r₀⟩ : Sigma fun _ : κ => ρ) ∈ t.entries ∧ f k r₀ = r := by
  simp only [mapRows, List.mem_map, Sigma.mk.injEq]
  constructor
  · rintro ⟨⟨k', r₀⟩, hmem, rfl, hr⟩
    exact ⟨r₀, hmem, eq_of_heq hr⟩
  · rintro ⟨r₀, hmem, rfl⟩
    exact ⟨⟨k, r₀⟩, hmem, rfl, HEq.rfl⟩

theorem lookup_eq_some_iff : t.lookup k = some r ↔ (⟨k, r⟩ : Sigma fun _ : κ => ρ) ∈ t.entries :=
  AList.mem_lookup_iff

/-- Rewriting every row rewrites every lookup. -/
@[simp] theorem lookup_mapRows : (t.mapRows f).lookup k = (t.lookup k).map (f k) := by
  ext r
  rw [lookup_eq_some_iff, mem_entries_mapRows, Option.map_eq_some_iff]
  simp only [lookup_eq_some_iff]

omit [DecidableEq κ] in
/-- Rewriting every row to itself changes nothing. -/
@[simp] theorem mapRows_id : t.mapRows (fun _ row => row) = t :=
  AList.ext (by simp [mapRows])

omit [DecidableEq κ] in
theorem mapRows_mapRows {g : κ → ρ → ρ} :
    (t.mapRows f).mapRows g = t.mapRows fun k r => g k (f k r) :=
  AList.ext (by simp [mapRows, Function.comp_def])

/-- Rewritings that agree on the rows of a table rewrite it alike. -/
theorem mapRows_congr {g : κ → ρ → ρ} (h : ∀ k r, t.lookup k = some r → f k r = g k r) :
    t.mapRows f = t.mapRows g := by
  refine AList.ext (List.map_congr_left fun entry hent => ?_)
  rw [h entry.1 entry.2 (lookup_eq_some_iff.mpr hent)]

/-- Filtering a table filters every lookup. -/
@[simp] theorem lookup_filterRows : (t.filterRows p).lookup k = (t.lookup k).filter (p k) := by
  ext r
  rw [lookup_eq_some_iff, Option.filter_eq_some_iff, lookup_eq_some_iff]
  simp [filterRows]

omit [DecidableEq κ] in
@[simp] theorem filterRows_true : t.filterRows (fun _ _ => true) = t :=
  AList.ext (by simp [filterRows])

theorem lookup_insert_eq {k' : κ} :
    AList.lookup k' (AList.insert k r t) = if k' = k then some r else t.lookup k' := by
  by_cases h : k' = k
  · subst h; simp
  · simp [h]

/-- What holds of the written row, and of rows that stay, holds row by row. -/
theorem insert_rel {R : κ → Option ρ → Option ρ → Prop} (hkept : ∀ k old, R k old old)
    (hwrit : R k (t.lookup k) (some r)) (k' : κ) :
    R k' (t.lookup k') (AList.lookup k' (AList.insert k r t)) := by
  rw [lookup_insert_eq]
  split
  · rename_i heq
    exact heq ▸ hwrit
  · exact hkept _ _

/-- A new row shows only under a free key. -/
theorem lookup_insertNew {k' : κ} :
    (t.insertNew k r).lookup k' = (t.lookup k').or (if k' = k then some r else none) := by
  unfold insertNew
  split
  · rename_i htak
    cases hrow : t.lookup k' with
    | some => rfl
    | none =>
      rw [Option.none_or, if_neg]
      rintro rfl
      simp [hrow] at htak
  · rename_i hfree
    rw [lookup_insert_eq]
    by_cases hk : k' = k
    · subst hk
      simp_all
    · simp [hk]

/-- Inserting rows one after the other keeps what was there, and shows the first row of
each new key. -/
theorem lookup_insertAll (t : Table κ ρ) (rows : List (κ × ρ)) (k : κ) :
    (t.insertAll rows).lookup k =
      (t.lookup k).or ((rows.find? fun row => decide (k = row.1)).map Prod.snd) := by
  induction rows generalizing t with
  | nil => simp [insertAll]
  | cons row rest ih =>
    have hrest := ih (t.insertNew row.1 row.2)
    simp only [insertAll, List.foldl_cons] at hrest ⊢
    rw [hrest, lookup_insertNew, Option.or_assoc, List.find?_cons]
    by_cases hk : k = row.1 <;> simp [hk]

/-- An existence query holds exactly when some key maps to a matching row. -/
theorem anyRow_iff : t.anyRow p = true ↔ ∃ k r, t.lookup k = some r ∧ p k r = true := by
  simp only [anyRow, List.any_eq_true]
  constructor
  · rintro ⟨⟨k, r⟩, hmem, hp⟩
    exact ⟨k, r, lookup_eq_some_iff.mpr hmem, hp⟩
  · rintro ⟨k, r, hlook, hp⟩
    exact ⟨⟨k, r⟩, lookup_eq_some_iff.mp hlook, hp⟩

/-- An existence query fails exactly when no row matches. -/
theorem anyRow_eq_false_iff : t.anyRow p = false ↔ ∀ k r, t.lookup k = some r → p k r = false := by
  rw [← Bool.not_eq_true, anyRow_iff]
  constructor
  · intro h k r hlook
    rw [← Bool.not_eq_true]
    exact fun hp => h ⟨k, r, hlook, hp⟩
  rintro h ⟨k, r, hlook, hp⟩
  rw [h k r hlook] at hp
  exact Bool.noConfusion hp

/-- The listed rows are exactly the matching ones. -/
theorem mem_rowsWhere : (k, r) ∈ t.rowsWhere p ↔ t.lookup k = some r ∧ p k r = true := by
  rw [rowsWhere, List.mem_map, lookup_eq_some_iff]
  constructor
  · rintro ⟨⟨k', r'⟩, hmem, heq⟩
    cases heq
    exact List.mem_filter.mp hmem
  · intro h
    exact ⟨⟨k, r⟩, List.mem_filter.mpr h, rfl⟩

omit [DecidableEq κ] in
/-- The keys of the listed rows do not repeat. -/
theorem nodup_keys_rowsWhere : ((t.rowsWhere p).map Prod.fst).Nodup := by
  have h : (t.rowsWhere p).map Prod.fst = (t.entries.filter fun e => p e.1 e.2).keys := by
    simp [rowsWhere, List.keys, List.map_map, Function.comp_def]
  rw [h]
  exact t.nodupKeys.sublist List.filter_sublist

/-- **The counting principle.** If the rows meeting `p` name, through `name`, pairwise
distinct elements of `required`, and there are as many such rows as `required` has
elements, then every element of `required` is named by some row meeting `p`. -/
theorem exists_of_countRows_eq {α : Type} [DecidableEq α] {name : ρ → α} {required : List α}
    (hin : ∀ k r, t.lookup k = some r → p k r = true → name r ∈ required)
    (hinj : ∀ k r k' r', t.lookup k = some r → p k r = true → t.lookup k' = some r' →
      p k' r' = true → name r = name r' → k = k')
    (hcount : t.countRows p = required.length) {a : α} (ha : a ∈ required) :
    ∃ k r, t.lookup k = some r ∧ p k r = true ∧ name r = a := by
  set named := (t.rowsWhere p).map fun e => name e.2 with hnam
  have hnod : named.Nodup := by
    refine List.Nodup.map_on ?_ (List.Nodup.of_map _ nodup_keys_rowsWhere)
    rintro ⟨k, r⟩ hx ⟨k', r'⟩ hy hname
    obtain ⟨hk, hp⟩ := mem_rowsWhere.mp hx
    obtain ⟨hk', hp'⟩ := mem_rowsWhere.mp hy
    obtain rfl := hinj k r k' r' hk hp hk' hp' hname
    rw [hk] at hk'
    rw [Option.some.inj hk']
  have hsub : named ⊆ required := by
    intro b hb
    obtain ⟨⟨k, r⟩, hx, rfl⟩ := List.mem_map.mp hb
    obtain ⟨hk, hp⟩ := mem_rowsWhere.mp hx
    exact hin k r hk hp
  have hlen : named.length = required.length := by
    rw [← hcount, hnam, List.length_map, rowsWhere, List.length_map, countRows,
      List.countP_eq_length_filter]
  have hperm : named.Perm required :=
    (hnod.subperm hsub).perm_of_length_le (Nat.le_of_eq hlen.symm)
  obtain ⟨⟨k, r⟩, hx, hname⟩ := List.mem_map.mp (hperm.mem_iff.mpr ha)
  obtain ⟨hk, hp⟩ := mem_rowsWhere.mp hx
  exact ⟨k, r, hk, hp, hname⟩

end Table
