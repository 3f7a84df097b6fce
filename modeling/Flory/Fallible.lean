import Mathlib.Data.List.Forall2

/-!
# Fallible Computations

Computations that return a result or an error, taken apart: a sequence of two succeeds when
both do, and what every successful turn of a loop establishes, the whole loop does.
-/

namespace Fallible

open Except (error ok)

variable {ε α β : Type} {f : α → Except ε β} {x : Except ε α} {b b' : β}

/-- A sequence succeeds when both parts do. -/
theorem bind_eq_ok : x >>= f = ok b ↔ ∃ a, x = ok a ∧ f a = ok b := by
  cases x with
  | error | ok => simp [bind, Except.bind]

theorem map_eq_ok {f : α → β} : x.map f = ok b ↔ ∃ a, x = ok a ∧ f a = b := by
  cases x with
  | error | ok => simp [Except.map]

theorem mapError_eq_ok {ε' : Type} {f : ε → ε'} {a : α} : x.mapError f = ok a ↔ x = ok a := by
  cases x with
  | error | ok => simp [Except.mapError]

theorem exists_ok_of_any (x : Except ε α) (test : α → Bool) (h : x.toOption.any test = true) :
    ∃ a, x = ok a ∧ test a = true := by
  cases x with
  | error => cases h
  | ok a => exact ⟨a, rfl, h⟩

variable {items : List α}

section Folds

variable {f : β → α → Except ε β}

/-- What every successful turn of a fallible loop establishes, the whole loop does. -/
theorem foldlM_ok {r : β → β → Prop} (hrefl : ∀ b, r b b)
    (htrans : ∀ a b c, r a b → r b c → r a c) (hturn : ∀ b a b', a ∈ items → f b a = ok b' → r b b')
    (h : items.foldlM f b = ok b') : r b b' := by
  induction items generalizing b with
  | nil =>
    obtain rfl := Except.ok.inj h
    exact hrefl b
  | cons a rest ih =>
    simp only [List.foldlM, bind_eq_ok] at h
    obtain ⟨mid, hmid, hrest⟩ := h
    exact htrans _ _ _ (hturn b a mid (by simp) hmid)
      (ih (fun b a b' ha => hturn b a b' (by simp [ha])) hrest)

/-- What every successful turn of a fallible loop keeps, the whole loop keeps. -/
theorem foldlM_invariant {I : β → Prop}
    (hturn : ∀ b a b', a ∈ items → I b → f b a = ok b' → I b') (hinit : I b)
    (h : items.foldlM f b = ok b') : I b' := by
  have hloop : I b → I b' := foldlM_ok (r := fun b b' => I b → I b') (fun _ => id)
    (fun _ _ _ hab hbc ha => hbc (hab ha)) (fun b a b' ha hf hb => hturn b a b' ha hb hf) h
  exact hloop hinit

/-- What a turn of a fallible loop establishes about its item, and every turn keeps, holds of
all items behind the loop. -/
theorem foldlM_forall {P : α → β → Prop}
    (hturn : ∀ b a b', f b a = ok b' → P a b') (hkept : ∀ b a b' x, f b a = ok b' → P x b → P x b')
    (h : items.foldlM f b = ok b') : ∀ a ∈ items, P a b' := by
  induction items generalizing b with
  | nil => simp
  | cons a rest ih =>
    simp only [List.foldlM, bind_eq_ok] at h
    obtain ⟨mid, hmid, hrest⟩ := h
    have hhead : P a b' := foldlM_invariant (I := P a)
      (fun b x b' _ hb hf => hkept b x b' a hf hb) (hturn b a mid hmid) hrest
    intro x hx
    rcases List.mem_cons.mp hx with rfl | hx
    · exact hhead
    · exact ih hrest x hx

/-- A fallible loop succeeds when no turn fails. -/
theorem foldlM_total
    (hturn : ∀ b, ∀ a ∈ items, ∃ b', f b a = ok b') (b : β) : ∃ b', items.foldlM f b = ok b' := by
  induction items generalizing b with
  | nil => exact ⟨b, rfl⟩
  | cons a rest ih =>
    obtain ⟨mid, hmid⟩ := hturn b a List.mem_cons_self
    obtain ⟨b', hb'⟩ := ih (fun b a ha => hturn b a (List.mem_cons_of_mem _ ha)) mid
    exact ⟨b', by simp only [List.foldlM, bind_eq_ok]; exact ⟨mid, hmid, hb'⟩⟩

end Folds

/-- A fallible map over a list succeeds when no turn fails, with what each turn ensures. -/
theorem mapM_ensures {P : β → Prop} (hturn : ∀ a ∈ items, ∃ b, f a = ok b ∧ P b) :
    ∃ results, items.mapM f = ok results ∧ ∀ b ∈ results, P b := by
  induction items with
  | nil => exact ⟨[], rfl, List.forall_mem_nil _⟩
  | cons a rest ih =>
    obtain ⟨b, hb, hens⟩ := hturn a List.mem_cons_self
    obtain ⟨results, hres, hrest⟩ := ih fun a ha => hturn a (List.mem_cons_of_mem _ ha)
    refine ⟨b :: results, ?_, List.forall_mem_cons.mpr ⟨hens, hrest⟩⟩
    simp only [List.mapM_cons, bind_eq_ok]
    exact ⟨b, hb, results, hres, rfl⟩

/-- A pass succeeds when every turn does. -/
theorem mapM_total (hturn : ∀ a ∈ items, ∃ b, f a = ok b) :
    ∃ results, items.mapM f = ok results := by
  obtain ⟨results, hres, -⟩ := mapM_ensures (P := fun _ => True) (f := f) fun a ha =>
    (hturn a ha).imp fun _ hb => ⟨hb, trivial⟩
  exact ⟨results, hres⟩

variable {results : List β}

/-- A fallible map over a list succeeds when every turn does. -/
theorem mapM_eq_ok :
    items.mapM f = ok results ↔ List.Forall₂ (fun a b => f a = ok b) items results := by
  induction items generalizing results with
  | nil => simp [pure, Except.pure, eq_comm]
  | cons a rest ih =>
    simp only [List.mapM_cons, bind_eq_ok, ih, List.forall₂_cons_left_iff]
    constructor
    · rintro ⟨b, hb, bs, hbs, h⟩
      exact ⟨b, bs, hb, hbs, (Except.ok.inj h).symm⟩
    · rintro ⟨b, bs, hb, hbs, rfl⟩
      exact ⟨b, hb, bs, hbs, rfl⟩

/-- A member of the second of two lists that correspond has its counterpart in the first. -/
theorem exists_left_of_mem {R : α → β → Prop} {as : List α} {bs : List β}
    (h : List.Forall₂ R as bs) {b : β} (hb : b ∈ bs) : ∃ a ∈ as, R a b := by
  induction h with
  | nil => cases hb
  | cons hturn _ ih =>
    rcases List.mem_cons.mp hb with rfl | hb
    · exact ⟨_, List.mem_cons_self, hturn⟩
    · obtain ⟨a, ha, hfa⟩ := ih hb
      exact ⟨a, List.mem_cons_of_mem _ ha, hfa⟩

/-- A member of the first of two lists that correspond has its counterpart in the second. -/
theorem exists_right_of_mem {R : α → β → Prop} {as : List α} {bs : List β}
    (h : List.Forall₂ R as bs) {a : α} (ha : a ∈ as) : ∃ b ∈ bs, R a b :=
  exists_left_of_mem h.flip ha

/-- Every result is that of an item. -/
theorem exists_of_mem_mapM
    (h : items.mapM f = ok results) {b : β} (hb : b ∈ results) : ∃ a ∈ items, f a = ok b :=
  exists_left_of_mem (mapM_eq_ok.mp h) hb

/-- Every item has a result. -/
theorem exists_of_mapM
    (h : items.mapM f = ok results) {a : α} (ha : a ∈ items) : ∃ b, f a = ok b := by
  obtain ⟨b, -, hb⟩ := exists_right_of_mem (mapM_eq_ok.mp h) ha
  exact ⟨b, hb⟩

/-- **What is seen of the results of a fallible map** is what is seen of its items, when each turn
keeps it. -/
theorem map_of_mapM {γ : Type} {g : α → γ} {k : β → γ} (h : items.mapM f = ok results)
    (hturn : ∀ a ∈ items, ∀ b, f a = ok b → k b = g a) : results.map k = items.map g := by
  rw [mapM_eq_ok] at h
  induction h with
  | nil => rfl
  | cons hhead _ ih =>
    rw [List.map_cons, List.map_cons, hturn _ List.mem_cons_self _ hhead,
      ih fun a ha => hturn a (List.mem_cons_of_mem _ ha)]

/-- A fallible map whose turns all succeed returns their results. -/
theorem mapM_eq_map {g : α → β}
    (h : ∀ item ∈ items, f item = ok (g item)) : items.mapM f = ok (items.map g) := by
  rw [mapM_eq_ok]
  induction items with
  | nil => exact .nil
  | cons item rest ih =>
    exact .cons (h item List.mem_cons_self)
      (ih fun other hoth => h other (List.mem_cons_of_mem _ hoth))

end Fallible
