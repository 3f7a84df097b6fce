import Mathlib.Logic.Relation

/-!
# Runs of Guarded Transition Systems

A system is a partial step function `step : σ → α → Option σ`: an action is enabled in a
state when the step is defined there. `run` executes a list of actions, and
`Reachable step allowed s₀ s` says that `s` is reached from `s₀` by a run each of whose
steps meets the condition `allowed`, read on the state *before* the step. The
unconditional notion is the instance at `anyStep`.

## Main results

* `Reachable.invariant`: what holds at the start and is preserved by every allowed step
  holds in every reachable state.
* `Reachable.invariant_of`: the same rule with the help of a previously established
  invariant.
* `Reachable.trans`, `Reachable.mono`: runs compose, and a stronger condition allows
  fewer runs.
* `reachable_getD`, `guarded_reachable_getD`: a concrete script witnesses reachability.
-/

namespace Transition

variable {σ α : Type} {step : σ → α → Option σ} {allowed allowed' : σ → α → Prop}
  {s₀ s : σ} {acts : List α}

/-- The condition met by every step. -/
def anyStep (_ : σ) (_ : α) : Prop :=
  True

/-- The state after a list of actions, when every one of them is enabled in turn. -/
def run (step : σ → α → Option σ) : σ → List α → Option σ
  | s, [] => some s
  | s, a :: rest => (step s a).bind fun s' => run step s' rest

/-- States reached from `s₀` by steps that all meet `allowed`. -/
inductive Reachable (step : σ → α → Option σ) (allowed : σ → α → Prop) (s₀ : σ) : σ → Prop
  | refl : Reachable step allowed s₀ s₀
  | tail {s s' : σ} {a : α} : Reachable step allowed s₀ s → allowed s a →
      step s a = some s' → Reachable step allowed s₀ s'

/-- **The invariant rule.** -/
theorem Reachable.invariant {I : σ → Prop} (hreach : Reachable step allowed s₀ s) (hinit : I s₀)
    (hstep : ∀ s s' a, I s → allowed s a → step s a = some s' → I s') : I s := by
  induction hreach with
  | refl => exact hinit
  | tail _ hall hs ih => exact hstep _ _ _ ih hall hs

/-- The invariant rule relative to facts already known of every reachable state. -/
theorem Reachable.invariant_of {K I : σ → Prop} (hreach : Reachable step allowed s₀ s)
    (hknown : ∀ s, Reachable step allowed s₀ s → K s) (hinit : I s₀)
    (hstep : ∀ s s' a, K s → K s' → I s → allowed s a → step s a = some s' → I s') : I s := by
  induction hreach with
  | refl => exact hinit
  | tail hs hall hs' ih =>
    exact hstep _ _ _ (hknown _ hs) (hknown _ (hs.tail hall hs')) ih hall hs'

/-- Runs compose. -/
theorem Reachable.trans {s₁ s₂ : σ} (h₁ : Reachable step allowed s₀ s₁)
    (h₂ : Reachable step allowed s₁ s₂) : Reachable step allowed s₀ s₂ := by
  induction h₂ with
  | refl => exact h₁
  | tail _ hall hs ih => exact ih.tail hall hs

/-- A stronger condition allows fewer runs. -/
theorem Reachable.mono (h : ∀ s a, allowed s a → allowed' s a)
    (hreach : Reachable step allowed s₀ s) : Reachable step allowed' s₀ s := by
  induction hreach with
  | refl => exact .refl
  | tail _ hall hs ih => exact ih.tail (h _ _ hall) hs

theorem Reachable.any (hreach : Reachable step allowed s₀ s) : Reachable step anyStep s₀ s :=
  hreach.mono fun _ _ _ => trivial

/-- A concrete run reaches its final state. -/
theorem reachable_of_run (h : run step s₀ acts = some s) : Reachable step anyStep s₀ s := by
  induction acts generalizing s₀ with
  | nil =>
    cases h
    exact .refl
  | cons a rest ih =>
    obtain ⟨s₁, hs₁, hrest⟩ := Option.bind_eq_some_iff.mp h
    exact (Reachable.tail .refl trivial hs₁).trans (ih hrest)

/-- The step function cut down to the steps that pass a test. -/
def guarded (test : σ → α → Bool) (step : σ → α → Option σ) (s : σ) (a : α) : Option σ :=
  if test s a then step s a else none

variable {test : σ → α → Bool}

/-- A concrete run whose steps all pass a test reaches its final state under it. -/
theorem reachable_of_guarded_run (h : run (guarded test step) s₀ acts = some s) :
    Reachable step (fun s a => test s a = true) s₀ s := by
  induction acts generalizing s₀ with
  | nil =>
    cases h
    exact .refl
  | cons a rest ih =>
    obtain ⟨s₁, hs₁, hrest⟩ := Option.bind_eq_some_iff.mp h
    unfold guarded at hs₁
    split at hs₁
    · rename_i htest
      have hfir : Reachable step (fun s a => test s a = true) s₀ s₁ := .tail .refl htest hs₁
      exact hfir.trans (ih hrest)
    · cases hs₁

/-- A run that passes a test is a run. -/
theorem run_of_guarded_run (h : run (guarded test step) s₀ acts = some s) :
    run step s₀ acts = some s := by
  induction acts generalizing s₀ with
  | nil => exact h
  | cons a rest ih =>
    obtain ⟨s₁, hs₁, hrest⟩ := Option.bind_eq_some_iff.mp h
    unfold guarded at hs₁
    split at hs₁
    · exact Option.bind_eq_some_iff.mpr ⟨s₁, hs₁, ih hrest⟩
    · cases hs₁

/-- A script whose actions are all enabled reaches its last state. -/
theorem reachable_getD (h : (run step s₀ acts).isSome = true) :
    Reachable step anyStep s₀ ((run step s₀ acts).getD s₀) := by
  obtain ⟨_, hlast⟩ := Option.isSome_iff_exists.mp h
  rw [hlast, Option.getD_some]
  exact reachable_of_run hlast

/-- A script whose actions are all enabled and pass a test reaches its last state under it. -/
theorem guarded_reachable_getD (h : (run (guarded test step) s₀ acts).isSome = true) :
    Reachable step (fun s a => test s a = true) s₀ ((run step s₀ acts).getD s₀) := by
  obtain ⟨_, hlast⟩ := Option.isSome_iff_exists.mp h
  rw [run_of_guarded_run hlast, Option.getD_some]
  exact reachable_of_guarded_run hlast

end Transition
