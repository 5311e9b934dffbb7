import Mathlib.Data.Option.Basic

/-!
# Transition systems

A system takes one step after another, each chosen freely among those that are
possible.  A condition may restrict which steps are considered.
-/

namespace Baulk.Support

variable {σ α : Type}

/-- The states that steps which meet a condition lead to. -/
inductive Reaches (step : σ → α → Option σ) (C : σ → α → Prop) (s₀ : σ) :
    σ → Prop where
  | start : Reaches step C s₀ s₀
  | next {s s' : σ} {a : α} (h : Reaches step C s₀ s) (hmeets : C s a)
      (hstep : step s a = some s') : Reaches step C s₀ s'

/-- Every step is allowed. -/
def Anything (_ : σ) (_ : α) : Prop :=
  True

variable {step : σ → α → Option σ} {C : σ → α → Prop} {s₀ : σ}

theorem Reaches.invariant {I : σ → Prop} (hstart : I s₀)
    (hnext : ∀ s a s', I s → C s a → step s a = some s' → I s') {s : σ}
    (h : Reaches step C s₀ s) : I s := by
  induction h with
  | start => exact hstart
  | next _ hmeets hstep ih => exact hnext _ _ _ ih hmeets hstep

/-- Steps one after another. -/
def runSteps (step : σ → α → Option σ) : σ → List α → Option σ
  | s, [] => some s
  | s, a :: actions => (step s a).bind fun s' => runSteps step s' actions

theorem Reaches.of_runSteps {actions : List α} {s s' : σ}
    (h : Reaches step C s₀ s) (hmeets : ∀ s, ∀ a ∈ actions, C s a)
    (hrun : runSteps step s actions = some s') : Reaches step C s₀ s' := by
  induction actions generalizing s with
  | nil =>
      cases hrun
      exact h
  | cons a actions ih =>
      obtain ⟨s₁, hstep, hrest⟩ := Option.bind_eq_some_iff.mp hrun
      have hfirst := h.next (hmeets s a List.mem_cons_self) hstep
      refine ih hfirst ?_ hrest
      intro s b hb
      exact hmeets s b (List.mem_cons_of_mem a hb)

end Baulk.Support
