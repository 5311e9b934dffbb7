import Mathlib.Data.List.Basic

/-!
# Folds that may stop

`foldlM` in `Except`: a step gives a new state or stops the fold.  The rules
derive facts about whole folds from facts about one step.
-/

namespace Baulk.Support

variable {σ α ε : Type} {f g : σ → α → Except ε σ} {I : σ → Prop}

theorem foldlM_cons_ok_iff {x : α} {l : List α} {s s' : σ} :
    (x :: l).foldlM f s = .ok s' ↔
      ∃ s₁, f s x = .ok s₁ ∧ l.foldlM f s₁ = .ok s' := by
  rw [List.foldlM_cons]
  cases f s x with
  | error e =>
      constructor
      · intro h
        cases h
      · rintro ⟨_, h, _⟩
        cases h
  | ok s₁ =>
      constructor
      · intro h
        exact ⟨s₁, rfl, h⟩
      · rintro ⟨_, ⟨⟩, h⟩
        exact h

theorem foldlM_cons_error_iff {x : α} {l : List α} {s : σ} {e : ε} :
    (x :: l).foldlM f s = .error e ↔
      f s x = .error e ∨ ∃ s₁, f s x = .ok s₁ ∧ l.foldlM f s₁ = .error e := by
  rw [List.foldlM_cons]
  cases f s x with
  | error e' =>
      constructor
      · intro h
        exact .inl h
      · rintro (h | ⟨_, h, _⟩)
        · exact h
        · cases h
  | ok s₁ =>
      constructor
      · intro h
        exact .inr ⟨s₁, rfl, h⟩
      · rintro (h | ⟨_, ⟨⟩, h⟩)
        · cases h
        · exact h

theorem foldlM_invariant {l : List α} {s s' : σ}
    (hstep : ∀ s x s', x ∈ l → I s → f s x = .ok s' → I s') (hs : I s)
    (h : l.foldlM f s = .ok s') : I s' := by
  induction l generalizing s with
  | nil =>
      cases h
      exact hs
  | cons x l ih =>
      obtain ⟨s₁, hx, hl⟩ := foldlM_cons_ok_iff.mp h
      refine ih ?_ (hstep s x s₁ List.mem_cons_self hs hx) hl
      intro s y s' hy
      exact hstep s y s' (List.mem_cons_of_mem x hy)

/-- What a step does for its item, and later steps do not undo, holds for every
item at the end. -/
theorem foldlM_forall {P : α → σ → Prop} {l : List α} {s s' : σ}
    (hstep : ∀ s x s', x ∈ l → I s → f s x = .ok s' →
      I s' ∧ P x s' ∧ ∀ y, P y s → P y s') (hs : I s)
    (h : l.foldlM f s = .ok s') :
    I s' ∧ (∀ x ∈ l, P x s') ∧ ∀ y, P y s → P y s' := by
  induction l generalizing s with
  | nil =>
      cases h
      exact ⟨hs, fun x hx => absurd hx List.not_mem_nil, fun y hy => hy⟩
  | cons x l ih =>
      obtain ⟨s₁, hx, hl⟩ := foldlM_cons_ok_iff.mp h
      obtain ⟨hs₁, hdone, hkept⟩ := hstep s x s₁ List.mem_cons_self hs hx
      obtain ⟨hs', hall, hkept'⟩ := ih
        (fun s y s' hy => hstep s y s' (List.mem_cons_of_mem x hy)) hs₁ hl
      refine ⟨hs', ?_, fun y hy => hkept' y (hkept y hy)⟩
      intro y hy
      rcases List.mem_cons.mp hy with rfl | hy
      · exact hkept' y hdone
      · exact hall y hy

theorem foldlM_error {l : List α} {s : σ} {e : ε}
    (hstep : ∀ s x s', x ∈ l → I s → f s x = .ok s' → I s') (hs : I s)
    (h : l.foldlM f s = .error e) :
    ∃ s₁, ∃ x ∈ l, I s₁ ∧ f s₁ x = .error e := by
  induction l generalizing s with
  | nil => cases h
  | cons x l ih =>
      rcases foldlM_cons_error_iff.mp h with hx | ⟨s₁, hx, hl⟩
      · exact ⟨s, x, List.mem_cons_self, hs, hx⟩
      · have hs₁ := hstep s x s₁ List.mem_cons_self hs hx
        obtain ⟨s₂, y, hy, hs₂, hfail⟩ := ih
          (fun s y s' hy => hstep s y s' (List.mem_cons_of_mem x hy)) hs₁ hl
        exact ⟨s₂, y, List.mem_cons_of_mem x hy, hs₂, hfail⟩

theorem foldlM_append_ok_iff {l l' : List α} {s s' : σ} :
    (l ++ l').foldlM f s = .ok s' ↔
      ∃ s₁, l.foldlM f s = .ok s₁ ∧ l'.foldlM f s₁ = .ok s' := by
  rw [List.foldlM_append]
  cases l.foldlM f s with
  | error e =>
      constructor
      · intro h
        cases h
      · rintro ⟨_, h, _⟩
        cases h
  | ok s₁ =>
      constructor
      · intro h
        exact ⟨s₁, rfl, h⟩
      · rintro ⟨_, ⟨⟩, h⟩
        exact h

theorem foldlM_error_split {l : List α} {s : σ} {e : ε}
    (h : l.foldlM f s = .error e) :
    ∃ a x b s₁, l = a ++ x :: b ∧ a.foldlM f s = .ok s₁ ∧
      f s₁ x = .error e := by
  induction l generalizing s with
  | nil => cases h
  | cons x l ih =>
      rcases foldlM_cons_error_iff.mp h with hx | ⟨s₁, hx, hl⟩
      · exact ⟨[], x, l, s, rfl, rfl, hx⟩
      · obtain ⟨a, y, b, s₂, rfl, ha, hy⟩ := ih hl
        exact ⟨x :: a, y, b, s₂, rfl, foldlM_cons_ok_iff.mpr ⟨s₁, hx, ha⟩, hy⟩

theorem foldlM_congr {l : List α} {s : σ}
    (hstep : ∀ s x s', x ∈ l → I s → f s x = .ok s' → I s') (hs : I s)
    (heq : ∀ s x, x ∈ l → I s → f s x = g s x) :
    l.foldlM f s = l.foldlM g s := by
  induction l generalizing s with
  | nil => rfl
  | cons x l ih =>
      rw [List.foldlM_cons, List.foldlM_cons, ← heq s x List.mem_cons_self hs]
      cases hx : f s x with
      | error e => rfl
      | ok s₁ =>
          have hs₁ := hstep s x s₁ List.mem_cons_self hs hx
          exact ih (fun s y s' hy => hstep s y s' (List.mem_cons_of_mem x hy))
            hs₁ fun s y hy => heq s y (List.mem_cons_of_mem x hy)

end Baulk.Support
