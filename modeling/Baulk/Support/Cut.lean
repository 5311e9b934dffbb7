import Mathlib.Data.List.Infix

/-!
# The first occurrence of an element

A text is cut in two at the first occurrence of a separator, if there is one.
-/

namespace Baulk.Support

variable {α : Type} [DecidableEq α]

theorem findIdx?_eq_none_iff_not_mem {s : List α} {c : α} :
    s.findIdx? (· == c) = none ↔ c ∉ s := by
  rw [List.findIdx?_eq_none_iff]
  constructor
  · intro h hmem
    have hc := h c hmem
    rw [beq_self_eq_true] at hc
    cases hc
  · intro h x hx
    rw [beq_eq_false_iff_ne]
    exact fun heq => h (heq ▸ hx)

/-- The first occurrence is where the part without the separator ends. -/
theorem findIdx?_append_cons {a b : List α} {c : α} (h : c ∉ a) :
    (a ++ c :: b).findIdx? (· == c) = some a.length := by
  rw [List.findIdx?_append, findIdx?_eq_none_iff_not_mem.mpr h,
    List.findIdx?_cons, if_pos (beq_self_eq_true c)]
  simp

/-- A text without the separator, or one that is cut at its first occurrence. -/
theorem cut_cases (s : List α) (c : α) :
    c ∉ s ∨ ∃ a b, s = a ++ c :: b ∧ c ∉ a := by
  by_cases h : c ∈ s
  · exact .inr (List.eq_append_cons_of_mem h)
  · exact .inl h

theorem forall_ne_of_not_mem {a : List α} {c : α} (h : c ∉ a) :
    ∀ x ∈ a, decide (x ≠ c) = true := by
  intro x hx
  rw [decide_eq_true_eq]
  rintro rfl
  exact h hx

theorem dropWhile_ne_of_not_mem {s : List α} {c : α} (h : c ∉ s) :
    s.dropWhile (· ≠ c) = [] := by
  have hdrop : (s ++ []).dropWhile (· ≠ c) = [].dropWhile (· ≠ c) :=
    List.dropWhile_append_of_pos (forall_ne_of_not_mem h)
  rwa [List.append_nil] at hdrop

theorem takeWhile_ne_append_cons {a b : List α} {c : α} (h : c ∉ a) :
    (a ++ c :: b).takeWhile (· ≠ c) = a := by
  rw [List.takeWhile_append_of_pos (forall_ne_of_not_mem h), List.takeWhile_cons_of_neg (by simp),
    List.append_nil]

theorem dropWhile_ne_append_cons {a b : List α} {c : α} (h : c ∉ a) :
    (a ++ c :: b).dropWhile (· ≠ c) = c :: b := by
  rw [List.dropWhile_append_of_pos (forall_ne_of_not_mem h), List.dropWhile_cons_of_neg (by simp)]

theorem cut_unique {a a' b b' : List α} {c : α} (ha : c ∉ a) (ha' : c ∉ a')
    (h : a ++ c :: b = a' ++ c :: b') : a = a' ∧ b = b' := by
  have hlen : a.length = a'.length := by
    have hfind := congrArg (List.findIdx? (· == c)) h
    rw [findIdx?_append_cons ha, findIdx?_append_cons ha'] at hfind
    exact Option.some.inj hfind
  obtain ⟨hfront, hback⟩ := List.append_inj h hlen
  exact ⟨hfront, (List.cons.inj hback).2⟩

end Baulk.Support
