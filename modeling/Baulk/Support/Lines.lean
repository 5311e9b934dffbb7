import Mathlib.Data.List.Infix

/-!
# Lines

A text is split at each line end, which is a pair of two different characters.
What comes after the last line end is a line, too.
-/

namespace Baulk.Support

variable {α : Type}

variable {r n : α}

def HasLineEnd (r n : α) (s : List α) : Prop :=
  [r, n] <:+: s

theorem hasLineEnd_cons_iff {x : α} {s : List α} :
    HasLineEnd r n (x :: s) ↔ (x = r ∧ s.head? = some n) ∨ HasLineEnd r n s := by
  unfold HasLineEnd
  rw [List.infix_cons_iff]
  refine or_congr_left ?_
  cases s with
  | nil => simp
  | cons y s =>
      rw [List.cons_prefix_cons, List.cons_prefix_cons, List.head?_cons,
        Option.some.injEq]
      constructor
      · rintro ⟨hx, hy, -⟩
        exact ⟨hx.symm, hy.symm⟩
      · rintro ⟨hx, hy⟩
        exact ⟨hx.symm, hy.symm, List.nil_prefix⟩

theorem not_hasLineEnd_nil : ¬ HasLineEnd r n [] := by
  intro h
  exact absurd (List.infix_nil.mp h) (by simp)

/-- A text in front that does not have the first character does not matter. -/
theorem hasLineEnd_append_iff {a b : List α} (h : r ∉ a) :
    HasLineEnd r n (a ++ b) ↔ HasLineEnd r n b := by
  induction a with
  | nil => exact Iff.rfl
  | cons x a ih =>
      rw [List.mem_cons, not_or] at h
      rw [List.cons_append, hasLineEnd_cons_iff, ih h.2, or_iff_right]
      exact fun hx => h.1 hx.1.symm

theorem not_hasLineEnd_of_not_mem {a : List α} (h : r ∉ a) :
    ¬ HasLineEnd r n a := by
  intro hend
  rw [← List.append_nil a, hasLineEnd_append_iff h] at hend
  exact not_hasLineEnd_nil hend

theorem not_hasLineEnd_drop {s : List α} (h : ¬ HasLineEnd r n s) (k : Nat) :
    ¬ HasLineEnd r n (s.drop k) := by
  intro hend
  exact h (hend.trans (List.drop_suffix k s).isInfix)

/-! ## Splitting -/

/-- Put a character in front of the first line. -/
def pushFirst (x : α) : List (List α) → List (List α)
  | [] => [[x]]
  | line :: lines => (x :: line) :: lines

variable [DecidableEq α]

/-- Split at each line end `r n`. -/
def splitLines (r n : α) : List α → List (List α)
  | [] => [[]]
  | [x] => [[x]]
  | x :: y :: rest =>
      if x = r ∧ y = n then [] :: splitLines r n rest
      else pushFirst x (splitLines r n (y :: rest))

theorem splitLines_of_not_hasLineEnd {a : List α} (h : ¬ HasLineEnd r n a) :
    splitLines r n a = [a] := by
  fun_induction splitLines r n a with
  | case1 => rfl
  | case2 x => rfl
  | case3 x y rest hxy ih =>
      have hhead : (y :: rest).head? = some n := congrArg some hxy.2
      exact absurd (hasLineEnd_cons_iff.mpr (.inl ⟨hxy.1, hhead⟩)) h
  | case4 x y rest hxy ih =>
      rw [ih fun hend => h (hasLineEnd_cons_iff.mpr (.inr hend))]
      rfl

theorem splitLines_append {a b : List α} (hrn : r ≠ n) (h : ¬ HasLineEnd r n a) :
    splitLines r n (a ++ r :: n :: b) = a :: splitLines r n b := by
  induction a with
  | nil =>
      rw [List.nil_append, splitLines, if_pos ⟨rfl, rfl⟩]
  | cons x a ih =>
      have hfirst : ¬ (x = r ∧ a.head? = some n) := fun hx =>
        h (hasLineEnd_cons_iff.mpr (.inl hx))
      have hih := ih fun hend => h (hasLineEnd_cons_iff.mpr (.inr hend))
      cases a with
      | nil =>
          rw [List.nil_append] at hih
          rw [List.singleton_append, splitLines, if_neg fun hx => hrn hx.2, hih]
          rfl
      | cons y a =>
          rw [List.head?_cons, Option.some.injEq] at hfirst
          rw [List.cons_append] at hih
          rw [List.cons_append, List.cons_append, splitLines, if_neg hfirst, hih]
          rfl

theorem splitLines_ne_nil (s : List α) : splitLines r n s ≠ [] := by
  fun_induction splitLines r n s with
  | case1 => exact List.cons_ne_nil _ _
  | case2 x => exact List.cons_ne_nil _ _
  | case3 x y rest hxy ih => exact List.cons_ne_nil _ _
  | case4 x y rest hxy ih =>
      cases h : splitLines r n (y :: rest) with
      | nil => exact List.cons_ne_nil _ _
      | cons line lines => exact List.cons_ne_nil _ _

theorem prefix_of_splitLines {s line : List α} {lines : List (List α)}
    (h : splitLines r n s = line :: lines) : line <+: s := by
  fun_induction splitLines r n s generalizing line lines with
  | case1 => rw [(List.cons.inj h).1]
  | case2 x => rw [(List.cons.inj h).1]
  | case3 x y rest hxy ih =>
      rw [← (List.cons.inj h).1]
      exact List.nil_prefix
  | case4 x y rest hxy ih =>
      cases hrest : splitLines r n (y :: rest) with
      | nil => exact absurd hrest (splitLines_ne_nil _)
      | cons line' lines' =>
          rw [hrest] at h
          rw [← (List.cons.inj h).1]
          exact List.cons_prefix_cons.mpr ⟨rfl, ih hrest⟩

theorem not_hasLineEnd_of_mem_splitLines {s line : List α}
    (h : line ∈ splitLines r n s) : ¬ HasLineEnd r n line := by
  fun_induction splitLines r n s generalizing line with
  | case1 =>
      rw [List.mem_singleton.mp h]
      exact not_hasLineEnd_nil
  | case2 x =>
      rw [List.mem_singleton.mp h, hasLineEnd_cons_iff]
      rintro (hx | hnil)
      · cases hx.2
      · exact not_hasLineEnd_nil hnil
  | case3 x y rest hxy ih =>
      rcases List.mem_cons.mp h with rfl | hmem
      · exact not_hasLineEnd_nil
      · exact ih hmem
  | case4 x y rest hxy ih =>
      cases hrest : splitLines r n (y :: rest) with
      | nil => exact absurd hrest (splitLines_ne_nil _)
      | cons line' lines' =>
          rw [hrest] at h ih
          rcases List.mem_cons.mp h with rfl | hmem
          · rw [hasLineEnd_cons_iff]
            rintro (⟨hx, hhead⟩ | hend)
            · -- The first line starts with the character after `x`.
              have hprefix := prefix_of_splitLines hrest
              cases line' with
              | nil => cases hhead
              | cons z line' =>
                  obtain ⟨rfl, -⟩ := List.cons_prefix_cons.mp hprefix
                  exact hxy ⟨hx, Option.some.inj hhead⟩
            · exact ih List.mem_cons_self hend
          · exact ih (List.mem_cons_of_mem _ hmem)

end Baulk.Support
