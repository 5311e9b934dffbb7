import Mathlib.Data.List.Infix

/-!
# Walking along path components

A path is read here as a sequence of components over an arbitrary type, with
one component that stays where it is and one that moves to the parent.  Two
evaluations matter: `descend`, which refuses to leave the directory it started
in, and `collapse`, the lexical normalisation below a root, where the parent
of the root is the root.  The results relate the two: a walk that never leaves
its start lands below every base directory, and a walk that leaves it once is
able to leave a suitably chosen base for good.
-/

namespace Baulk.Support

section Walk

variable {α : Type*} [DecidableEq α] (dot dotdot : α)

/-- Walk down from `stack`, the last element being the innermost directory.
The walk fails when it would move above the directory it started in. -/
def descend : List α → List α → Option (List α)
  | stack, [] => some stack
  | stack, c :: cs =>
      if c = dot then descend stack cs
      else if c ≠ dotdot then descend (stack ++ [c]) cs
      else if stack = [] then none
      else descend stack.dropLast cs

/-- Lexical normalisation below a root, continuing from `stack`. -/
def collapse : List α → List α → List α
  | stack, [] => stack
  | stack, c :: cs =>
      if c = dot then collapse stack cs
      else if c ≠ dotdot then collapse (stack ++ [c]) cs
      else collapse stack.dropLast cs

variable {dot dotdot}

@[simp] theorem collapse_nil (stack : List α) :
    collapse dot dotdot stack [] = stack := rfl

theorem collapse_append (stack as bs : List α) :
    collapse dot dotdot stack (as ++ bs) =
      collapse dot dotdot (collapse dot dotdot stack as) bs := by
  induction as generalizing stack with
  | nil => rfl
  | cons a as ih =>
      simp only [List.cons_append, collapse]
      split
      · exact ih _
      · split
        · exact ih _
        · exact ih _

theorem collapse_of_plain (stack : List α) {cs : List α}
    (hcs : ∀ c ∈ cs, c ≠ dot ∧ c ≠ dotdot) :
    collapse dot dotdot stack cs = stack ++ cs := by
  induction cs generalizing stack with
  | nil => simp
  | cons c cs ih =>
      obtain ⟨hdot, hdotdot⟩ := hcs c (by simp)
      rw [collapse, if_neg hdot, if_pos hdotdot, ih]
      · simp
      · intro d hd
        exact hcs d (by simp [hd])

theorem descend_of_plain (stack : List α) {cs : List α}
    (hcs : ∀ c ∈ cs, c ≠ dot ∧ c ≠ dotdot) :
    descend dot dotdot stack cs = some (stack ++ cs) := by
  induction cs generalizing stack with
  | nil => rw [descend, List.append_nil]
  | cons c cs ih =>
      obtain ⟨hdot, hdotdot⟩ := hcs c List.mem_cons_self
      rw [descend, if_neg hdot, if_pos hdotdot,
        ih _ fun d hd => hcs d (List.mem_cons_of_mem c hd), List.append_assoc]
      rfl

/-- What remains after normalisation was there before, and is a plain name
unless it was already on the stack. -/
theorem mem_collapse {stack cs : List α} {x : α}
    (hx : x ∈ collapse dot dotdot stack cs) :
    x ∈ stack ∨ (x ∈ cs ∧ x ≠ dot ∧ x ≠ dotdot) := by
  induction cs generalizing stack with
  | nil => exact Or.inl hx
  | cons c cs ih =>
      rw [collapse] at hx
      split at hx
      · rcases ih hx with h | ⟨h, hplain⟩
        · exact Or.inl h
        · exact Or.inr ⟨by simp [h], hplain⟩
      · rename_i hdot
        split at hx
        · rename_i hdotdot
          rcases ih hx with h | ⟨h, hplain⟩
          · rw [List.mem_append, List.mem_singleton] at h
            rcases h with h | rfl
            · exact Or.inl h
            · exact Or.inr ⟨by simp, hdot, hdotdot⟩
          · exact Or.inr ⟨by simp [h], hplain⟩
        · rcases ih hx with h | ⟨h, hplain⟩
          · exact Or.inl (List.mem_of_mem_dropLast h)
          · exact Or.inr ⟨by simp [h], hplain⟩

/-- A walk that stays below its start has the same effect below any base. -/
theorem collapse_of_descend (base : List α) {stack cs out : List α}
    (h : descend dot dotdot stack cs = some out) :
    collapse dot dotdot (base ++ stack) cs = base ++ out := by
  induction cs generalizing stack with
  | nil =>
      simp only [descend, Option.some.injEq] at h
      rw [collapse, h]
  | cons c cs ih =>
      rw [descend] at h
      rw [collapse]
      split at h
      · rename_i hdot
        rw [if_pos hdot]
        exact ih h
      · rename_i hdot
        rw [if_neg hdot]
        split at h
        · rename_i hdotdot
          rw [if_pos hdotdot, List.append_assoc]
          exact ih h
        · rename_i hdotdot
          rw [if_neg hdotdot]
          split at h
          · contradiction
          · rename_i hstack
            rw [List.dropLast_append_of_ne_nil hstack]
            exact ih h

/-- A walk that leaves its start drops the last component of the base: below a
single base directory nothing of the base survives. -/
theorem mem_collapse_of_descend_none {b x : α} {stack cs : List α}
    (h : descend dot dotdot stack cs = none)
    (hx : x ∈ collapse dot dotdot (b :: stack) cs) :
    x ∈ stack ∨ x ∈ cs := by
  induction cs generalizing stack with
  | nil => simp [descend] at h
  | cons c cs ih =>
      rw [descend] at h
      rw [collapse] at hx
      split at h
      · rename_i hdot
        rw [if_pos hdot] at hx
        exact (ih h hx).imp id (List.mem_cons_of_mem c)
      · rename_i hdot
        rw [if_neg hdot] at hx
        split at h
        · rename_i hdotdot
          rw [if_pos hdotdot, List.cons_append] at hx
          rcases ih h hx with hs | hs
          · rw [List.mem_append, List.mem_singleton] at hs
            exact hs.imp id (fun hc => by simp [hc])
          · exact Or.inr (List.mem_cons_of_mem c hs)
        · rename_i hdotdot
          rw [if_neg hdotdot] at hx
          split at h
          · -- This is the step above the start: the base itself is popped.
            rename_i hstack
            subst hstack
            rcases mem_collapse hx with hs | ⟨hs, -⟩
            · simp at hs
            · exact Or.inr (List.mem_cons_of_mem c hs)
          · rename_i hstack
            rw [List.dropLast_cons_of_ne_nil hstack] at hx
            exact (ih h hx).imp List.mem_of_mem_dropLast
              (List.mem_cons_of_mem c)

end Walk

/-! ## Comparing two component lists -/

section Mismatch

variable {α : Type*} [DecidableEq α]

/-- What is left of two lists after their longest common prefix. -/
def mismatch : List α → List α → List α × List α
  | a :: as, b :: bs => if a = b then mismatch as bs else (a :: as, b :: bs)
  | as, bs => (as, bs)

theorem exists_common_mismatch (as bs : List α) :
    ∃ common, as = common ++ (mismatch as bs).1 ∧
      bs = common ++ (mismatch as bs).2 := by
  induction as generalizing bs with
  | nil => exact ⟨[], by simp [mismatch]⟩
  | cons a as ih =>
      cases bs with
      | nil => exact ⟨[], by simp [mismatch]⟩
      | cons b bs =>
          by_cases hab : a = b
          · obtain ⟨common, has, hbs⟩ := ih bs
            refine ⟨a :: common, ?_, ?_⟩
            · rw [mismatch, if_pos hab, List.cons_append, ← has]
            · rw [mismatch, if_pos hab, List.cons_append, ← hbs, hab]
          · exact ⟨[], by simp [mismatch, hab]⟩

theorem mismatch_append_right (as bs : List α) :
    mismatch as (as ++ bs) = ([], bs) := by
  induction as with
  | nil => simp [mismatch]
  | cons a as ih => simp [mismatch, ih]

theorem mismatch_append_left (as bs : List α) :
    mismatch (bs ++ as) bs = (as, []) := by
  induction bs with
  | nil => cases as <;> simp [mismatch]
  | cons b bs ih => simp [mismatch, ih]

theorem mismatch_snd_eq_nil_iff {as bs : List α} :
    (mismatch as bs).2 = [] ↔ bs <+: as := by
  constructor
  · intro h
    obtain ⟨common, has, hbs⟩ := exists_common_mismatch as bs
    rw [h, List.append_nil] at hbs
    rw [← hbs] at has
    exact ⟨_, has.symm⟩
  · rintro ⟨rest, rfl⟩
    rw [mismatch_append_left]

end Mismatch

/-! ## Splitting a text into components -/

section Split

variable {α β : Type*} (isSep : α → Bool)

/-- The non-empty pieces of a text between separators. -/
def components (s : List α) : List (List α) :=
  (s.splitOnP isSep).filter fun c => !c.isEmpty

variable {isSep}

theorem sublist_of_mem_splitOnP {s c : List α} (hc : c ∈ s.splitOnP isSep) :
    c.Sublist s := by
  induction s generalizing c with
  | nil =>
      simp only [List.splitOnP_nil, List.mem_singleton] at hc
      rw [hc]
  | cons a s ih =>
      rw [List.splitOnP_cons_eq_if_modifyHead] at hc
      split at hc
      · rw [List.mem_cons] at hc
        rcases hc with rfl | hc
        · exact List.nil_sublist _
        · exact (ih hc).cons a
      · obtain ⟨first, rest, hsplit⟩ :=
          List.exists_cons_of_ne_nil (List.splitOnP_ne_nil isSep s)
        rw [hsplit, List.modifyHead_cons, List.mem_cons] at hc
        rcases hc with rfl | hc
        · exact (ih (by simp [hsplit])).cons_cons a
        · exact (ih (by simp [hsplit, hc])).cons a

theorem not_sep_of_mem_splitOnP {s c : List α} (hc : c ∈ s.splitOnP isSep)
    {x : α} (hx : x ∈ c) : isSep x = false := by
  induction s generalizing c with
  | nil =>
      simp only [List.splitOnP_nil, List.mem_singleton] at hc
      subst hc
      simp at hx
  | cons a s ih =>
      rw [List.splitOnP_cons_eq_if_modifyHead] at hc
      split at hc
      · rw [List.mem_cons] at hc
        rcases hc with rfl | hc
        · simp at hx
        · exact ih hc hx
      · rename_i ha
        obtain ⟨first, rest, hsplit⟩ :=
          List.exists_cons_of_ne_nil (List.splitOnP_ne_nil isSep s)
        rw [hsplit, List.modifyHead_cons, List.mem_cons] at hc
        rcases hc with rfl | hc
        · rw [List.mem_cons] at hx
          rcases hx with rfl | hx
          · simpa using ha
          · exact ih (by simp [hsplit]) hx
        · exact ih (by simp [hsplit, hc]) hx

/-- What both sides of a separator inherit, every piece inherits. -/
theorem of_mem_splitOnP {P : List α → Prop}
    (hcut : ∀ s x t, isSep x = true → P (s ++ x :: t) → P s ∧ P t) {s : List α} (h : P s)
    {c : List α} (hc : c ∈ s.splitOnP isSep) : P c := by
  induction hlength : s.length using Nat.strong_induction_on generalizing s with
  | _ n ih =>
      by_cases hsep : ∃ x ∈ s, isSep x = true
      · obtain ⟨x, hx, hsepx⟩ := hsep
        obtain ⟨front, back, rfl⟩ := List.append_of_mem hx
        obtain ⟨hfront, hback⟩ := hcut front x back hsepx h
        rw [List.length_append, List.length_cons] at hlength
        rw [List.splitOnP_append_cons front back hsepx] at hc
        rcases List.mem_append.mp hc with hc | hc
        · exact ih front.length (by omega) hfront hc rfl
        · exact ih back.length (by omega) hback hc rfl
      · have hnone : ∀ x ∈ s, isSep x = false := by
          intro x hx
          exact Bool.eq_false_iff.mpr fun hsepx => hsep ⟨x, hx, hsepx⟩
        rw [List.splitOnP_eq_singleton hnone, List.mem_singleton] at hc
        rwa [hc]

theorem mem_components {s c : List α} (hc : c ∈ components isSep s) :
    c ≠ [] ∧ ∀ x ∈ c, isSep x = false := by
  rw [components, List.mem_filter] at hc
  constructor
  · simpa using hc.2
  · intro x hx
    exact not_sep_of_mem_splitOnP hc.1 hx

theorem components_append_cons (s t : List α) {sep : α}
    (hsep : isSep sep = true) :
    components isSep (s ++ sep :: t) =
      components isSep s ++ components isSep t := by
  rw [components, List.splitOnP_append_cons s t hsep, List.filter_append]
  rfl

theorem components_of_forall_not_sep {s : List α} (hne : s ≠ [])
    (h : ∀ x ∈ s, isSep x = false) : components isSep s = [s] := by
  rw [components, List.splitOnP_eq_singleton h]
  simp [hne]

theorem sublist_of_mem_components {s c : List α} (hc : c ∈ components isSep s) :
    c.Sublist s :=
  sublist_of_mem_splitOnP (List.mem_filter.mp hc).1

theorem length_le_of_mem_components {s c : List α}
    (hc : c ∈ components isSep s) : c.length ≤ s.length :=
  (sublist_of_mem_components hc).length_le

/-- A change of single characters that respects separators commutes with
splitting. -/
theorem components_map {isSep' : β → Bool} {f : α → β}
    (hf : ∀ x, isSep' (f x) = isSep x) (s : List α) :
    components isSep' (s.map f) = (components isSep s).map (List.map f) := by
  have hsplit : (s.map f).splitOnP isSep' =
      (s.splitOnP isSep).map (List.map f) := by
    induction s with
    | nil => simp
    | cons a s ih =>
        rw [List.map_cons, List.splitOnP_cons_eq_if_modifyHead,
          List.splitOnP_cons_eq_if_modifyHead, hf, ih]
        split
        · simp
        · obtain ⟨first, rest, h⟩ :=
            List.exists_cons_of_ne_nil (List.splitOnP_ne_nil isSep s)
          simp [h]
  rw [components, components, hsplit, List.filter_map]
  congr 1
  apply List.filter_congr
  intro c _
  cases c <;> rfl

end Split

end Baulk.Support
