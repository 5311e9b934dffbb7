import Mathlib.Tactic.TypeStar

/-!
# Values that are overwritten

Folds over a list in which some elements carry a value.  Either the last value
counts, or the first one does, and what is there already may be locked.
-/

namespace Baulk.Support

variable {α β : Type*}

theorem foldl_last (value : β → Option α) (l : List β) (a : α) :
    l.foldl (fun a b => (value b).getD a) a = (l.filterMap value).getLast?.getD a := by
  induction l generalizing a with
  | nil => rfl
  | cons b l ih =>
      rw [List.foldl_cons, ih]
      cases hb : value b with
      | none => rw [List.filterMap_cons_none hb, Option.getD_none]
      | some v =>
          rw [List.filterMap_cons_some hb, List.getLast?_cons, Option.getD_some,
            Option.getD_some]

/-- Overwrite a value once. -/
def lockFirst (value : β → Option α) (x : Bool × α) (b : β) : Bool × α :=
  if x.1 then x else (value b).elim x fun v => (true, v)

theorem foldl_locked (value : β → Option α) (l : List β) (a : α) :
    l.foldl (lockFirst value) (true, a) = (true, a) := by
  induction l with
  | nil => rfl
  | cons b l ih => exact ih

theorem foldl_first (value : β → Option α) (l : List β) (locked : Bool) (a : α) :
    (l.foldl (lockFirst value) (locked, a)).2 =
      if locked then a else (l.filterMap value).head?.getD a := by
  cases locked with
  | true => rw [foldl_locked, if_pos rfl]
  | false =>
      rw [if_neg Bool.false_ne_true]
      induction l with
      | nil => rfl
      | cons b l ih =>
          rw [List.foldl_cons]
          cases hb : value b with
          | none =>
              have hstep : lockFirst value (false, a) b = (false, a) := by
                rw [lockFirst, hb, Option.elim_none, ite_self]
              rw [hstep, ih, List.filterMap_cons_none hb]
          | some v =>
              have hstep : lockFirst value (false, a) b = (true, v) := by
                rw [lockFirst, hb, if_neg Bool.false_ne_true, Option.elim_some]
              rw [hstep, foldl_locked, List.filterMap_cons_some hb, List.head?_cons,
                Option.getD_some]

end Baulk.Support
