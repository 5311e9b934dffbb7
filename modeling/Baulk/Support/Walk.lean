import Mathlib.Order.Lattice.Nat
import Mathlib.Order.ConditionallyCompleteLattice.Basic

/-!
# Depth-first walks

A walk through a graph enters every node once, in depth-first order.  The edges
are followed from a bounded number of nodes only.
-/

namespace Baulk.Support

variable {α : Type} (next : α → List α) (bound : Nat)

/-- The nodes with edges. -/
def bearing (seen : List α) : List α :=
  seen.filter fun n => !(next n).isEmpty

/-- The nodes whose edges are followed. -/
def followed (seen : List α) : List α :=
  (bearing next seen).take bound

/-- The nodes that were entered, after a walk from one more node. -/
def walk [DecidableEq α] : Nat → List α → α → List α
  | 0, seen, _ => seen
  | levels + 1, seen, n =>
      if n ∈ seen then seen
      else if (bearing next seen).length < bound then
        (next n).foldl (walk levels) (seen ++ [n])
      else seen ++ [n]

section Followed

variable {next : α → List α} {bound : Nat} {seen : List α} {n : α}

theorem bearing_concat_of_empty (h : next n = []) (seen : List α) :
    bearing next (seen ++ [n]) = bearing next seen := by
  simp [bearing, h]

theorem bearing_concat_of_ne (h : next n ≠ []) (seen : List α) :
    bearing next (seen ++ [n]) = bearing next seen ++ [n] := by
  simp [bearing, h]

theorem mem_of_mem_followed {x : α} (h : x ∈ followed next bound seen) :
    x ∈ seen :=
  (List.mem_filter.mp (List.mem_of_mem_take h)).1

theorem followed_concat_of_empty (h : next n = []) :
    followed next bound (seen ++ [n]) = followed next bound seen := by
  rw [followed, bearing_concat_of_empty h, followed]

theorem followed_concat_of_le (h : bound ≤ (bearing next seen).length) :
    followed next bound (seen ++ [n]) = followed next bound seen := by
  by_cases hn : next n = []
  · exact followed_concat_of_empty hn
  · rw [followed, bearing_concat_of_ne hn, List.take_append_of_le_length h,
      followed]

theorem followed_concat_of_lt (hn : next n ≠ [])
    (h : (bearing next seen).length < bound) :
    followed next bound (seen ++ [n]) = followed next bound seen ++ [n] := by
  have hall : followed next bound seen = bearing next seen :=
    List.take_of_length_le (Nat.le_of_lt h)
  rw [followed, bearing_concat_of_ne hn, hall, List.take_of_length_le]
  rw [List.length_append, List.length_singleton]
  exact h

end Followed

/-! ## Chains -/

/-- If chains are bounded, every edge leads to a node of lower rank. -/
theorem exists_rank_of_chains {r : α → α → Prop} {bound : Nat}
    (h : ∀ l : List α, l.IsChain r → l.length ≤ bound) :
    ∃ rank : α → Nat, ∀ a b, r a b → rank b < rank a := by
  let lengths : α → Set Nat := fun a =>
    { k | ∃ l : List α, (a :: l).IsChain r ∧ l.length = k }
  have hbounded : ∀ a, BddAbove (lengths a) := by
    intro a
    refine ⟨bound, ?_⟩
    rintro k ⟨l, hl, rfl⟩
    exact le_trans (Nat.le_succ _) (h (a :: l) hl)
  have hnonempty : ∀ a, (lengths a).Nonempty :=
    fun a => ⟨0, [], List.isChain_singleton a, rfl⟩
  refine ⟨fun a => sSup (lengths a), fun a b hab => ?_⟩
  obtain ⟨l, hl, hlength⟩ := Nat.sSup_mem (hnonempty b) (hbounded b)
  have hmem : sSup (lengths b) + 1 ∈ lengths a :=
    ⟨b :: l, List.isChain_cons_cons.mpr ⟨hab, hl⟩, by
      rw [List.length_cons, hlength]⟩
  exact le_csSup (hbounded a) hmem

end Baulk.Support
