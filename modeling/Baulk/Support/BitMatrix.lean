import Mathlib.Data.List.Basic

/-!
# Matrices over two elements

A map of bit vectors that respects exclusive or is given by what it makes of
each single bit.  A matrix is the list of these columns.
-/

namespace Baulk.Support.BitMatrix

variable {w : Nat}

/-- A map respects exclusive or. -/
def Linear (f : BitVec w → BitVec w) : Prop :=
  ∀ a b, f (a ^^^ b) = f a ^^^ f b

/-- The columns of the bits from `k` on. -/
def columnsFrom (f : BitVec w → BitVec w) : Nat → Nat → List (BitVec w)
  | _, 0 => []
  | k, n + 1 => f (1#w <<< k) :: columnsFrom f (k + 1) n

/-- The matrix of a map. -/
def columns (f : BitVec w → BitVec w) : List (BitVec w) :=
  columnsFrom f 0 w

/-- The columns of the bits of a vector, added to a sum. -/
def times : List (BitVec w) → BitVec w → BitVec w → BitVec w
  | [], _, sum => sum
  | column :: mat, vec, sum =>
      if vec = 0#w then sum
      else times mat (vec >>> 1) (if vec.getLsbD 0 then sum ^^^ column else sum)

/-- A matrix, applied to its own columns. -/
def square (mat : List (BitVec w)) : List (BitVec w) :=
  mat.map fun vec => times mat vec 0#w

theorem Linear.zero {f : BitVec w → BitVec w} (hf : Linear f) : f 0#w = 0#w := by
  have h := hf 0#w 0#w
  rw [BitVec.xor_self, BitVec.xor_self] at h
  exact h

theorem Linear.comp {f g : BitVec w → BitVec w} (hf : Linear f) (hg : Linear g) :
    Linear (f ∘ g) := by
  intro a b
  simp only [Function.comp_apply, hg a b, hf (g a) (g b)]

theorem shiftLeft_eq_low_xor (vec : BitVec w) (k : Nat) :
    vec <<< k =
      (if vec.getLsbD 0 then 1#w <<< k else 0#w) ^^^ (vec >>> 1) <<< (k + 1) := by
  apply BitVec.eq_of_getLsbD_eq
  intro i hi
  rw [BitVec.getLsbD_xor, BitVec.getLsbD_shiftLeft, BitVec.getLsbD_shiftLeft,
    BitVec.getLsbD_ushiftRight]
  by_cases hlt : i < k
  · cases vec.getLsbD 0 <;> simp [hlt, Nat.lt_succ_of_lt hlt]
  · by_cases heq : i = k
    · subst heq
      cases hlow : vec.getLsbD 0 <;> simp [hi, hlow]
    · have hge : ¬ i < k + 1 := by omega
      have hindex : 1 + (i - (k + 1)) = i - k := by omega
      have hpos : i - k ≠ 0 := by omega
      cases vec.getLsbD 0 <;> simp [hi, hlt, hge, hindex, hpos]

theorem times_columnsFrom {f : BitVec w → BitVec w} (hf : Linear f) (k n : Nat)
    (vec sum : BitVec w) (hvec : vec >>> n = 0#w) :
    times (columnsFrom f k n) vec sum = sum ^^^ f (vec <<< k) := by
  induction n generalizing k vec sum with
  | zero =>
      have hzero : vec = 0#w := by simpa using hvec
      rw [columnsFrom, times, hzero, BitVec.zero_shiftLeft, hf.zero]
      exact (BitVec.xor_zero).symm
  | succ n ih =>
      rw [columnsFrom, times]
      by_cases hzero : vec = 0#w
      · rw [if_pos hzero, hzero, BitVec.zero_shiftLeft, hf.zero]
        exact (BitVec.xor_zero).symm
      · have hrest : (vec >>> 1) >>> n = 0#w := by
          rw [← BitVec.shiftRight_add, Nat.add_comm]
          exact hvec
        rw [if_neg hzero, ih (k + 1) _ _ hrest, shiftLeft_eq_low_xor vec k, hf]
        cases vec.getLsbD 0 with
        | true => exact BitVec.xor_assoc ..
        | false => simp [hf.zero]

theorem times_columns {f : BitVec w → BitVec w} (hf : Linear f) (vec : BitVec w) :
    times (columns f) vec 0#w = f vec := by
  have hvec : vec >>> w = 0#w := by
    apply BitVec.eq_of_getLsbD_eq
    intro i _
    rw [BitVec.getLsbD_ushiftRight, BitVec.getLsbD_of_ge vec (w + i) (Nat.le_add_right w i)]
    exact BitVec.getLsbD_zero.symm
  rw [columns, times_columnsFrom hf 0 w vec 0#w hvec, BitVec.shiftLeft_zero]
  exact BitVec.zero_xor

theorem map_columnsFrom (f g : BitVec w → BitVec w) (k n : Nat) :
    (columnsFrom f k n).map g = columnsFrom (g ∘ f) k n := by
  induction n generalizing k with
  | zero => rfl
  | succ n ih => rw [columnsFrom, List.map_cons, ih, columnsFrom, Function.comp_apply]

theorem square_columns {f : BitVec w → BitVec w} (hf : Linear f) :
    square (columns f) = columns (f ∘ f) := by
  have hmap : square (columns f) = (columns f).map f :=
    List.map_congr_left fun vec _ => times_columns hf vec
  rw [hmap, columns, map_columnsFrom]
  rfl

end Baulk.Support.BitMatrix
