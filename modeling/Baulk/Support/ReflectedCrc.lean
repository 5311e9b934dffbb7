import Mathlib.Logic.Function.Iterate
import Mathlib.Data.List.Basic

/-!
# Reflected cyclic redundancy checks

The register of a reflected CRC is a bit vector that is shifted to the right,
one bit at a time, and reduced by a polynomial.  Both operations are linear
over exclusive or, and this is all that table-driven implementations rest on:
the contribution of a byte to the final register does not depend on the other
bytes, only on how many of them follow.
-/

namespace Baulk.Support.ReflectedCrc

variable {w : Nat} (p : BitVec w)

/-- One bit. -/
def step (c : BitVec w) : BitVec w :=
  (c >>> 1) ^^^ (if c.getLsbD 0 then p else 0#w)

/-- Several bits. -/
def steps (n : Nat) (c : BitVec w) : BitVec w :=
  (step p)^[n] c

/-- One byte of data. -/
def feed (c : BitVec w) (b : BitVec 8) : BitVec w :=
  steps p 8 (c ^^^ b.setWidth w)

/-- The lookup table for a byte that `k` more bytes follow. -/
def table (k : Nat) (b : BitVec 8) : BitVec w :=
  steps p (8 * (k + 1)) (b.setWidth w)

/-! ## Linearity -/

theorem step_xor (a b : BitVec w) :
    step p (a ^^^ b) = step p a ^^^ step p b := by
  have hswap : ∀ x y z : BitVec w, x ^^^ y ^^^ z = x ^^^ z ^^^ y := by
    intro x y z
    rw [BitVec.xor_assoc, BitVec.xor_comm y, BitVec.xor_assoc]
  cases ha : a.getLsbD 0 <;> cases hb : b.getLsbD 0 <;>
    simp [step, ha, hb, BitVec.ushiftRight_xor_distrib]
  · rw [BitVec.xor_assoc]
  · rw [hswap]
  · rw [← BitVec.xor_assoc, hswap (a >>> 1) p, BitVec.xor_assoc _ p p]
    simp

theorem steps_xor (n : Nat) (a b : BitVec w) :
    steps p n (a ^^^ b) = steps p n a ^^^ steps p n b := by
  induction n generalizing a b with
  | zero => rfl
  | succ n ih =>
      simp only [steps, Function.iterate_succ_apply, step_xor] at ih ⊢
      exact ih _ _

theorem steps_add (m n : Nat) (c : BitVec w) :
    steps p (m + n) c = steps p m (steps p n c) :=
  Function.iterate_add_apply (step p) m n c

theorem steps_of_low_zero {n : Nat} {c : BitVec w}
    (h : ∀ i < n, c.getLsbD i = false) : steps p n c = c >>> n := by
  induction n with
  | zero => simp [steps]
  | succ n ih =>
      have hlow : (c >>> n).getLsbD 0 = false := by
        simpa using h n (Nat.lt_succ_self n)
      rw [Nat.add_comm n 1, steps_add,
        ih fun i hi => h i (Nat.lt_succ_of_lt hi)]
      simp [steps, step, hlow, BitVec.shiftRight_add, Nat.add_comm]

/-! ## Bytes -/

/-- The register splits into what a byte shifts out and what it only moves. -/
theorem xor_byte_eq (c : BitVec w) (b : BitVec 8) :
    c ^^^ b.setWidth w =
      ((c >>> 8) <<< 8) ^^^ (c.setWidth 8 ^^^ b).setWidth w := by
  ext i hi
  by_cases h8 : i < 8
  · simp [h8, BitVec.getLsbD_eq_getElem hi]
  · have hge : 8 ≤ i := Nat.le_of_not_lt h8
    have hsplit : 8 + (i - 8) = i := by omega
    simp [h8, hsplit, BitVec.getLsbD_eq_getElem hi,
      BitVec.getLsbD_of_ge b i hge]

theorem feed_eq_table (c : BitVec w) (b : BitVec 8) :
    feed p c b = (c >>> 8) ^^^ table p 0 (c.setWidth 8 ^^^ b) := by
  have hlow : ∀ i < 8, ((c >>> 8) <<< 8).getLsbD i = false := by
    intro i hi
    simp [hi]
  have hback : ((c >>> 8) <<< 8) >>> 8 = c >>> 8 := by
    ext i hi
    by_cases hlt : 8 + i < w
    · simp [hlt]
    · simp [hlt, BitVec.getLsbD_of_ge c (8 + i) (by omega)]
  rw [feed, xor_byte_eq, steps_xor, steps_of_low_zero p hlow, hback]
  rfl

theorem foldl_feed_xor (a b : BitVec w) (bs : List (BitVec 8)) :
    bs.foldl (feed p) (a ^^^ b) =
      bs.foldl (feed p) a ^^^ steps p (8 * bs.length) b := by
  induction bs generalizing a b with
  | nil => rfl
  | cons x bs ih =>
      have hfeed : feed p (a ^^^ b) x = feed p a x ^^^ steps p 8 b := by
        rw [feed, feed, ← steps_xor, BitVec.xor_assoc, BitVec.xor_assoc,
          BitVec.xor_comm b]
      rw [List.foldl_cons, List.foldl_cons, hfeed, ih, ← steps_add,
        List.length_cons, Nat.mul_succ]

/-- The first byte of a block contributes one table entry, and the register
moves on by one byte. -/
theorem foldl_feed_cons (c : BitVec w) (b : BitVec 8) (bs : List (BitVec 8)) :
    (b :: bs).foldl (feed p) c =
      table p bs.length (c.setWidth 8 ^^^ b) ^^^
        bs.foldl (feed p) (c >>> 8) := by
  rw [List.foldl_cons, feed_eq_table, foldl_feed_xor, table, table,
    ← steps_add, Nat.mul_succ, Nat.mul_zero, Nat.zero_add, Nat.mul_succ,
    BitVec.xor_comm]

end Baulk.Support.ReflectedCrc
