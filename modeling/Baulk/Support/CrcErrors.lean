import Mathlib.Data.List.GetD
import Baulk.Support.ReflectedCrc

/-!
# Errors that a reflected CRC finds

Bit by bit, a register takes data in and moves on.  If the polynomial has its
highest bit, no step forgets anything, and as many bits as the register has are
kept apart from each other: two texts that differ only in a burst of that length
leave different registers.
-/

namespace Baulk.Support.ReflectedCrc

variable {w : Nat} (p : BitVec w)

/-! ## Parts of a register -/

/-- The register splits into what is shifted out and what only moves. -/
theorem steps_eq_shift_xor (n : Nat) (c : BitVec w) :
    steps p n c = (c >>> n) ^^^ steps p n ((c.setWidth n).setWidth w) := by
  have hsplit : c = ((c >>> n) <<< n) ^^^ (c.setWidth n).setWidth w := by
    apply BitVec.eq_of_getLsbD_eq
    intro i hi
    by_cases hlow : i < n
    · simp [hi, hlow]
    · have hsum : n + (i - n) = i := by omega
      simp [hi, hlow, hsum]
  have hlow : ∀ i < n, ((c >>> n) <<< n).getLsbD i = false := by
    intro i hi
    simp [hi]
  have hback : ((c >>> n) <<< n) >>> n = c >>> n := by
    apply BitVec.eq_of_getLsbD_eq
    intro i hi
    by_cases hlt : n + i < w
    · simp [hlt]
    · simp [hlt, BitVec.getLsbD_of_ge c (n + i) (by omega)]
  calc steps p n c
      = steps p n (((c >>> n) <<< n) ^^^ (c.setWidth n).setWidth w) := by rw [← hsplit]
    _ = (c >>> n) ^^^ steps p n ((c.setWidth n).setWidth w) := by
        rw [steps_xor, steps_of_low_zero p hlow, hback]

theorem steps_succ (n : Nat) (c : BitVec w) : steps p (n + 1) c = steps p n (step p c) :=
  steps_add p n 1 c

/-! ## Nothing is forgotten -/

/-- A step can be undone: the highest bit says whether the polynomial was added. -/
theorem step_injective (hp : p.msb = true) : Function.Injective (step p) := by
  intro a b h
  have hmsb (c : BitVec w) : (step p c).msb = c.getLsbD 0 := by
    have hw : w ≠ 0 := by
      rintro rfl
      simp [BitVec.msb] at hp
    have hshift : (c >>> 1).msb = false := by simp
    rw [step, BitVec.msb_xor, hshift, Bool.false_xor]
    cases c.getLsbD 0 with
    | true => exact hp
    | false => exact BitVec.msb_zero
  have hlow : a.getLsbD 0 = b.getLsbD 0 := by rw [← hmsb a, ← hmsb b, h]
  have hrest : a >>> 1 = b >>> 1 := by
    rw [step, step, hlow] at h
    exact (BitVec.xor_left_inj _).mp h
  apply BitVec.eq_of_getLsbD_eq
  intro i hi
  cases i with
  | zero => exact hlow
  | succ i =>
      have hbit := congrArg (fun c => c.getLsbD i) hrest
      simpa [BitVec.getLsbD_ushiftRight, Nat.add_comm 1 i] using hbit

theorem steps_injective (hp : p.msb = true) (n : Nat) : Function.Injective (steps p n) :=
  (step_injective p hp).iterate n

/-! ## Bits -/

def feedBit (c : BitVec w) (bit : Bool) : BitVec w :=
  step p (c ^^^ (BitVec.ofBool bit).setWidth w)

/-- Several bits of data. -/
def feedBits (c : BitVec w) (bits : List Bool) : BitVec w :=
  bits.foldl (feedBit p) c

/-- Bits as a vector, the first one lowest. -/
def ofBits (w : Nat) : List Bool → BitVec w
  | [] => 0#w
  | bit :: bits => (ofBits w bits <<< 1) ^^^ (BitVec.ofBool bit).setWidth w

/-- The bits of a vector, the lowest one first. -/
def bitsOf {n : Nat} (b : BitVec n) : List Bool :=
  (List.range n).map b.getLsbD

theorem feedBits_append (c : BitVec w) (front back : List Bool) :
    feedBits p c (front ++ back) = feedBits p (feedBits p c front) back :=
  List.foldl_append

theorem getLsbD_ofBits (bits : List Bool) (i : Nat) :
    (ofBits w bits).getLsbD i = (decide (i < w) && bits.getD i false) := by
  induction bits generalizing i with
  | nil => simp [ofBits]
  | cons bit bits ih =>
      rw [ofBits, BitVec.getLsbD_xor, BitVec.getLsbD_shiftLeft, ih]
      cases i with
      | zero => cases bit <;> by_cases hw : 0 < w <;> simp [hw]
      | succ i =>
          by_cases hi : i + 1 < w
          · have hlt : i < w := Nat.lt_of_succ_lt hi
            simp [hi, hlt]
          · simp [hi]

/-- A shifted register whose highest bit is free comes back. -/
theorem step_shiftLeft {c : BitVec w} (hc : c.getLsbD (w - 1) = false) :
    step p (c <<< 1) = c := by
  have hone : steps p 1 (c <<< 1) = (c <<< 1) >>> 1 := by
    apply steps_of_low_zero
    intro i hi
    simp [hi]
  have hback : (c <<< 1) >>> 1 = c := by
    apply BitVec.eq_of_getLsbD_eq
    intro i hi
    rw [BitVec.getLsbD_ushiftRight, BitVec.getLsbD_shiftLeft]
    by_cases hlast : 1 + i < w
    · simp [hlast]
    · have hlastBit : i = w - 1 := by omega
      rw [hlastBit, hc]
      simp [hc]
  exact hone.trans hback

/-- As many bits as the register has may as well be taken in at once. -/
theorem feedBits_eq (c : BitVec w) {bits : List Bool} (h : bits.length ≤ w) :
    feedBits p c bits = steps p bits.length (c ^^^ ofBits w bits) := by
  induction bits generalizing c with
  | nil =>
      have hnone : c ^^^ ofBits w [] = c := BitVec.xor_zero
      rw [hnone]
      rfl
  | cons bit bits ih =>
      rw [List.length_cons] at h
      have hfree : (ofBits w bits).getLsbD (w - 1) = false := by
        rw [getLsbD_ofBits, List.getD_eq_default _ _ (by omega), Bool.and_false]
      have hsplit : step p (c ^^^ ofBits w (bit :: bits)) =
          feedBit p c bit ^^^ ofBits w bits := by
        rw [ofBits, BitVec.xor_comm (ofBits w bits <<< 1), ← BitVec.xor_assoc, step_xor,
          step_shiftLeft p hfree]
        rfl
      calc feedBits p c (bit :: bits)
          = feedBits p (feedBit p c bit) bits := rfl
        _ = steps p bits.length (feedBit p c bit ^^^ ofBits w bits) := ih _ (by omega)
        _ = steps p (bit :: bits).length (c ^^^ ofBits w (bit :: bits)) := by
            rw [List.length_cons, steps_succ, hsplit]

theorem length_bitsOf {n : Nat} (b : BitVec n) : (bitsOf b).length = n := by
  rw [bitsOf, List.length_map, List.length_range]

theorem ofBits_bitsOf {n : Nat} (b : BitVec n) : ofBits w (bitsOf b) = b.setWidth w := by
  apply BitVec.eq_of_getLsbD_eq
  intro i hi
  rw [getLsbD_ofBits, BitVec.getLsbD_setWidth, bitsOf, List.getD_eq_getElem?_getD,
    List.getElem?_map]
  by_cases hn : i < n
  · rw [List.getElem?_range hn]
    rfl
  · rw [List.getElem?_eq_none (by rw [List.length_range]; omega),
      BitVec.getLsbD_of_ge b i (by omega)]
    rfl

theorem feed_eq_feedBits (hw : 8 ≤ w) (c : BitVec w) (b : BitVec 8) :
    feed p c b = feedBits p c (bitsOf b) := by
  rw [feedBits_eq p c (by rwa [length_bitsOf]), length_bitsOf, ofBits_bitsOf]
  rfl

/-! ## Bursts -/

theorem ofBits_injective {bits bits' : List Bool} (hlength : bits.length = bits'.length)
    (hfits : bits.length ≤ w) (h : ofBits w bits = ofBits w bits') : bits = bits' := by
  apply List.ext_getElem? fun i => ?_
  by_cases hi : i < bits.length
  · have hbit := congrArg (fun c => c.getLsbD i) h
    rw [getLsbD_ofBits, getLsbD_ofBits, decide_eq_true (Nat.lt_of_lt_of_le hi hfits),
      Bool.true_and, Bool.true_and, List.getD_eq_getElem _ _ hi,
      List.getD_eq_getElem _ _ (hlength ▸ hi)] at hbit
    rw [List.getElem?_eq_getElem hi, List.getElem?_eq_getElem (hlength ▸ hi), hbit]
  · rw [List.getElem?_eq_none (Nat.le_of_not_lt hi),
      List.getElem?_eq_none (hlength ▸ Nat.le_of_not_lt hi)]

theorem feedBits_injective (hp : p.msb = true) (bits : List Bool) :
    Function.Injective fun c => feedBits p c bits := by
  induction bits with
  | nil => exact fun _ _ h => h
  | cons bit bits ih =>
      intro a b h
      exact (BitVec.xor_left_inj _).mp (step_injective p hp (ih h))

/-- Two texts that differ only in a burst, no longer than the register, are kept apart. -/
theorem feedBits_burst_ne (hp : p.msb = true) (c : BitVec w) (front back : List Bool)
    {burst burst' : List Bool} (hlength : burst.length = burst'.length)
    (hfits : burst.length ≤ w) (hne : burst ≠ burst') :
    feedBits p c (front ++ (burst ++ back)) ≠ feedBits p c (front ++ (burst' ++ back)) := by
  simp only [feedBits_append]
  intro h
  have hfits' : burst'.length ≤ w := hlength ▸ hfits
  have hburst := feedBits_injective p hp back h
  rw [feedBits_eq p _ hfits, feedBits_eq p _ hfits', hlength] at hburst
  have hbits := (BitVec.xor_right_inj _).mp (steps_injective p hp _ hburst)
  exact hne (ofBits_injective hlength hfits hbits)

end Baulk.Support.ReflectedCrc
