import Baulk.Support.Numeral
import Baulk.Tar.Format
import Mathlib.Tactic.LinearCombination

/-!
# Base-256 fields

A number field whose highest bit is set holds a two's complement number in its
other bits, the highest byte first.  The reader skips bytes that only extend the
sign until eight bytes are left.  How far a field is from bytes that all extend
the sign tells at once what it stands for and whether 64 bits are enough.
-/

namespace Baulk.Tar

open Support (numberOf numberOf_lt numberOf_cons numberOf_complement foldl_digits)

/-! ## Values -/

/-- The number that bytes stand for, the highest one first. -/
def bigEndian (p : Bytes) : Nat :=
  numberOf 256 (p.map UInt8.toNat)

/-- The two's complement number in all bits of a field but the highest. -/
def base256Value (p : Bytes) : Int :=
  (bigEndian p : Int).bmod (2 ^ (8 * p.length - 1))

/-- The 64-bit number that is nearest. -/
def clampInt64 (n : Int) : Int :=
  max int64Min (min n int64Max)

def signByte (negative : Bool) : UInt8 :=
  if negative then 0xFF else 0

/-- How far bytes are from bytes that all extend the sign. -/
def signDistance (negative : Bool) (p : Bytes) : Nat :=
  bigEndian (p.map (· ^^^ signByte negative))

/-- The number at a distance from the sign: from zero upwards, or from minus one
downwards. -/
def ofDistance (negative : Bool) (d : Nat) : Int :=
  if negative then -1 - d else d

theorem bigEndian_cons (c : UInt8) (p : Bytes) :
    bigEndian (c :: p) = c.toNat * 256 ^ p.length + bigEndian p := by
  unfold bigEndian
  rw [List.map_cons, numberOf_cons, List.length_map]

theorem bigEndian_lt (p : Bytes) : bigEndian p < 256 ^ p.length := by
  have hlt := @numberOf_lt 256 (p.map UInt8.toNat) ?_
  · rwa [List.length_map] at hlt
  · intro d hd
    obtain ⟨c, -, rfl⟩ := List.mem_map.mp hd
    exact c.toNat_lt

theorem signDistance_cons (negative : Bool) (c : UInt8) (p : Bytes) :
    signDistance negative (c :: p) =
      (c ^^^ signByte negative).toNat * 256 ^ p.length + signDistance negative p := by
  unfold signDistance
  rw [List.map_cons, bigEndian_cons, List.length_map]

theorem signDistance_lt (negative : Bool) (p : Bytes) :
    signDistance negative p < 256 ^ p.length := by
  have hlt := bigEndian_lt (p.map (· ^^^ signByte negative))
  rwa [List.length_map] at hlt

theorem signDistance_false (p : Bytes) : signDistance false p = bigEndian p := by
  have hmap : p.map (· ^^^ signByte false) = p := by
    have hzero : ∀ c : UInt8, c ^^^ signByte false = c := fun c => UInt8.xor_zero
    rw [List.map_congr_left fun c _ => hzero c, List.map_id']
  rw [signDistance, hmap]

theorem forall_byte {P : UInt8 → Prop} (h : ∀ n : Fin 256, P (UInt8.ofNat n))
    (c : UInt8) : P c := by
  have := h ⟨c.toNat, c.toNat_lt⟩
  rwa [UInt8.ofNat_toNat] at this

theorem toNat_xor_ff (c : UInt8) : (c ^^^ 0xFF).toNat = 256 - 1 - c.toNat :=
  forall_byte (P := fun c => (c ^^^ 0xFF).toNat = 256 - 1 - c.toNat)
    (by decide +kernel) c

theorem signDistance_true (p : Bytes) :
    signDistance true p + bigEndian p + 1 = 256 ^ p.length := by
  have hsum := @numberOf_complement 256 (p.map UInt8.toNat) ?_
  · rw [List.length_map, List.map_map] at hsum
    rw [← hsum]
    unfold signDistance bigEndian
    rw [List.map_map]
    congr 4
    funext c
    exact toNat_xor_ff c
  · intro d hd
    obtain ⟨c, -, rfl⟩ := List.mem_map.mp hd
    exact c.toNat_lt

/-! ## Skipping the sign -/

theorem skipSign_none {negative : Bool} {extra : Nat} {c : UInt8} {rest : Bytes}
    (hextra : extra ≤ rest.length)
    (h : skipSign (signByte negative) extra c rest = none) :
    256 ^ (rest.length + 1 - extra) ≤ signDistance negative (c :: rest) := by
  induction extra generalizing c rest with
  | zero => cases h
  | succ extra ih =>
      cases rest with
      | nil => exact absurd hextra (Nat.not_succ_le_zero extra)
      | cons b rest =>
          have hlen : (b :: rest).length + 1 - (extra + 1) = rest.length + 1 - extra := by
            rw [List.length_cons]
            omega
          rw [List.length_cons] at hextra
          rw [hlen, signDistance_cons]
          by_cases hc : c = signByte negative
          · rw [skipSign, if_neg (not_not.mpr hc), List.headD_cons, List.tail_cons] at h
            have hrest := ih (by omega) h
            omega
          · have hone : 1 ≤ (c ^^^ signByte negative).toNat := by
              by_contra hzero
              have hxor : c ^^^ signByte negative = 0 :=
                UInt8.toNat_inj.mp (by change _ = 0; omega)
              exact hc (UInt8.xor_eq_zero_iff.mp hxor)
            have hpow : 256 ^ (rest.length + 1 - extra) ≤ 256 ^ (b :: rest).length :=
              Nat.pow_le_pow_right (by omega) (by rw [List.length_cons]; omega)
            have hmul := Nat.mul_le_mul_right (256 ^ (b :: rest).length) hone
            omega

theorem skipSign_some {negative : Bool} {extra : Nat} {c c' : UInt8} {rest rest' : Bytes}
    (hextra : extra ≤ rest.length)
    (h : skipSign (signByte negative) extra c rest = some (c', rest')) :
    signDistance negative (c' :: rest') = signDistance negative (c :: rest) ∧
      rest'.length + extra = rest.length := by
  induction extra generalizing c rest with
  | zero =>
      cases h
      exact ⟨rfl, rfl⟩
  | succ extra ih =>
      cases rest with
      | nil => exact absurd hextra (Nat.not_succ_le_zero extra)
      | cons b rest =>
          rw [List.length_cons] at hextra
          rw [skipSign] at h
          by_cases hc : c = signByte negative
          · rw [if_neg (not_not.mpr hc), List.headD_cons, List.tail_cons] at h
            obtain ⟨hdistance, hlen⟩ := ih (by omega) h
            rw [hdistance, signDistance_cons negative c, hc, UInt8.xor_self,
              List.length_cons]
            refine ⟨?_, by omega⟩
            rw [show (0 : UInt8).toNat = 0 from rfl, Nat.zero_mul, Nat.zero_add]
          · rw [if_pos hc] at h
            cases h

/-! ## Accumulating -/

theorem toNat_shiftOr (l : UInt64) (b : UInt8) :
    ((l <<< 8) ||| b.toUInt64).toNat = (l.toNat * 256 + b.toNat) % 2 ^ 64 := by
  have hb : b.toNat < 2 ^ 8 := b.toNat_lt
  have hl : l.toNat < 2 ^ 64 := l.toNat_lt
  have hshift : (l.toNat <<< 8) % 2 ^ 64 = (l.toNat % 2 ^ 56) <<< 8 := by
    rw [Nat.shiftLeft_eq, Nat.shiftLeft_eq]
    omega
  rw [UInt64.toNat_or, UInt64.toNat_shiftLeft, UInt8.toNat_toUInt64]
  change (l.toNat <<< 8) % 2 ^ 64 ||| b.toNat = _
  rw [hshift, ← Nat.shiftLeft_add_eq_or_of_lt hb, Nat.shiftLeft_eq]
  omega

theorem toNat_accumulate (p : Bytes) (l : UInt64) :
    (p.foldl (fun (l : UInt64) b => (l <<< 8) ||| b.toUInt64) l).toNat =
      (l.toNat * 256 ^ p.length + bigEndian p) % 2 ^ 64 := by
  induction p generalizing l with
  | nil =>
      rw [List.foldl_nil, List.length_nil, Nat.pow_zero, Nat.mul_one]
      exact (Nat.mod_eq_of_lt l.toNat_lt).symm
  | cons b p ih =>
      rw [List.foldl_cons, ih, toNat_shiftOr, bigEndian_cons, List.length_cons,
        Nat.pow_succ, Nat.add_mod, Nat.mod_mul_mod, ← Nat.add_mod]
      congr 1
      ring

/-- Up to eight bytes that are near the sign are accumulated without overflow. -/
theorem toInt_accumulate {negative : Bool} {p : Bytes} (hlen : p.length ≤ 8)
    (h : signDistance negative p < 2 ^ 63) :
    (p.foldl (fun (l : UInt64) b => (l <<< 8) ||| b.toUInt64)
        (if negative then 0xFFFFFFFFFFFFFFFF else 0)).toInt64.toInt =
      ofDistance negative (signDistance negative p) := by
  have htoInt : ∀ l : UInt64, l.toInt64.toInt = (l.toNat : Int).bmod (2 ^ 64) :=
    fun l => BitVec.toInt_eq_toNat_bmod l.toBitVec
  rw [htoInt, toNat_accumulate, Int.bmod_eq_iff (by norm_num)]
  cases negative with
  | false =>
      rw [signDistance_false] at h ⊢
      simp only [ofDistance, Bool.false_eq_true, if_false, UInt64.toNat_zero]
      omega
  | true =>
      have hsum := signDistance_true p
      have hpow : 256 ^ p.length ∣ 2 ^ 64 := by
        rw [show (256 : Nat) = 2 ^ 8 from rfl, ← Nat.pow_mul]
        exact Nat.pow_dvd_pow 2 (by omega)
      simp only [ofDistance, if_true]
      change _ ∧ _ ∧ ((2 ^ 64 : Nat) : Int) ∣
        -1 - _ - (((2 ^ 64 - 1) * 256 ^ p.length + bigEndian p) % 2 ^ 64 : Nat)
      omega

/-! ## Fields -/

/-- The sign of a field is the second highest bit of its first byte. -/
def isNegative (c : UInt8) : Bool :=
  c &&& 0x40 != 0

/-- The first byte with the sign in its highest bit. -/
def extendFirst (c : UInt8) : UInt8 :=
  if isNegative c then c ||| 0x80 else c &&& 0x7F

theorem extendFirst_distance (c : UInt8) :
    (extendFirst c ^^^ signByte (isNegative c)).toNat =
        (if isNegative c then 127 - c.toNat % 128 else c.toNat % 128) ∧
      (isNegative c = true ↔ 64 ≤ c.toNat % 128) :=
  forall_byte (P := fun c => (extendFirst c ^^^ signByte (isNegative c)).toNat =
        (if isNegative c then 127 - c.toNat % 128 else c.toNat % 128) ∧
      (isNegative c = true ↔ 64 ≤ c.toNat % 128))
    (by decide +kernel) c

theorem toNat_and_80 (c : UInt8) : c &&& 0x80 ≠ 0 ↔ 128 ≤ c.toNat :=
  forall_byte (P := fun c => c &&& 0x80 ≠ 0 ↔ 128 ≤ c.toNat) (by decide +kernel) c

theorem signDistance_extendFirst_lt (c : UInt8) (p : Bytes) :
    signDistance (isNegative c) (extendFirst c :: p) < 64 * 256 ^ p.length := by
  obtain ⟨hfirst, hsign⟩ := extendFirst_distance c
  have hlt := signDistance_lt (isNegative c) p
  have hle : (extendFirst c ^^^ signByte (isNegative c)).toNat ≤ 63 := by
    rw [hfirst]
    split
    · next h => have := hsign.mp h; omega
    · next h =>
      have : ¬ 64 ≤ c.toNat % 128 := fun hc => h (hsign.mpr hc)
      omega
  have hmul := Nat.mul_le_mul_right (256 ^ p.length) hle
  rw [signDistance_cons]
  omega

/-- A field stands for the number at its distance from its sign. -/
theorem base256Value_cons (c : UInt8) (p : Bytes) :
    base256Value (c :: p) =
      ofDistance (isNegative c) (signDistance (isNegative c) (extendFirst c :: p)) := by
  obtain ⟨hfirst, hsign⟩ := extendFirst_distance c
  have hlt := signDistance_extendFirst_lt c p
  have hwidth : 2 ^ (8 * (c :: p).length - 1) = 128 * 256 ^ p.length := by
    rw [List.length_cons, show 8 * (p.length + 1) - 1 = 7 + 8 * p.length by omega,
      Nat.pow_add, Nat.pow_mul]
  have hsplit : c.toNat * 256 ^ p.length =
      c.toNat / 128 * (128 * 256 ^ p.length) + c.toNat % 128 * 256 ^ p.length := by
    conv_lhs => rw [← Nat.div_add_mod c.toNat 128]
    ring
  have hpos : 0 < 256 ^ p.length := Nat.pow_pos (by omega)
  rw [base256Value, hwidth, bigEndian_cons, hsplit,
    Int.bmod_eq_iff (by omega)]
  rw [signDistance_cons, hfirst] at hlt ⊢
  cases hneg : isNegative c with
  | false =>
      rw [hneg] at hlt
      simp only [Bool.false_eq_true, if_false, ofDistance, signDistance_false] at hlt ⊢
      refine ⟨by omega, by omega, ?_⟩
      refine ⟨-(c.toNat / 128 : Nat), ?_⟩
      push_cast
      ring
  | true =>
      rw [hneg] at hlt
      have hsum := signDistance_true p
      simp only [if_true, ofDistance] at hlt ⊢
      refine ⟨by omega, by omega, ?_⟩
      refine ⟨-(c.toNat / 128 : Nat) - 1, ?_⟩
      have hcast : ((127 - c.toNat % 128 : Nat) : Int) = 127 - (c.toNat % 128 : Nat) := by
        omega
      have hsum' : (signDistance true p : Int) + bigEndian p + 1 = 256 ^ p.length := by
        exact_mod_cast hsum
      push_cast
      push_cast at hcast
      rw [hcast]
      linear_combination -hsum'

theorem clampInt64_ofDistance_of_lt {negative : Bool} {d : Nat} (h : d < 2 ^ 63) :
    clampInt64 (ofDistance negative d) = ofDistance negative d := by
  unfold clampInt64 ofDistance int64Min int64Max
  split <;> omega

theorem clampInt64_ofDistance_of_le {negative : Bool} {d : Nat} (h : 2 ^ 63 ≤ d) :
    clampInt64 (ofDistance negative d) =
      if negative then int64Min else int64Max := by
  unfold clampInt64 ofDistance int64Min int64Max
  split <;> omega

/-- The part of `parseNumeric256` behind the skipped bytes. -/
theorem parseNumeric256_cons (c : UInt8) (p : Bytes) :
    parseNumeric256 (c :: p) =
      (skipSign (signByte (isNegative c)) ((c :: p).length - 8) (extendFirst c) p).elim
        (if isNegative c then int64Min else int64Max)
        fun next =>
          if (next.1 ^^^ signByte (isNegative c)) &&& 0x80 ≠ 0 then
            if isNegative c then int64Min else int64Max
          else
            ((next.1 :: next.2).foldl (fun (l : UInt64) b => (l <<< 8) ||| b.toUInt64)
              (if isNegative c then 0xFFFFFFFFFFFFFFFF else 0)).toInt64.toInt := by
  unfold parseNumeric256 extendFirst isNegative signByte
  dsimp only [List.headD_cons, List.tail_cons]
  cases skipSign _ _ _ p with
  | none => rfl
  | some next => rfl

/-- `parseNumeric256` reads the number of a field, or the nearest 64-bit number. -/
theorem parseNumeric256_eq {p : Bytes} (h : 1 ≤ p.length) :
    parseNumeric256 p = clampInt64 (base256Value p) := by
  cases p with
  | nil => exact absurd h (Nat.not_succ_le_zero 0)
  | cons c p =>
      have hdistance := signDistance_extendFirst_lt c p
      have hextra : (c :: p).length - 8 ≤ p.length := by
        rw [List.length_cons]
        omega
      rw [base256Value_cons, parseNumeric256_cons]
      cases hskip : skipSign (signByte (isNegative c)) ((c :: p).length - 8)
          (extendFirst c) p with
      | none =>
          have hfar := skipSign_none hextra hskip
          have hlong : 8 < (c :: p).length := by
            by_contra hshort
            rw [Nat.sub_eq_zero_of_le (by omega)] at hskip
            cases hskip
          have height : p.length + 1 - ((c :: p).length - 8) = 8 := by
            rw [List.length_cons] at hlong ⊢
            omega
          rw [height] at hfar
          exact (clampInt64_ofDistance_of_le (by omega)).symm
      | some next =>
          obtain ⟨c', rest⟩ := next
          obtain ⟨hsame, hlen⟩ := skipSign_some hextra hskip
          rw [← hsame] at hdistance ⊢
          have hlt := signDistance_lt (isNegative c) rest
          have hfit : (c' :: rest).length ≤ 8 := by
            rw [List.length_cons] at hlen ⊢
            omega
          rw [signDistance_cons] at hdistance
          by_cases hsign : (c' ^^^ signByte (isNegative c)) &&& 0x80 ≠ 0
          · -- The byte has the other sign, so there are at least eight of them.
            have hhigh := (toNat_and_80 _).mp hsign
            have hmul := Nat.mul_le_mul_right (256 ^ rest.length) hhigh
            have height : rest.length = 7 := by
              by_contra hne
              have heq : rest.length = p.length := by
                rw [List.length_cons] at hlen hfit
                omega
              rw [← heq] at hdistance
              omega
            have hfar : 2 ^ 63 ≤ signDistance (isNegative c) (c' :: rest) := by
              rw [height, show 128 * 256 ^ 7 = 2 ^ 63 by norm_num] at hmul
              rw [signDistance_cons, height]
              exact hmul.trans (Nat.le_add_right _ _)
            rw [clampInt64_ofDistance_of_le hfar]
            exact if_pos hsign
          · have hlow : (c' ^^^ signByte (isNegative c)).toNat ≤ 127 := by
              by_contra hhigh
              exact hsign ((toNat_and_80 _).mpr (by omega))
            have hmul := Nat.mul_le_mul_right (256 ^ rest.length) hlow
            have hpow : 256 ^ rest.length ≤ 256 ^ 7 :=
              Nat.pow_le_pow_right (by omega) (by rw [List.length_cons] at hfit; omega)
            have hnear : signDistance (isNegative c) (c' :: rest) < 2 ^ 63 := by
              rw [signDistance_cons]
              omega
            rw [clampInt64_ofDistance_of_lt hnear, ← toInt_accumulate hfit hnear]
            exact if_neg hsign

/-- Nine bytes that say `2 ^ 63` are one too many. -/
theorem parseNumeric256_overflow :
    parseNumeric256 [0x80, 0x80, 0, 0, 0, 0, 0, 0, 0] = int64Max ∧
      parseNumeric256 [0xFF] = -1 :=
  ⟨(parseNumeric256_eq (by decide)).trans (by decide),
    (parseNumeric256_eq (by decide)).trans (by decide)⟩

end Baulk.Tar
