import Baulk.Core.Wide

/-!
# Conversions between UTF-8 and UTF-16

`bela::encode_into` in both directions.  Neither checks much of its input: from
UTF-16 a lone high surrogate ends the text and a lone low one is encoded like
any other character, and from UTF-8 the bytes that follow the first one of a
sequence are not looked at.
-/

namespace Baulk

/-! ## To UTF-8 -/

/-- One byte of a sequence: its tag and some bits of the character. -/
def tagByte (tag : UInt8) (bits : UInt32) : UInt8 :=
  tag ||| bits.toUInt8

/-- The bytes of one character. -/
def encodeRune (rune : UInt32) : Bytes :=
  if rune ≤ 0x7F then [rune.toUInt8]
  else if rune ≤ 0x7FF then
    [tagByte 0xC0 ((rune >>> 6) &&& 0x1F),
      tagByte 0x80 (rune &&& 0x3F)]
  else if rune ≤ 0xFFFF then
    [tagByte 0xE0 ((rune >>> 12) &&& 0x0F),
      tagByte 0x80 ((rune >>> 6) &&& 0x3F),
      tagByte 0x80 (rune &&& 0x3F)]
  else
    [tagByte 0xF0 ((rune >>> 18) &&& 0x07),
      tagByte 0x80 ((rune >>> 12) &&& 0x3F),
      tagByte 0x80 ((rune >>> 6) &&& 0x3F),
      tagByte 0x80 (rune &&& 0x3F)]

/-- The character of a pair of surrogates. -/
def surrogateRune (high low : WChar) : UInt32 :=
  ((high.toUInt32 - 0xD800) <<< 10) + (low.toUInt32 - 0xDC00) + 0x10000

/-- `encode_into<wchar_t, char>`. -/
def encodeUtf8 : WString → Bytes
  | [] => []
  | [c] => if 0xD800 ≤ c ∧ c ≤ 0xDBFF then [] else encodeRune c.toUInt32
  | c :: d :: rest =>
      if 0xD800 ≤ c ∧ c ≤ 0xDBFF then
        if d < 0xDC00 ∨ 0xDFFF < d then []
        else encodeRune (surrogateRune c d) ++ encodeUtf8 rest
      else encodeRune c.toUInt32 ++ encodeUtf8 (d :: rest)

/-! ## To UTF-16 -/

/-- `trailing_bytes_from_utf8`. -/
def trailingBytes (b : UInt8) : Nat :=
  if b < 0xC0 then 0
  else if b < 0xE0 then 1
  else if b < 0xF0 then 2
  else if b < 0xF8 then 3
  else if b < 0xFC then 4
  else 5

def offsetFromUtf8 : Nat → UInt32
  | 0 => 0
  | 1 => 0x00003080
  | 2 => 0x000E2080
  | 3 => 0x03C82080
  | 4 => 0xFA082080
  | _ => 0x82082080

def decodeRune (bytes : Bytes) : UInt32 :=
  bytes.foldl (fun (ch : UInt32) b => (ch <<< 6) + b.toUInt32) 0 -
    offsetFromUtf8 (bytes.length - 1)

def encodeUnits (rune : UInt32) : WString :=
  if rune ≤ 0xFFFF then
    if 0xD800 ≤ rune ∧ rune ≤ 0xDBFF then [0xFFFD] else [rune.toUInt16]
  else if 0x10FFFF < rune then [0xFFFD]
  else
    [(((rune - 0x10000) >>> 10) + 0xD800).toUInt16,
      (((rune - 0x10000) &&& 0x3FF) + 0xDC00).toUInt16]

/-- The loop of `encode_into<char, wchar_t>`; every pass takes at least one
byte. -/
def encodeUtf16Loop : Nat → Bytes → WString
  | 0, _ => []
  | _, [] => []
  | passes + 1, b :: bytes =>
      let n := trailingBytes b
      if bytes.length < n then []
      else
        encodeUnits (decodeRune (b :: bytes.take n)) ++
          encodeUtf16Loop passes (bytes.drop n)

/-- `encode_into<char, wchar_t>`. -/
def encodeUtf16 (bytes : Bytes) : WString :=
  encodeUtf16Loop bytes.length bytes

example : encodeUtf8 [0x61, 0xE9, 0x20AC, 0xD83D, 0xDE00] =
    [0x61, 0xC3, 0xA9, 0xE2, 0x82, 0xAC, 0xF0, 0x9F, 0x98, 0x80] ∧
      encodeUtf16 [0x61, 0xC3, 0xA9, 0xE2, 0x82, 0xAC, 0xF0, 0x9F, 0x98,
        0x80] = [0x61, 0xE9, 0x20AC, 0xD83D, 0xDE00] := by
  decide

/-! ## One character -/

theorem toNat_tagByte {tag : UInt8} {bits : UInt32} {i a : Nat}
    (htag : tag.toNat = 2 ^ i * a) (hi : i ≤ 8) (hbits : bits.toNat < 2 ^ i) :
    (tagByte tag bits).toNat = tag.toNat + bits.toNat := by
  have hpow : 2 ^ i ≤ 2 ^ 8 := Nat.pow_le_pow_right (by decide) hi
  rw [tagByte, UInt8.toNat_or, UInt32.toNat_toUInt8,
    Nat.mod_eq_of_lt (Nat.lt_of_lt_of_le hbits hpow), htag,
    Nat.two_pow_add_eq_or_of_lt hbits]

theorem toNat_bits (rune shift mask : UInt32) {i : Nat}
    (hmask : mask.toNat = 2 ^ i - 1) (hshift : shift.toNat < 32) :
    ((rune >>> shift) &&& mask).toNat =
      rune.toNat / 2 ^ shift.toNat % 2 ^ i := by
  rw [UInt32.toNat_and, hmask, Nat.and_two_pow_sub_one_eq_mod,
    UInt32.toNat_shiftRight, Nat.mod_eq_of_lt hshift, Nat.shiftRight_eq_div_pow]

/-- The byte that carries the bits of a character from `shift` on. -/
theorem toNat_tagByte_bits {tag : UInt8} (rune shift mask : UInt32) {i a : Nat}
    (htag : tag.toNat = 2 ^ i * a) (hi : i ≤ 8)
    (hmask : mask.toNat = 2 ^ i - 1) (hshift : shift.toNat < 32) :
    (tagByte tag ((rune >>> shift) &&& mask)).toNat =
      tag.toNat + rune.toNat / 2 ^ shift.toNat % 2 ^ i := by
  have hbits := toNat_bits rune shift mask hmask hshift
  have hlt : ((rune >>> shift) &&& mask).toNat < 2 ^ i := by
    rw [hbits]
    exact Nat.mod_lt _ (Nat.two_pow_pos i)
  rw [toNat_tagByte htag hi hlt, hbits]

/-- One step of `decode_rune`. -/
theorem toNat_shift_add (ch : UInt32) (b : UInt8)
    (h : ch.toNat * 64 + 255 < 2 ^ 32) :
    ((ch <<< 6) + b.toUInt32).toNat = ch.toNat * 64 + b.toNat := by
  have hb := b.toNat_lt
  have hshift : (ch <<< 6).toNat = ch.toNat * 64 := by
    rw [UInt32.toNat_shiftLeft]
    change (ch.toNat <<< 6) % 2 ^ 32 = _
    rw [Nat.shiftLeft_eq]
    omega
  rw [UInt32.toNat_add, hshift, UInt8.toNat_toUInt32]
  omega

theorem toNat_foldl_shift_add {bytes : Bytes} {ch : UInt32}
    (h : (ch.toNat + 5) * 64 ^ bytes.length ≤ 2 ^ 32) :
    (bytes.foldl (fun (ch : UInt32) b => (ch <<< 6) + b.toUInt32) ch).toNat =
      bytes.foldl (fun n b => n * 64 + b.toNat) ch.toNat := by
  induction bytes generalizing ch with
  | nil => rfl
  | cons b bytes ih =>
      have hb := b.toNat_lt
      rw [List.length_cons, Nat.pow_succ'] at h
      have hpow : 0 < 64 ^ bytes.length := Nat.pow_pos (by decide)
      have hroom : (ch.toNat + 5) * 64 ≤ 2 ^ 32 :=
        calc (ch.toNat + 5) * 64
            ≤ (ch.toNat + 5) * (64 * 64 ^ bytes.length) :=
              Nat.mul_le_mul_left _ (Nat.le_mul_of_pos_right _ hpow)
          _ ≤ 2 ^ 32 := h
      have hstep := toNat_shift_add ch b (by omega)
      rw [List.foldl_cons, List.foldl_cons, ih, hstep]
      rw [hstep]
      calc (ch.toNat * 64 + b.toNat + 5) * 64 ^ bytes.length
          ≤ ((ch.toNat + 5) * 64) * 64 ^ bytes.length :=
            Nat.mul_le_mul_right _ (by omega)
        _ = (ch.toNat + 5) * (64 * 64 ^ bytes.length) := Nat.mul_assoc ..
        _ ≤ 2 ^ 32 := h

theorem toNat_decodeRune {bytes : Bytes} (hlength : bytes.length ≤ 4) :
    (decodeRune bytes).toNat =
      (2 ^ 32 - (offsetFromUtf8 (bytes.length - 1)).toNat +
        bytes.foldl (fun n b => n * 64 + b.toNat) 0) % 2 ^ 32 := by
  have hroom : ((0 : UInt32).toNat + 5) * 64 ^ bytes.length ≤ 2 ^ 32 :=
    calc ((0 : UInt32).toNat + 5) * 64 ^ bytes.length
        ≤ 5 * 64 ^ 4 := Nat.mul_le_mul_left _
          (Nat.pow_le_pow_right (by decide) hlength)
      _ ≤ 2 ^ 32 := by decide
  rw [decodeRune, UInt32.toNat_sub, toNat_foldl_shift_add hroom]
  rfl

/-- The byte that carries the last six bits of a character. -/
theorem toNat_tagByte_low (rune : UInt32) :
    (tagByte 0x80 (rune &&& 0x3F)).toNat = 0x80 + rune.toNat % 64 := by
  have hbits : (rune &&& 0x3F).toNat = rune.toNat % 64 := by
    rw [UInt32.toNat_and]
    exact Nat.and_two_pow_sub_one_eq_mod rune.toNat 6
  rw [toNat_tagByte (i := 6) (a := 2) rfl (by decide) (by omega), hbits]
  rfl

theorem trailingBytes_eq (b : UInt8) : trailingBytes b =
    if b.toNat < 0xC0 then 0 else if b.toNat < 0xE0 then 1
    else if b.toNat < 0xF0 then 2 else if b.toNat < 0xF8 then 3
    else if b.toNat < 0xFC then 4 else 5 := by
  simp only [trailingBytes, UInt8.lt_iff_toNat_lt]
  rfl

/-- The bytes of a character are those that a decoder takes for it, and they
give the character again. -/
theorem encodeRune_cases {rune : UInt32} (h : rune.toNat ≤ 0x10FFFF) :
    ∃ b bytes, encodeRune rune = b :: bytes ∧
      trailingBytes b = bytes.length ∧ decodeRune (b :: bytes) = rune := by
  have hlow := toNat_tagByte_low rune
  unfold encodeRune
  simp only [UInt32.le_iff_toNat_le]
  split
  · rename_i hone
    have hone : rune.toNat ≤ 127 := hone
    have hbyte : rune.toUInt8.toNat = rune.toNat := by
      rw [UInt32.toNat_toUInt8]
      omega
    refine ⟨_, _, rfl, ?_, ?_⟩
    · rw [trailingBytes_eq, if_pos (by omega)]
      rfl
    · rw [← UInt32.toNat_inj, toNat_decodeRune (by simp)]
      simp only [List.foldl_cons, List.foldl_nil, hbyte]
      change (2 ^ 32 - 0 + _) % 2 ^ 32 = _
      omega
  split
  · rename_i hone htwo
    have hone : ¬ rune.toNat ≤ 127 := hone
    have htwo : rune.toNat ≤ 2047 := htwo
    have hfirst : (tagByte 0xC0 ((rune >>> 6) &&& 0x1F)).toNat =
        192 + rune.toNat / 64 % 32 :=
      toNat_tagByte_bits rune 6 0x1F (i := 5) (a := 6) rfl (by decide) rfl
        (by decide)
    refine ⟨_, _, rfl, ?_, ?_⟩
    · rw [trailingBytes_eq, if_neg (by omega), if_pos (by omega)]
      rfl
    · rw [← UInt32.toNat_inj, toNat_decodeRune (by simp)]
      simp only [List.foldl_cons, List.foldl_nil, hfirst, hlow]
      change (2 ^ 32 - 0x3080 + _) % 2 ^ 32 = _
      omega
  split
  · rename_i hone htwo hthree
    have htwo : ¬ rune.toNat ≤ 2047 := htwo
    have hthree : rune.toNat ≤ 65535 := hthree
    have hfirst : (tagByte 0xE0 ((rune >>> 12) &&& 0x0F)).toNat =
        224 + rune.toNat / 4096 % 16 :=
      toNat_tagByte_bits rune 12 0x0F (i := 4) (a := 14) rfl (by decide) rfl
        (by decide)
    have hmiddle : (tagByte 0x80 ((rune >>> 6) &&& 0x3F)).toNat =
        128 + rune.toNat / 64 % 64 :=
      toNat_tagByte_bits rune 6 0x3F (i := 6) (a := 2) rfl (by decide) rfl
        (by decide)
    refine ⟨_, _, rfl, ?_, ?_⟩
    · rw [trailingBytes_eq, if_neg (by omega), if_neg (by omega),
        if_pos (by omega)]
      rfl
    · rw [← UInt32.toNat_inj, toNat_decodeRune (by simp)]
      simp only [List.foldl_cons, List.foldl_nil, hfirst, hmiddle, hlow]
      change (2 ^ 32 - 0xE2080 + _) % 2 ^ 32 = _
      omega
  · rename_i hone htwo hthree
    have hthree : ¬ rune.toNat ≤ 65535 := hthree
    have hfirst : (tagByte 0xF0 ((rune >>> 18) &&& 0x07)).toNat =
        240 + rune.toNat / 262144 % 8 :=
      toNat_tagByte_bits rune 18 0x07 (i := 3) (a := 30) rfl (by decide) rfl
        (by decide)
    have hsecond : (tagByte 0x80 ((rune >>> 12) &&& 0x3F)).toNat =
        128 + rune.toNat / 4096 % 64 :=
      toNat_tagByte_bits rune 12 0x3F (i := 6) (a := 2) rfl (by decide) rfl
        (by decide)
    have hthird : (tagByte 0x80 ((rune >>> 6) &&& 0x3F)).toNat =
        128 + rune.toNat / 64 % 64 :=
      toNat_tagByte_bits rune 6 0x3F (i := 6) (a := 2) rfl (by decide) rfl
        (by decide)
    refine ⟨_, _, rfl, ?_, ?_⟩
    · rw [trailingBytes_eq, if_neg (by omega), if_neg (by omega),
        if_neg (by omega), if_pos (by omega)]
      rfl
    · rw [← UInt32.toNat_inj, toNat_decodeRune (by simp)]
      simp only [List.foldl_cons, List.foldl_nil, hfirst, hsecond, hthird, hlow]
      change (2 ^ 32 - 0x03C82080 + _) % 2 ^ 32 = _
      omega

/-! ## Texts -/

theorem encodeUtf16Loop_congr {passes passes' : Nat} {bytes : Bytes}
    (h : bytes.length ≤ passes) (h' : bytes.length ≤ passes') :
    encodeUtf16Loop passes bytes = encodeUtf16Loop passes' bytes := by
  induction passes generalizing passes' bytes with
  | zero =>
      cases List.eq_nil_of_length_eq_zero (Nat.le_zero.mp h)
      cases passes' <;> rfl
  | succ passes ih =>
      cases bytes with
      | nil => cases passes' <;> rfl
      | cons b bytes =>
          rw [List.length_cons] at h h'
          obtain ⟨passes', rfl⟩ := Nat.exists_eq_add_one_of_ne_zero
            (show passes' ≠ 0 by omega)
          simp only [encodeUtf16Loop]
          split
          · rfl
          · have hdrop : (bytes.drop (trailingBytes b)).length ≤
                bytes.length := by
              rw [List.length_drop]
              exact Nat.sub_le _ _
            have hrest : (bytes.drop (trailingBytes b)).length ≤ passes' := by
              omega
            rw [ih (by omega) hrest]

theorem encodeUtf16_encodeRune {rune : UInt32} (h : rune.toNat ≤ 0x10FFFF)
    (rest : Bytes) :
    encodeUtf16 (encodeRune rune ++ rest) =
      encodeUnits rune ++ encodeUtf16 rest := by
  obtain ⟨b, bytes, hencode, htrailing, hdecode⟩ := encodeRune_cases h
  rw [hencode, List.cons_append, encodeUtf16, List.length_cons,
    encodeUtf16Loop, htrailing, if_neg (by simp), List.take_left, hdecode,
    List.drop_left]
  congr 1
  exact encodeUtf16Loop_congr (by simp) le_rfl

/-- The first of two surrogates. -/
def isHighSurrogate (c : WChar) : Bool :=
  0xD800 ≤ c && c ≤ 0xDBFF

def isLowSurrogate (c : WChar) : Bool :=
  0xDC00 ≤ c && c ≤ 0xDFFF

/-- A text up to the first high surrogate that no low one follows. -/
def pairedPart : WString → WString
  | [] => []
  | [c] => if isHighSurrogate c then [] else [c]
  | c :: d :: rest =>
      if isHighSurrogate c then
        if isLowSurrogate d then c :: d :: pairedPart rest else []
      else c :: pairedPart (d :: rest)

theorem encodeUnits_single {c : WChar} (h : ¬ (0xD800 ≤ c ∧ c ≤ 0xDBFF)) :
    encodeUnits c.toUInt32 = [c] := by
  have hc := c.toNat_lt
  rw [UInt16.le_iff_toNat_le, UInt16.le_iff_toNat_le] at h
  have h : ¬ (55296 ≤ c.toNat ∧ c.toNat ≤ 56319) := h
  have hle : c.toUInt32 ≤ 0xFFFF := by
    rw [UInt32.le_iff_toNat_le, UInt16.toNat_toUInt32]
    change c.toNat ≤ 65535
    omega
  have hsurrogate : ¬ (0xD800 ≤ c.toUInt32 ∧ c.toUInt32 ≤ 0xDBFF) := by
    rw [UInt32.le_iff_toNat_le, UInt32.le_iff_toNat_le, UInt16.toNat_toUInt32]
    exact h
  rw [encodeUnits, if_pos hle, if_neg hsurrogate]
  simp

theorem isHighSurrogate_iff {c : WChar} :
    isHighSurrogate c = true ↔ 0xD800 ≤ c.toNat ∧ c.toNat ≤ 0xDBFF := by
  simp only [isHighSurrogate, Bool.and_eq_true, decide_eq_true_eq,
    UInt16.le_iff_toNat_le]
  rfl

theorem isLowSurrogate_iff {c : WChar} :
    isLowSurrogate c = true ↔ 0xDC00 ≤ c.toNat ∧ c.toNat ≤ 0xDFFF := by
  simp only [isLowSurrogate, Bool.and_eq_true, decide_eq_true_eq,
    UInt16.le_iff_toNat_le]
  rfl

theorem surrogateRune_toNat {c d : WChar} (hc : isHighSurrogate c = true)
    (hd : isLowSurrogate d = true) :
    (surrogateRune c d).toNat =
      (c.toNat - 0xD800) * 1024 + (d.toNat - 0xDC00) + 0x10000 := by
  rw [isHighSurrogate_iff] at hc
  rw [isLowSurrogate_iff] at hd
  have hhigh : (c.toUInt32 - 0xD800).toNat = c.toNat - 0xD800 := by
    rw [UInt32.toNat_sub, UInt16.toNat_toUInt32]
    change (2 ^ 32 - 0xD800 + c.toNat) % 2 ^ 32 = _
    omega
  have hlow : (d.toUInt32 - 0xDC00).toNat = d.toNat - 0xDC00 := by
    rw [UInt32.toNat_sub, UInt16.toNat_toUInt32]
    change (2 ^ 32 - 0xDC00 + d.toNat) % 2 ^ 32 = _
    omega
  have hshift : ((c.toUInt32 - 0xD800) <<< 10).toNat =
      (c.toNat - 0xD800) * 1024 := by
    rw [UInt32.toNat_shiftLeft, hhigh]
    change ((c.toNat - 0xD800) <<< 10) % 2 ^ 32 = _
    rw [Nat.shiftLeft_eq]
    omega
  rw [surrogateRune, UInt32.toNat_add, UInt32.toNat_add, hshift, hlow]
  change (_ % 2 ^ 32 + 0x10000) % 2 ^ 32 = _
  omega

theorem encodeUnits_pair {c d : WChar} (hc : isHighSurrogate c = true)
    (hd : isLowSurrogate d = true) :
    encodeUnits (surrogateRune c d) = [c, d] := by
  have hrune := surrogateRune_toNat hc hd
  rw [isHighSurrogate_iff] at hc
  rw [isLowSurrogate_iff] at hd
  generalize surrogateRune c d = rune at hrune
  have hlarge : ¬ rune ≤ 0xFFFF := by
    rw [UInt32.le_iff_toNat_le]
    change ¬ rune.toNat ≤ 0xFFFF
    omega
  have hsmall : ¬ 0x10FFFF < rune := by
    rw [UInt32.lt_iff_toNat_lt]
    change ¬ 0x10FFFF < rune.toNat
    omega
  have hoffset : (rune - 0x10000).toNat =
      (c.toNat - 0xD800) * 1024 + (d.toNat - 0xDC00) := by
    rw [UInt32.toNat_sub]
    change (2 ^ 32 - 0x10000 + rune.toNat) % 2 ^ 32 = _
    omega
  have hhigh : ((rune - 0x10000) >>> 10).toNat = c.toNat - 0xD800 := by
    rw [UInt32.toNat_shiftRight, hoffset]
    change (_ >>> 10) = _
    rw [Nat.shiftRight_eq_div_pow]
    omega
  have hlow : ((rune - 0x10000) &&& 0x3FF).toNat = d.toNat - 0xDC00 := by
    rw [UInt32.toNat_and, hoffset]
    change (_ &&& (2 ^ 10 - 1)) = _
    rw [Nat.and_two_pow_sub_one_eq_mod]
    omega
  have hfirst : (((rune - 0x10000) >>> 10) + 0xD800).toUInt16 = c := by
    rw [← UInt16.toNat_inj, UInt32.toNat_toUInt16, UInt32.toNat_add, hhigh]
    change (_ + 0xD800) % 2 ^ 32 % 2 ^ 16 = _
    omega
  have hsecond : (((rune - 0x10000) &&& 0x3FF) + 0xDC00).toUInt16 = d := by
    rw [← UInt16.toNat_inj, UInt32.toNat_toUInt16, UInt32.toNat_add, hlow]
    change (_ + 0xDC00) % 2 ^ 32 % 2 ^ 16 = _
    omega
  rw [encodeUnits, if_neg hlarge, if_neg hsmall, hfirst, hsecond]

/-- A text comes back up to its first high surrogate that stands alone. -/
theorem encodeUtf16_encodeUtf8 (s : WString) :
    encodeUtf16 (encodeUtf8 s) = pairedPart s := by
  have hhigh : ∀ c : WChar, (0xD800 ≤ c ∧ c ≤ 0xDBFF) ↔
      isHighSurrogate c = true := fun c => by simp [isHighSurrogate]
  have hsingle : ∀ c : WChar, ¬ isHighSurrogate c = true → ∀ rest,
      encodeUtf16 (encodeRune c.toUInt32 ++ rest) = c :: encodeUtf16 rest := by
    intro c hc rest
    have hlt := c.toNat_lt
    rw [encodeUtf16_encodeRune (by rw [UInt16.toNat_toUInt32]; omega),
      encodeUnits_single (fun h => hc ((hhigh c).mp h))]
    rfl
  induction s using pairedPart.induct with
  | case1 => rfl
  | case2 c hc =>
      rw [encodeUtf8, pairedPart, if_pos hc, if_pos ((hhigh c).mpr hc)]
      rfl
  | case3 c hc =>
      rw [encodeUtf8, pairedPart, if_neg hc, if_neg fun h => hc ((hhigh c).mp h)]
      have h := hsingle c hc []
      rwa [List.append_nil] at h
  | case4 c d rest hc hd ih =>
      have hlow : ¬ (d < 0xDC00 ∨ 0xDFFF < d) := by
        rw [isLowSurrogate_iff] at hd
        rw [UInt16.lt_iff_toNat_lt, UInt16.lt_iff_toNat_lt]
        change ¬ (d.toNat < 0xDC00 ∨ 0xDFFF < d.toNat)
        omega
      have hrune := surrogateRune_toNat hc hd
      have hc' := isHighSurrogate_iff.mp hc
      have hd' := isLowSurrogate_iff.mp hd
      rw [encodeUtf8, if_pos ((hhigh c).mpr hc), if_neg hlow,
        encodeUtf16_encodeRune (by omega), encodeUnits_pair hc hd, ih,
        pairedPart, if_pos hc, if_pos hd]
      rfl
  | case5 c d rest hc hd =>
      have hlow : d < 0xDC00 ∨ 0xDFFF < d := by
        rw [isLowSurrogate_iff] at hd
        rw [UInt16.lt_iff_toNat_lt, UInt16.lt_iff_toNat_lt]
        change d.toNat < 0xDC00 ∨ 0xDFFF < d.toNat
        omega
      rw [encodeUtf8, if_pos ((hhigh c).mpr hc), if_pos hlow, pairedPart,
        if_pos hc, if_neg hd]
      rfl
  | case6 c d rest hc ih =>
      rw [encodeUtf8, if_neg fun h => hc ((hhigh c).mp h), hsingle c hc, ih,
        pairedPart, if_neg hc]

/-- Every high surrogate is followed by a low one. -/
def Paired (s : WString) : Prop :=
  pairedPart s = s

instance (s : WString) : Decidable (Paired s) :=
  inferInstanceAs (Decidable (pairedPart s = s))

theorem Paired.decode {s : WString} (h : Paired s) :
    encodeUtf16 (encodeUtf8 s) = s := by
  rw [encodeUtf16_encodeUtf8, h]

theorem pairedPart_cases (s : WString) :
    Paired s ∨ ∃ c rest, isHighSurrogate c = true ∧
      s = pairedPart s ++ c :: rest := by
  induction s using pairedPart.induct with
  | case1 => exact .inl rfl
  | case2 c hc =>
      refine .inr ⟨c, [], hc, ?_⟩
      rw [pairedPart, if_pos hc]
      rfl
  | case3 c hc =>
      left
      rw [Paired, pairedPart, if_neg hc]
  | case4 c d rest hc hd ih =>
      have hpart : pairedPart (c :: d :: rest) =
          c :: d :: pairedPart rest := by
        rw [pairedPart, if_pos hc, if_pos hd]
      rcases ih with hpaired | ⟨e, rest', he, hrest⟩
      · left
        rw [Paired, hpart, hpaired]
      · refine .inr ⟨e, rest', he, ?_⟩
        rw [hpart, List.cons_append, List.cons_append, ← hrest]
  | case5 c d rest hc hd =>
      refine .inr ⟨c, d :: rest, hc, ?_⟩
      rw [pairedPart, if_pos hc, if_neg hd]
      rfl
  | case6 c d rest hc ih =>
      have hpart : pairedPart (c :: d :: rest) =
          c :: pairedPart (d :: rest) := by
        rw [pairedPart, if_neg hc]
      rcases ih with hpaired | ⟨e, rest', he, hrest⟩
      · left
        rw [Paired, hpart, hpaired]
      · refine .inr ⟨e, rest', he, ?_⟩
        rw [hpart, List.cons_append, ← hrest]

/-- A text goes on behind a character that is no surrogate if it came that
far. -/
theorem pairedPart_append_cons {c : WChar} (hhigh : isHighSurrogate c = false)
    (hlow : isLowSurrogate c = false) (s t : WString) :
    pairedPart (s ++ c :: t) =
      if Paired s then s ++ c :: pairedPart t else pairedPart s := by
  have hcons : pairedPart (c :: t) = c :: pairedPart t := by
    cases t with
    | nil => simp [pairedPart, hhigh]
    | cons d t => simp [pairedPart, hhigh]
  induction s using pairedPart.induct with
  | case1 => simp [Paired, pairedPart, hcons]
  | case2 d hd => simp [Paired, pairedPart, hd, hlow]
  | case3 d hd => simp [Paired, pairedPart, hd, hcons]
  | case4 d e rest hd he ih =>
      by_cases hrest : Paired rest
      · rw [if_pos hrest] at ih
        rw [Paired] at hrest
        simp [Paired, pairedPart, hd, he, ih, hrest]
      · rw [if_neg hrest] at ih
        rw [Paired] at hrest
        simp [Paired, pairedPart, hd, he, ih, hrest]
  | case5 d e rest hd he => simp [Paired, pairedPart, hd, he]
  | case6 d e rest hd ih =>
      by_cases hrest : Paired (e :: rest)
      · rw [if_pos hrest, List.cons_append] at ih
        rw [Paired] at hrest
        simp [Paired, pairedPart, hd, ih, hrest]
      · rw [if_neg hrest, List.cons_append] at ih
        rw [Paired] at hrest
        simp [Paired, pairedPart, hd, ih, hrest]

theorem Paired.cons {c : WChar} (hc : isHighSurrogate c = false) {s : WString}
    (h : Paired s) : Paired (c :: s) := by
  cases s with
  | nil => simp [Paired, pairedPart, hc]
  | cons d s =>
      rw [Paired] at h
      simp [Paired, pairedPart, hc, h]

theorem Paired.cons_pair {c d : WChar} (hc : isHighSurrogate c = true)
    (hd : isLowSurrogate d = true) {s : WString} (h : Paired s) :
    Paired (c :: d :: s) := by
  rw [Paired] at h
  simp [Paired, pairedPart, hc, hd, h]

theorem Paired.append {s t : WString} (hs : Paired s) (ht : Paired t) :
    Paired (s ++ t) := by
  induction s using pairedPart.induct with
  | case1 => exact ht
  | case2 c hc =>
      rw [Paired, pairedPart, if_pos hc] at hs
      cases hs
  | case3 c hc => exact ht.cons (by simpa using hc)
  | case4 c d rest hc hd ih =>
      rw [Paired, pairedPart, if_pos hc, if_pos hd] at hs
      exact Paired.cons_pair hc hd (ih (by injections))
  | case5 c d rest hc hd =>
      rw [Paired, pairedPart, if_pos hc, if_neg hd] at hs
      cases hs
  | case6 c d rest hc ih =>
      rw [Paired, pairedPart, if_neg hc] at hs
      exact (ih (by injections)).cons (by simpa using hc)

/-- A character is written as one unit that is no high surrogate, or as a
pair. -/
theorem Paired.encodeUnits_append (rune : UInt32) {s : WString}
    (h : Paired s) : Paired (encodeUnits rune ++ s) := by
  unfold encodeUnits
  simp only [UInt32.le_iff_toNat_le, UInt32.lt_iff_toNat_lt]
  split
  · rename_i hsmall
    have hsmall : rune.toNat ≤ 65535 := hsmall
    split
    · exact Paired.cons (by decide) h
    · rename_i hsurrogate
      have hsurrogate : ¬ (0xD800 ≤ rune.toNat ∧ rune.toNat ≤ 0xDBFF) :=
        hsurrogate
      refine Paired.cons ?_ h
      rw [← Bool.not_eq_true, isHighSurrogate_iff, UInt32.toNat_toUInt16]
      omega
  · rename_i hlarge
    have hlarge : ¬ rune.toNat ≤ 65535 := hlarge
    split
    · exact Paired.cons (by decide) h
    · rename_i hlimit
      have hlimit : ¬ 0x10FFFF < rune.toNat := hlimit
      have hoffset : (rune - 0x10000).toNat = rune.toNat - 0x10000 := by
        rw [UInt32.toNat_sub]
        change (2 ^ 32 - 0x10000 + rune.toNat) % 2 ^ 32 = _
        omega
      have hhigh : ((rune - 0x10000) >>> 10).toNat =
          (rune.toNat - 0x10000) / 1024 := by
        rw [UInt32.toNat_shiftRight, hoffset]
        change (_ >>> 10) = _
        rw [Nat.shiftRight_eq_div_pow]
      have hlow : ((rune - 0x10000) &&& 0x3FF).toNat =
          (rune.toNat - 0x10000) % 1024 := by
        rw [UInt32.toNat_and, hoffset]
        exact Nat.and_two_pow_sub_one_eq_mod _ 10
      refine Paired.cons_pair ?_ ?_ h
      · rw [isHighSurrogate_iff, UInt32.toNat_toUInt16, UInt32.toNat_add, hhigh]
        change 0xD800 ≤ (_ + 0xD800) % 2 ^ 32 % 2 ^ 16 ∧
          (_ + 0xD800) % 2 ^ 32 % 2 ^ 16 ≤ 0xDBFF
        omega
      · rw [isLowSurrogate_iff, UInt32.toNat_toUInt16, UInt32.toNat_add, hlow]
        change 0xDC00 ≤ (_ + 0xDC00) % 2 ^ 32 % 2 ^ 16 ∧
          (_ + 0xDC00) % 2 ^ 32 % 2 ^ 16 ≤ 0xDFFF
        omega

theorem paired_encodeUtf16 (bytes : Bytes) : Paired (encodeUtf16 bytes) := by
  unfold encodeUtf16
  generalize bytes.length = passes
  induction passes generalizing bytes with
  | zero => exact rfl
  | succ passes ih =>
      cases bytes with
      | nil => exact rfl
      | cons b bytes =>
          rw [encodeUtf16Loop]
          split
          · exact rfl
          · exact Paired.encodeUnits_append _ (ih _)

end Baulk
