import Baulk.Core.Codecvt

/-!
# Comparing narrow strings

`bela::EqualsIgnoreCase` also has an overload for `std::string`.  It looks up
every byte in a table of lower-case letters, and a `char` above ASCII is a
negative index of that table.
-/

namespace Baulk

/-- `bela::ascii_tolower`, for a `char` in the table. -/
def asciiToLowerNarrow (c : UInt8) : UInt8 :=
  if 0x41 ≤ c ∧ c ≤ 0x5A then c + 0x20 else c

/-- `memcasecmp`, as a test for equality, unless it reads before the table. -/
def memcasecmp : Bytes → Bytes → Option Bool
  | a :: s, b :: t =>
      if 0x80 ≤ a ∨ 0x80 ≤ b then none
      else if asciiToLowerNarrow a = asciiToLowerNarrow b then memcasecmp s t
      else some false
  | _, _ => some true

/-- `bela::EqualsIgnoreCase`, for narrow strings. -/
def equalsIgnoreCaseNarrow (piece1 piece2 : Bytes) : Option Bool :=
  if piece1.length = piece2.length then memcasecmp piece1 piece2
  else some false

theorem memcasecmp_eq_some {s t : Bytes} (hlength : s.length = t.length)
    {equal : Bool} (h : memcasecmp s t = some equal) :
    equal = true ↔
      s.map asciiToLowerNarrow = t.map asciiToLowerNarrow := by
  induction s generalizing t with
  | nil =>
      cases List.eq_nil_of_length_eq_zero hlength.symm
      cases h
      exact iff_of_true rfl rfl
  | cons a s ih =>
      cases t with
      | nil => cases hlength
      | cons b t =>
          rw [memcasecmp] at h
          split at h
          · cases h
          rw [List.map_cons, List.map_cons, List.cons_eq_cons]
          by_cases hab : asciiToLowerNarrow a = asciiToLowerNarrow b
          · rw [if_pos hab] at h
            rw [ih (Nat.succ.inj hlength) h, and_iff_right hab]
          · rw [if_neg hab] at h
            cases h
            exact iff_of_false Bool.false_ne_true fun heq => hab heq.1

theorem equalsIgnoreCaseNarrow_eq_some {s t : Bytes} {equal : Bool}
    (h : equalsIgnoreCaseNarrow s t = some equal) :
    equal = true ↔
      s.map asciiToLowerNarrow = t.map asciiToLowerNarrow := by
  unfold equalsIgnoreCaseNarrow at h
  by_cases hlength : s.length = t.length
  · rw [if_pos hlength] at h
    exact memcasecmp_eq_some hlength h
  · rw [if_neg hlength] at h
    cases h
    refine iff_of_false Bool.false_ne_true fun heq => hlength ?_
    rw [← List.length_map (f := asciiToLowerNarrow), heq, List.length_map]

/-! ## Lower case and UTF-8 -/

theorem asciiToLower_of_lt {c : WChar} (h : 0x7F < c) : asciiToLower c = c := by
  refine if_neg fun hc => ?_
  exact absurd (UInt16.lt_of_lt_of_le h hc.2) (by decide)

theorem asciiToLower_of_le {c : WChar} (h : c ≤ 0x7F) :
    asciiToLower c ≤ 0x7F ∧
      (asciiToLower c).toUInt8 = asciiToLowerNarrow c.toUInt8 := by
  have hc : c.toNat ≤ 0x7F := UInt16.le_iff_toNat_le.mp h
  have hnarrow : c.toUInt8.toNat = c.toNat := by
    rw [UInt16.toNat_toUInt8]
    omega
  have hwide : (0x41 ≤ c ∧ c ≤ 0x5A) ↔ 0x41 ≤ c.toNat ∧ c.toNat ≤ 0x5A := by
    rw [UInt16.le_iff_toNat_le, UInt16.le_iff_toNat_le]
    rfl
  have hbyte : (0x41 ≤ c.toUInt8 ∧ c.toUInt8 ≤ 0x5A) ↔
      0x41 ≤ c.toNat ∧ c.toNat ≤ 0x5A := by
    rw [UInt8.le_iff_toNat_le, UInt8.le_iff_toNat_le, hnarrow]
    rfl
  unfold asciiToLower asciiToLowerNarrow
  by_cases hupper : 0x41 ≤ c.toNat ∧ c.toNat ≤ 0x5A
  · rw [if_pos (hwide.mpr hupper), if_pos (hbyte.mpr hupper)]
    refine ⟨?_, UInt16.toUInt8_add c 0x20⟩
    rw [UInt16.le_iff_toNat_le, UInt16.toNat_add]
    change (_ + 0x20) % 2 ^ 16 ≤ 0x7F
    omega
  · rw [if_neg (mt hwide.mp hupper), if_neg (mt hbyte.mp hupper)]
    exact ⟨h, rfl⟩

theorem isHighSurrogate_of_le {c : WChar} (h : c ≤ 0x7F) :
    isHighSurrogate c = false := by
  have hc : c.toNat ≤ 0x7F := UInt16.le_iff_toNat_le.mp h
  rw [← Bool.not_eq_true, isHighSurrogate_iff]
  omega

theorem isLowSurrogate_of_le {c : WChar} (h : c ≤ 0x7F) :
    isLowSurrogate c = false := by
  have hc : c.toNat ≤ 0x7F := UInt16.le_iff_toNat_le.mp h
  rw [← Bool.not_eq_true, isLowSurrogate_iff]
  omega

theorem isHighSurrogate_asciiToLower (c : WChar) :
    isHighSurrogate (asciiToLower c) = isHighSurrogate c := by
  by_cases hc : 0x7F < c
  · rw [asciiToLower_of_lt hc]
  · rw [UInt16.not_lt] at hc
    rw [isHighSurrogate_of_le hc,
      isHighSurrogate_of_le (asciiToLower_of_le hc).1]

theorem isLowSurrogate_asciiToLower (c : WChar) :
    isLowSurrogate (asciiToLower c) = isLowSurrogate c := by
  by_cases hc : 0x7F < c
  · rw [asciiToLower_of_lt hc]
  · rw [UInt16.not_lt] at hc
    rw [isLowSurrogate_of_le hc,
      isLowSurrogate_of_le (asciiToLower_of_le hc).1]

theorem asciiToLowerNarrow_tagByte {tag : UInt8} (h : 0x80 ≤ tag)
    (bits : UInt32) :
    asciiToLowerNarrow (tagByte tag bits) = tagByte tag bits := by
  have hle : tag.toNat ≤ (tagByte tag bits).toNat := by
    rw [tagByte, UInt8.toNat_or]
    exact Nat.left_le_or
  refine if_neg fun hc => ?_
  have hupper : (tagByte tag bits).toNat ≤ 0x5A :=
    UInt8.le_iff_toNat_le.mp hc.2
  have hlower : 0x80 ≤ tag.toNat := UInt8.le_iff_toNat_le.mp h
  omega

/-- Only a character of ASCII is written with a byte of ASCII. -/
theorem map_encodeRune_of_lt {rune : UInt32} (h : 0x7F < rune) :
    (encodeRune rune).map asciiToLowerNarrow = encodeRune rune := by
  unfold encodeRune
  rw [if_neg (UInt32.not_le.mpr h)]
  split
  · simp only [List.map_cons, List.map_nil,
      asciiToLowerNarrow_tagByte (show 0x80 ≤ 0xC0 by decide),
      asciiToLowerNarrow_tagByte (show 0x80 ≤ 0x80 by decide)]
  split
  · simp only [List.map_cons, List.map_nil,
      asciiToLowerNarrow_tagByte (show 0x80 ≤ 0xE0 by decide),
      asciiToLowerNarrow_tagByte (show 0x80 ≤ 0x80 by decide)]
  · simp only [List.map_cons, List.map_nil,
      asciiToLowerNarrow_tagByte (show 0x80 ≤ 0xF0 by decide),
      asciiToLowerNarrow_tagByte (show 0x80 ≤ 0x80 by decide)]

theorem map_encodeRune (c : WChar) :
    (encodeRune c.toUInt32).map asciiToLowerNarrow =
      encodeRune (asciiToLower c).toUInt32 := by
  have hle : ∀ d : WChar, d ≤ 0x7F → encodeRune d.toUInt32 = [d.toUInt8] := by
    intro d hd
    have hd : d.toUInt32 ≤ 0x7F := by
      rw [UInt32.le_iff_toNat_le, UInt16.toNat_toUInt32]
      exact UInt16.le_iff_toNat_le.mp hd
    rw [encodeRune, if_pos hd, UInt16.toUInt8_toUInt32]
  by_cases hc : 0x7F < c
  · rw [asciiToLower_of_lt hc]
    apply map_encodeRune_of_lt
    rw [UInt32.lt_iff_toNat_lt, UInt16.toNat_toUInt32]
    exact UInt16.lt_iff_toNat_lt.mp hc
  · rw [UInt16.not_lt] at hc
    obtain ⟨hlower, hnarrow⟩ := asciiToLower_of_le hc
    rw [hle c hc, hle _ hlower, hnarrow]
    rfl

theorem pairedPart_map (s : WString) :
    pairedPart (s.map asciiToLower) = (pairedPart s).map asciiToLower := by
  induction s using pairedPart.induct with
  | case1 => rfl
  | case2 c hc => simp [pairedPart, isHighSurrogate_asciiToLower, hc]
  | case3 c hc => simp [pairedPart, isHighSurrogate_asciiToLower, hc]
  | case4 c d rest hc hd ih =>
      simp [pairedPart, isHighSurrogate_asciiToLower,
        isLowSurrogate_asciiToLower, hc, hd, ih]
  | case5 c d rest hc hd =>
      simp [pairedPart, isHighSurrogate_asciiToLower,
        isLowSurrogate_asciiToLower, hc, hd]
  | case6 c d rest hc ih =>
      rw [List.map_cons] at ih
      simp [pairedPart, isHighSurrogate_asciiToLower, hc, ih]

/-! ## Texts -/

theorem encodeUtf8_cons {c : WChar} (hc : isHighSurrogate c = false)
    (rest : WString) :
    encodeUtf8 (c :: rest) = encodeRune c.toUInt32 ++ encodeUtf8 rest := by
  have hnot : ¬ (0xD800 ≤ c ∧ c ≤ 0xDBFF) := by
    intro h
    rw [isHighSurrogate, decide_eq_true h.1, decide_eq_true h.2] at hc
    cases hc
  cases rest with
  | nil =>
      change encodeUtf8 [c] = encodeRune c.toUInt32 ++ []
      rw [encodeUtf8, if_neg hnot, List.append_nil]
  | cons d rest => rw [encodeUtf8, if_neg hnot]

theorem encodeUtf8_pair {c d : WChar} (hc : isHighSurrogate c = true)
    (hd : isLowSurrogate d = true) (rest : WString) :
    encodeUtf8 (c :: d :: rest) =
      encodeRune (surrogateRune c d) ++ encodeUtf8 rest := by
  have hhigh : 0xD800 ≤ c ∧ c ≤ 0xDBFF := by
    simpa [isHighSurrogate] using hc
  have hlow : ¬ (d < 0xDC00 ∨ 0xDFFF < d) := by
    simpa [isLowSurrogate] using hd
  rw [encodeUtf8, if_pos hhigh, if_neg hlow]

theorem encodeUtf8_cut {c d : WChar} (hc : isHighSurrogate c = true)
    (hd : ¬ isLowSurrogate d = true) (rest : WString) :
    encodeUtf8 (c :: d :: rest) = [] := by
  have hhigh : 0xD800 ≤ c ∧ c ≤ 0xDBFF := by
    simpa [isHighSurrogate] using hc
  have hlow : d < 0xDC00 ∨ 0xDFFF < d := by
    by_contra h
    rw [not_or, UInt16.not_lt, UInt16.not_lt] at h
    exact hd (by simpa [isLowSurrogate] using h)
  rw [encodeUtf8, if_pos hhigh, if_pos hlow]

theorem encodeUtf8_high {c : WChar} (hc : isHighSurrogate c = true) :
    encodeUtf8 [c] = [] := by
  have hhigh : 0xD800 ≤ c ∧ c ≤ 0xDBFF := by
    simpa [isHighSurrogate] using hc
  rw [encodeUtf8, if_pos hhigh]

theorem encodeUtf8_pairedPart (s : WString) :
    encodeUtf8 (pairedPart s) = encodeUtf8 s := by
  induction s using pairedPart.induct with
  | case1 => rfl
  | case2 c hc =>
      rw [pairedPart, if_pos hc, encodeUtf8_high hc]
      rfl
  | case3 c hc => rw [pairedPart, if_neg hc]
  | case4 c d rest hc hd ih =>
      rw [pairedPart, if_pos hc, if_pos hd, encodeUtf8_pair hc hd,
        encodeUtf8_pair hc hd, ih]
  | case5 c d rest hc hd =>
      rw [pairedPart, if_pos hc, if_neg hd, encodeUtf8_cut hc hd]
      rfl
  | case6 c d rest hc ih =>
      rw [Bool.not_eq_true] at hc
      rw [pairedPart, if_neg (by simp [hc]), encodeUtf8_cons hc,
        encodeUtf8_cons hc, ih]

/-- Texts have the same encoding if they agree before a lone high surrogate. -/
theorem encodeUtf8_eq_iff {s t : WString} :
    encodeUtf8 s = encodeUtf8 t ↔ pairedPart s = pairedPart t := by
  constructor
  · intro h
    rw [← encodeUtf16_encodeUtf8, h, encodeUtf16_encodeUtf8]
  · intro h
    rw [← encodeUtf8_pairedPart, h, encodeUtf8_pairedPart]

theorem map_encodeUtf8 (s : WString) :
    (encodeUtf8 s).map asciiToLowerNarrow =
      encodeUtf8 (s.map asciiToLower) := by
  induction s using pairedPart.induct with
  | case1 => rfl
  | case2 c hc =>
      have hc' : isHighSurrogate (asciiToLower c) = true := by
        rwa [isHighSurrogate_asciiToLower]
      rw [encodeUtf8_high hc, List.map_singleton, encodeUtf8_high hc']
      rfl
  | case3 c hc =>
      rw [Bool.not_eq_true] at hc
      rw [encodeUtf8_cons hc, List.map_cons,
        encodeUtf8_cons (by rwa [isHighSurrogate_asciiToLower]),
        List.map_append, map_encodeRune]
      rfl
  | case4 c d rest hc hd ih =>
      have hc' : 0x7F < c := by
        rw [UInt16.lt_iff_toNat_lt]
        exact lt_of_lt_of_le (by decide) (isHighSurrogate_iff.mp hc).1
      have hd' : 0x7F < d := by
        rw [UInt16.lt_iff_toNat_lt]
        exact lt_of_lt_of_le (by decide) (isLowSurrogate_iff.mp hd).1
      have hrune : 0x7F < surrogateRune c d := by
        rw [UInt32.lt_iff_toNat_lt]
        have h := surrogateRune_toNat hc hd
        change 0x7F < (surrogateRune c d).toNat
        omega
      rw [encodeUtf8_pair hc hd, List.map_cons, List.map_cons,
        asciiToLower_of_lt hc', asciiToLower_of_lt hd', encodeUtf8_pair hc hd,
        List.map_append, map_encodeRune_of_lt hrune, ih]
  | case5 c d rest hc hd =>
      rw [encodeUtf8_cut hc hd, List.map_cons, List.map_cons, encodeUtf8_cut
        (by rwa [isHighSurrogate_asciiToLower])
        (by rwa [isLowSurrogate_asciiToLower])]
      rfl
  | case6 c d rest hc ih =>
      rw [Bool.not_eq_true] at hc
      have hc' : isHighSurrogate (asciiToLower c) = false := by
        rwa [isHighSurrogate_asciiToLower]
      rw [encodeUtf8_cons hc, List.map_append, ih, map_encodeRune,
        ← encodeUtf8_cons hc']
      rfl

/-- Where it is defined, the comparison of encoded texts is the comparison of
the parts that are encoded. -/
theorem equalsIgnoreCaseNarrow_encodeUtf8 {s t : WString} {equal : Bool}
    (h : equalsIgnoreCaseNarrow (encodeUtf8 s) (encodeUtf8 t) = some equal) :
    equal = equalsIgnoreCase (pairedPart s) (pairedPart t) := by
  rw [Bool.eq_iff_iff, equalsIgnoreCaseNarrow_eq_some h, map_encodeUtf8,
    map_encodeUtf8, encodeUtf8_eq_iff, pairedPart_map, pairedPart_map,
    equalsIgnoreCase, beq_iff_eq]

end Baulk
