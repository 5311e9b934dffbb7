import Baulk.Core.Wide
import Baulk.Support.Numeral

/-!
# Reading numbers

`bela::SimpleAtoi`.  It drops white space on both sides, takes a sign and reads
digits until the text ends, something else stands there, or the number no longer
fits; the value so far is stored even when it fails.
-/

namespace Baulk.Numbers

open Support

/-- The largest `int64_t`. -/
def vmax : Int := 2 ^ 63 - 1

/-- The smallest `int64_t`. -/
def vmin : Int := -2 ^ 63

/-- `bela::ascii_isspace`, for `wchar_t`. -/
def asciiIsSpace (c : WChar) : Bool :=
  [0x20, 0x09, 0x0A, 0x0D, 0x0B, 0x0C, 0x85, 0x2000, 0x2001, 0x2002, 0x2003,
    0x2004, 0x2005, 0x2006, 0x2008, 0x2009, 0x200A, 0x2028, 0x2029, 0x205F,
    0x3000].contains c

/-- `kAsciiToInt`, where it is less than ten.  Only the lower byte of the
character is looked up. -/
def asciiToInt (c : WChar) : Option Nat :=
  let b := c.toNat % 256
  if 0x30 ≤ b ∧ b ≤ 0x39 then some (b - 0x30) else none

/-- The text without the white space on both sides. -/
def strip (text : WString) : WString :=
  ((text.dropWhile asciiIsSpace).reverse.dropWhile asciiIsSpace).reverse

/-- `safe_parse_positive_int`, with base 10, for a type whose largest value is
`hi`: the number that is stored, and whether all of the text was read. -/
def parsePositive (hi : Int) : WString → Int → Int × Bool
  | [], value => (value, true)
  | c :: rest, value =>
      match asciiToInt c with
      | none => (value, false)
      | some digit =>
          if hi / 10 < value then (hi, false)
          else if hi - digit < value * 10 then (hi, false)
          else parsePositive hi rest (value * 10 + digit)

/-- `safe_parse_negative_int`, with base 10, for a type whose smallest value is
`lo`. -/
def parseNegative (lo : Int) : WString → Int → Int × Bool
  | [], value => (value, true)
  | c :: rest, value =>
      match asciiToInt c with
      | none => (value, false)
      | some digit =>
          if value < lo.tdiv 10 then (lo, false)
          else if value * 10 < lo + digit then (lo, false)
          else parseNegative lo rest (value * 10 - digit)

/-- `safe_int_internal`: take the sign and read the rest. -/
def readSigned (positive negative : WString → Int × Bool) (text : WString) : Int × Bool :=
  match strip text with
  | [] => (0, false)
  | c :: rest =>
      if c = 0x2D then
        if rest.isEmpty then (0, false) else negative rest
      else if c = 0x2B then
        if rest.isEmpty then (0, false) else positive rest
      else positive (c :: rest)

/-- `safe_parse_positive_int` for `int64_t`. -/
def safeParsePositiveInt (text : WString) (value : Int) : Int × Bool :=
  parsePositive vmax text value

/-- `safe_parse_negative_int` for `int64_t`. -/
def safeParseNegativeInt (text : WString) (value : Int) : Int × Bool :=
  parseNegative vmin text value

/-- `bela::SimpleAtoi`: the number that is stored, and what is returned. -/
def simpleAtoi (text : WString) : Int × Bool :=
  readSigned (fun rest => safeParsePositiveInt rest 0)
    (fun rest => safeParseNegativeInt rest 0) text

/-- `bela::SimpleAtoi` for `int`. -/
def simpleAtoi32 (text : WString) : Int × Bool :=
  readSigned (fun rest => parsePositive (2 ^ 31 - 1) rest 0)
    (fun rest => parseNegative (-2 ^ 31) rest 0) text

/-- `bela::SimpleAtoi` for `DWORD`.  `safe_uint_internal` takes no minus sign. -/
def simpleAtoiU32 (text : WString) : Int × Bool :=
  readSigned (fun rest => parsePositive (2 ^ 32 - 1) rest 0) (fun _ => (0, false)) text

/-! ## Numerals -/

def digitChar (d : Nat) : WChar :=
  (0x30 + d).toUInt16

/-- The text of decimal digits, the highest one first. -/
def digitsText (ds : List Nat) : WString :=
  ds.map digitChar

/-- A text that is a decimal numeral, with a sign if it is negative, and the
`int64_t` that it stands for. -/
inductive IsNumeral : WString → Int → Prop where
  | positive {ds : List Nat} (hne : ds ≠ []) (hds : ∀ d ∈ ds, d < 10)
      (hfits : numberOf 10 ds ≤ vmax) : IsNumeral (digitsText ds) (numberOf 10 ds)
  | negative {ds : List Nat} (hne : ds ≠ []) (hds : ∀ d ∈ ds, d < 10)
      (hfits : vmin ≤ -numberOf 10 ds) :
      IsNumeral (0x2D :: digitsText ds) (-numberOf 10 ds)

theorem digitChar_toNat {d : Nat} (hd : d < 10) : (digitChar d).toNat = 0x30 + d := by
  have hsmall : (0x30 + d) % 2 ^ 16 = 0x30 + d := Nat.mod_eq_of_lt (by omega)
  rw [digitChar, Nat.toUInt16_eq, UInt16.toNat_ofNat', hsmall]

theorem asciiToInt_digitChar {d : Nat} (hd : d < 10) :
    asciiToInt (digitChar d) = some d := by
  have hbyte : (0x30 + d) % 256 = 0x30 + d := Nat.mod_eq_of_lt (by omega)
  unfold asciiToInt
  rw [digitChar_toNat hd, hbyte, if_pos (by omega), Nat.add_sub_cancel_left]

theorem asciiIsSpace_digitChar {d : Nat} (hd : d < 10) : asciiIsSpace (digitChar d) = false := by
  have hall : ∀ d < 10, asciiIsSpace (digitChar d) = false := by decide
  exact hall d hd

theorem digitChar_ne {d : Nat} (hd : d < 10) {c : WChar}
    (hc : c.toNat < 0x30 ∨ 0x39 < c.toNat) : digitChar d ≠ c := by
  rintro rfl
  rw [digitChar_toNat hd] at hc
  omega

theorem mem_digitsText {ds : List Nat} {c : WChar} (h : c ∈ digitsText ds) :
    ∃ d ∈ ds, digitChar d = c :=
  List.mem_map.mp h

theorem not_mem_digitsText {ds : List Nat} (hds : ∀ d ∈ ds, d < 10) {c : WChar}
    (hc : c.toNat < 0x30 ∨ 0x39 < c.toNat) : c ∉ digitsText ds := by
  intro hmem
  obtain ⟨d, hd, heq⟩ := mem_digitsText hmem
  exact digitChar_ne (hds d hd) hc heq

theorem total_cons (n d : Nat) (ds : List Nat) :
    n * 10 ^ (d :: ds).length + numberOf 10 (d :: ds) =
      (n * 10 + d) * 10 ^ ds.length + numberOf 10 ds := by
  rw [numberOf_cons, List.length_cons, Nat.pow_succ]
  ring

/-- Digits are read to their end when the number that they lead to fits. -/
theorem parsePositive_digitsText {u : Int} {ds : List Nat} (hds : ∀ d ∈ ds, d < 10)
    {n : Nat} (hfits : ((n * 10 ^ ds.length + numberOf 10 ds : Nat) : Int) ≤ u) :
    parsePositive u (digitsText ds) n =
      (((n * 10 ^ ds.length + numberOf 10 ds : Nat) : Int), true) := by
  induction ds generalizing n with
  | nil => simp [digitsText, parsePositive, numberOf]
  | cons d ds ih =>
      have hd : d < 10 := hds d List.mem_cons_self
      have htotal := total_cons n d ds
      have hgrow : n * 10 + d ≤ (n * 10 + d) * 10 ^ ds.length :=
        Nat.le_mul_of_pos_right _ (Nat.pow_pos (by omega))
      rw [htotal] at hfits
      have hbound : ((n * 10 + d : Nat) : Int) ≤ u := by omega
      have hover : ¬u / 10 < (n : Int) := by omega
      have hroom : ¬u - d < (n : Int) * 10 := by omega
      have hnext : (n : Int) * 10 + d = ((n * 10 + d : Nat) : Int) := by push_cast; rfl
      rw [digitsText, List.map_cons, parsePositive, asciiToInt_digitChar hd]
      dsimp only
      rw [if_neg hover, if_neg hroom, hnext, htotal]
      exact ih (fun d' hd' => hds d' (List.mem_cons_of_mem _ hd')) hfits

theorem parseNegative_digitsText {l : Int} {ds : List Nat} (hds : ∀ d ∈ ds, d < 10)
    {n : Nat} (hfits : l ≤ -((n * 10 ^ ds.length + numberOf 10 ds : Nat) : Int)) :
    parseNegative l (digitsText ds) (-n) =
      (-((n * 10 ^ ds.length + numberOf 10 ds : Nat) : Int), true) := by
  induction ds generalizing n with
  | nil => simp [digitsText, parseNegative, numberOf]
  | cons d ds ih =>
      have hd : d < 10 := hds d List.mem_cons_self
      have htotal := total_cons n d ds
      have hgrow : n * 10 + d ≤ (n * 10 + d) * 10 ^ ds.length :=
        Nat.le_mul_of_pos_right _ (Nat.pow_pos (by omega))
      rw [htotal] at hfits
      have hbound : l ≤ -((n * 10 + d : Nat) : Int) := by omega
      have hover : ¬-(n : Int) < l.tdiv 10 := by
        have hneg : l.tdiv 10 = -(-l / 10) := by
          rw [← Int.tdiv_eq_ediv_of_nonneg (by omega), Int.neg_tdiv, neg_neg]
        omega
      have hroom : ¬-(n : Int) * 10 < l + d := by omega
      have hnext : -(n : Int) * 10 - d = -((n * 10 + d : Nat) : Int) := by push_cast; ring
      rw [digitsText, List.map_cons, parseNegative, asciiToInt_digitChar hd]
      dsimp only
      rw [if_neg hover, if_neg hroom, hnext, htotal]
      exact ih (fun d' hd' => hds d' (List.mem_cons_of_mem _ hd')) hfits

theorem strip_eq {text : WString} (h : ∀ c ∈ text, asciiIsSpace c = false) : strip text = text := by
  have hkeep : ∀ {s : WString}, (∀ c ∈ s, asciiIsSpace c = false) →
      s.dropWhile asciiIsSpace = s := by
    intro s hs
    cases s with
    | nil => rfl
    | cons c rest =>
        rw [List.dropWhile_cons_of_neg]
        rw [hs c List.mem_cons_self]
        exact Bool.false_ne_true
  unfold strip
  rw [hkeep h, hkeep fun c hc => h c (List.mem_reverse.mp hc), List.reverse_reverse]

theorem readSigned_of_isNumeral {positive negative : WString → Int × Bool} {text : WString}
    {n : Int} (h : IsNumeral text n)
    (hpositive : ∀ {ds : List Nat}, (∀ d ∈ ds, d < 10) → (numberOf 10 ds : Int) = n →
      positive (digitsText ds) = (n, true))
    (hnegative : ∀ {ds : List Nat}, (∀ d ∈ ds, d < 10) → -(numberOf 10 ds : Int) = n →
      negative (digitsText ds) = (n, true)) :
    readSigned positive negative text = (n, true) := by
  have hspace : ∀ {ds : List Nat}, (∀ d ∈ ds, d < 10) →
      ∀ c ∈ digitsText ds, asciiIsSpace c = false := by
    intro ds hds c hc
    obtain ⟨d, hd, rfl⟩ := mem_digitsText hc
    exact asciiIsSpace_digitChar (hds d hd)
  cases h with
  | @positive ds hne hds hfits =>
      obtain ⟨d, ds, rfl⟩ := List.exists_cons_of_ne_nil hne
      have hd : d < 10 := hds d List.mem_cons_self
      unfold readSigned
      rw [strip_eq (hspace hds)]
      change (if digitChar d = 0x2D then _ else _) = _
      rw [if_neg (digitChar_ne hd (by decide)), if_neg (digitChar_ne hd (by decide))]
      exact hpositive hds rfl
  | @negative ds hne hds hfits =>
      have hclear : ∀ c ∈ (0x2D : WChar) :: digitsText ds, asciiIsSpace c = false := by
        intro c hc
        rcases List.mem_cons.mp hc with rfl | hc
        · decide
        · exact hspace hds c hc
      have hrest : (digitsText ds).isEmpty = false := by
        obtain ⟨d, ds, rfl⟩ := List.exists_cons_of_ne_nil hne
        rfl
      unfold readSigned
      rw [strip_eq hclear]
      change (if (0x2D : WChar) = 0x2D then _ else _) = _
      rw [if_pos rfl, hrest]
      exact hnegative hds rfl

theorem parsePositive_zero {u : Int} {ds : List Nat} (hds : ∀ d ∈ ds, d < 10)
    (hfits : (numberOf 10 ds : Int) ≤ u) :
    parsePositive u (digitsText ds) 0 = ((numberOf 10 ds : Int), true) := by
  have hread := parsePositive_digitsText (n := 0) hds (by simpa using hfits)
  rwa [Nat.zero_mul, Nat.zero_add] at hread

theorem parseNegative_zero {l : Int} {ds : List Nat} (hds : ∀ d ∈ ds, d < 10)
    (hfits : l ≤ -(numberOf 10 ds : Int)) :
    parseNegative l (digitsText ds) 0 = (-(numberOf 10 ds : Int), true) := by
  have hread := parseNegative_digitsText (n := 0) hds (by simpa using hfits)
  rwa [Nat.zero_mul, Nat.zero_add] at hread

theorem IsNumeral.fits {text : WString} {n : Int} (h : IsNumeral text n) :
    vmin ≤ n ∧ n ≤ vmax := by
  cases h with
  | positive _ _ hfits =>
      refine ⟨?_, hfits⟩
      unfold vmin
      omega
  | negative _ _ hfits =>
      refine ⟨hfits, ?_⟩
      unfold vmax
      omega

theorem simpleAtoi_of_isNumeral {text : WString} {n : Int} (h : IsNumeral text n) :
    simpleAtoi text = (n, true) := by
  refine readSigned_of_isNumeral h (fun hds hn => ?_) (fun hds hn => ?_)
  · subst hn
    exact parsePositive_zero hds h.fits.2
  · subst hn
    exact parseNegative_zero hds h.fits.1

theorem simpleAtoi32_of_isNumeral {text : WString} {n : Int} (h : IsNumeral text n)
    (hlo : -2 ^ 31 ≤ n) (hhi : n ≤ 2 ^ 31 - 1) : simpleAtoi32 text = (n, true) := by
  refine readSigned_of_isNumeral h (fun hds hn => ?_) (fun hds hn => ?_)
  · subst hn
    exact parsePositive_zero hds hhi
  · subst hn
    exact parseNegative_zero hds hlo

/-- A numeral has none of the characters that are neither digits nor signs. -/
theorem IsNumeral.not_mem {text : WString} {n : Int} (h : IsNumeral text n) {c : WChar}
    (hsign : c ≠ 0x2D) (hc : c.toNat < 0x30 ∨ 0x39 < c.toNat) : c ∉ text := by
  cases h with
  | positive hne hds hfits => exact not_mem_digitsText hds hc
  | negative hne hds hfits =>
      rw [List.mem_cons, not_or]
      exact And.intro hsign (not_mem_digitsText hds hc)

example : simpleAtoi (wide " -42\t") = (-42, true) ∧
    simpleAtoi (wide "9223372036854775808") = (vmax, false) ∧
    simpleAtoi (wide "12x") = (12, false) := by
  decide

end Baulk.Numbers
