import Baulk.Core.Numbers
import Baulk.Core.Version
import Mathlib.Data.Nat.Log

/-!
# The text of a version

`make_string_version` measures the text of a version, makes a string of that
length and fills it from the end.  A number of seven digits is measured as six,
so that the first character is written in front of the string.  The text of any
other version is read back as that version.
-/

namespace Baulk.Version

open Numbers Support

/-! ## The length -/

/-- `length` of a number. -/
def numberLength (x : UInt32) : Nat :=
  if x < 10 then 1
  else if x < 100 then 2
  else if x < 1000 then 3
  else if x < 10000 then 4
  else if x < 100000 then 5
  else if x < 10000000 then 6
  else if x < 10000000 then 7
  else if x < 100000000 then 8
  else if x < 1000000000 then 9
  else 10

/-- `length` of the kind of a prerelease. -/
def kindLength : Prerelease → Nat
  | .alpha => 5
  | .beta => 4
  | .rc => 2
  | .none => 0

def stringLength (v : Version) : Nat :=
  numberLength v.major + numberLength v.minor + numberLength v.patch + 2 +
    (if v.build ≠ 0 then numberLength v.build + 1 else 0) +
    (if v.prereleaseType ≠ .none then
      kindLength v.prereleaseType + 1 +
        (if v.prereleaseNumber ≠ 0 then numberLength v.prereleaseNumber + 1 else 0)
    else 0)

/-! ## Writing from the end -/

/-- A string that is filled from the end: the places that are left in front, and
the text behind them. -/
structure Filling where
  room : Nat
  text : WString := []
  deriving DecidableEq

/-- `*(--str) = c`; there is no result if that is in front of the string. -/
def Filling.put (c : WChar) (f : Filling) : Option Filling :=
  match f.room with
  | 0 => none
  | room + 1 => some { room, text := c :: f.text }

/-- The loop over the digits; a number has at most ten. -/
def Filling.putDigits : Nat → UInt32 → Filling → Option Filling
  | 0, _, f => some f
  | passes + 1, x, f => do
      let f ← f.put (0x30 + (x % 10).toUInt16)
      if x / 10 = 0 then some f else putDigits passes (x / 10) f

/-- `to_chars` of a number. -/
def Filling.putNumber (x : UInt32) (dot : Bool) (f : Filling) : Option Filling := do
  let f ← putDigits 10 x f
  if dot then f.put 0x2E else some f

def kindText : Prerelease → WString
  | .alpha => wide "-alpha"
  | .beta => wide "-beta"
  | .rc => wide "-rc"
  | .none => []

/-- The loop over a text, from its end. -/
def Filling.putText (s : WString) (f : Filling) : Option Filling :=
  s.foldr (fun c f => f.bind (put c)) (some f)

/-- `to_chars` of a kind. -/
def Filling.putKind (kind : Prerelease) (f : Filling) : Option Filling :=
  f.putText (kindText kind)

/-- The prerelease in `version::to_chars`. -/
def Filling.putPrerelease (v : Version) (f : Filling) : Option Filling :=
  if v.prereleaseType ≠ .none then do
    let f ← if v.prereleaseNumber ≠ 0 then f.putNumber v.prereleaseNumber true else some f
    f.putKind v.prereleaseType
  else some f

/-- The build in `version::to_chars`. -/
def Filling.putBuild (v : Version) (f : Filling) : Option Filling :=
  if v.build ≠ 0 then f.putNumber v.build true else some f

/-- `version::to_chars`, into `length` places. -/
def toChars (v : Version) (length : Nat) : Option Filling := do
  let f ← Filling.putPrerelease v { room := length }
  let f ← f.putBuild v
  let f ← f.putNumber v.patch true
  let f ← f.putNumber v.minor true
  f.putNumber v.major false

/-- `make_string_version`; there is no result if it writes in front of the
string. -/
def makeStringVersion (v : Version) : Option WString :=
  (toChars v (stringLength v)).map fun f => List.replicate f.room 0 ++ f.text

/-! ## What is written -/

/-- The decimal text of a number. -/
def decimal (x : UInt32) : WString :=
  digitsText (numeral 10 (Nat.log 10 x.toNat + 1) x.toNat)

theorem length_decimal (x : UInt32) : (decimal x).length = Nat.log 10 x.toNat + 1 := by
  rw [decimal, digitsText, List.length_map, length_numeral]

theorem putText_eq (s : WString) (f : Filling) : f.putText s =
    if s.length ≤ f.room then some { room := f.room - s.length, text := s ++ f.text }
    else none := by
  induction s with
  | nil => simp [Filling.putText]
  | cons c s ih =>
      have hcons : f.putText (c :: s) = (f.putText s).bind (Filling.put c) := rfl
      rw [hcons, ih, List.length_cons]
      by_cases hs : s.length + 1 ≤ f.room
      · obtain ⟨k, hk⟩ : ∃ k, f.room - s.length = k + 1 := ⟨f.room - s.length - 1, by omega⟩
        have hroom : f.room - (s.length + 1) = k := by omega
        rw [if_pos (by omega), if_pos hs, Option.bind_some, Filling.put]
        dsimp only
        rw [hk, hroom]
        rfl
      · rw [if_neg hs]
        split
        · have hfull : f.room - s.length = 0 := by omega
          rw [Option.bind_some, Filling.put]
          dsimp only
          rw [hfull]
        · rfl

theorem putText_append (s t : WString) (f : Filling) :
    f.putText (s ++ t) = (f.putText t).bind (Filling.putText s) := by
  rw [Filling.putText, List.foldr_append]
  change List.foldr _ (f.putText t) s = _
  cases f.putText t with
  | none =>
      induction s with
      | nil => rfl
      | cons c s ih => rw [List.foldr_cons, ih]; rfl
  | some g => rfl

theorem putText_singleton (c : WChar) (f : Filling) : f.putText [c] = f.put c := rfl

theorem digit_eq (x : UInt32) : 0x30 + (x % 10).toUInt16 = digitChar (x.toNat % 10) := by
  have hx : x.toNat % 10 < 10 := Nat.mod_lt _ (by decide)
  rw [← UInt16.toNat_inj, UInt16.toNat_add, digitChar_toNat hx, UInt32.toNat_toUInt16,
    UInt32.toNat_mod]
  change (0x30 + x.toNat % 10 % 2 ^ 16) % 2 ^ 16 = 0x30 + x.toNat % 10
  omega

theorem putDigits_eq {passes : Nat} {x : UInt32} (h : Nat.log 10 x.toNat < passes)
    (f : Filling) : f.putDigits passes x = f.putText (decimal x) := by
  induction passes generalizing x f with
  | zero => exact absurd h (Nat.not_lt_zero _)
  | succ passes ih =>
      have hdiv : (x / 10).toNat = x.toNat / 10 := UInt32.toNat_div x 10
      rw [Filling.putDigits, digit_eq]
      by_cases hsmall : x.toNat < 10
      · have hzero : x / 10 = 0 := by
          rw [← UInt32.toNat_inj, hdiv]
          exact Nat.div_eq_of_lt hsmall
        have hdecimal : decimal x = [digitChar (x.toNat % 10)] := by
          rw [decimal, Nat.log_of_lt hsmall]
          rfl
        rw [hdecimal, hzero, putText_singleton]
        cases f.put (digitChar (x.toNat % 10)) <;> rfl
      · have hmore : x / 10 ≠ 0 := by
          rw [Ne, ← UInt32.toNat_inj, hdiv]
          change ¬ x.toNat / 10 = 0
          omega
        have hlog : Nat.log 10 x.toNat = Nat.log 10 (x.toNat / 10) + 1 :=
          Nat.log_of_one_lt_of_le (by decide) (by omega)
        have hdecimal : decimal x = decimal (x / 10) ++ [digitChar (x.toNat % 10)] := by
          rw [decimal, hlog, decimal, hdiv, numeral, digitsText, digitsText, List.map_append]
          rfl
        rw [hdecimal, putText_append, putText_singleton]
        cases f.put (digitChar (x.toNat % 10)) with
        | none => rfl
        | some f =>
            simp only [Option.bind_eq_bind, Option.bind_some, if_neg hmore]
            exact ih (by rw [hdiv]; omega) f

theorem log_lt (x : UInt32) : Nat.log 10 x.toNat < 10 :=
  Nat.log_lt_of_lt_pow' (by decide) (Nat.lt_of_lt_of_le x.toNat_lt (by decide))

theorem putNumber_eq (x : UInt32) (dot : Bool) (f : Filling) :
    f.putNumber x dot = f.putText ((if dot then [0x2E] else []) ++ decimal x) := by
  rw [Filling.putNumber, putDigits_eq (log_lt x), putText_append]
  cases f.putText (decimal x) with
  | none => rfl
  | some f => cases dot <;> rfl

/-- The text of the build and of the prerelease. -/
def suffixText (v : Version) : WString :=
  if v.prereleaseType ≠ .none then
    kindText v.prereleaseType ++
      (if v.prereleaseNumber ≠ 0 then 0x2E :: decimal v.prereleaseNumber else [])
  else []

def buildText (v : Version) : WString :=
  if v.build ≠ 0 then 0x2E :: decimal v.build else []

def versionText (v : Version) : WString :=
  decimal v.major ++ (0x2E :: decimal v.minor ++ (0x2E :: decimal v.patch ++
    (buildText v ++ suffixText v)))

theorem putPrerelease_eq (v : Version) (f : Filling) :
    f.putPrerelease v = f.putText (suffixText v) := by
  unfold Filling.putPrerelease suffixText
  split
  · rw [putText_append]
    split
    · rw [putNumber_eq]
      rfl
    · rfl
  · rfl

theorem putBuild_eq (v : Version) (f : Filling) : f.putBuild v = f.putText (buildText v) := by
  unfold Filling.putBuild buildText
  split
  · rw [putNumber_eq]
    rfl
  · rfl

theorem toChars_eq (v : Version) (length : Nat) :
    toChars v length = Filling.putText (versionText v) { room := length } := by
  have hdotted (x : UInt32) (f : Filling) : f.putNumber x true = f.putText (0x2E :: decimal x) :=
    putNumber_eq x true f
  have hfirst (x : UInt32) (f : Filling) : f.putNumber x false = f.putText (decimal x) :=
    putNumber_eq x false f
  unfold toChars versionText
  simp only [putText_append, putPrerelease_eq, putBuild_eq, hdotted, hfirst, Option.bind_eq_bind,
    Option.bind_assoc]

/-! ## What is measured -/

def SevenDigits (x : UInt32) : Prop :=
  10 ^ 6 ≤ x.toNat ∧ x.toNat < 10 ^ 7

instance (x : UInt32) : Decidable (SevenDigits x) :=
  inferInstanceAs (Decidable (_ ∧ _))

/-- A number is measured right, unless it has seven digits. -/
theorem numberLength_add (x : UInt32) :
    numberLength x + (if SevenDigits x then 1 else 0) = (decimal x).length := by
  have hbound := log_lt x
  have hlt (n : UInt32) : x < n ↔ x.toNat < n.toNat := UInt32.lt_iff_toNat_lt
  have hlog (k : Nat) (hk : k ≠ 0) : Nat.log 10 x.toNat < k ↔ x.toNat < 10 ^ k :=
    ⟨Nat.lt_pow_of_log_lt (by decide), Nat.log_lt_of_lt_pow' hk⟩
  have h1 := hlog 1 (by decide)
  have h2 := hlog 2 (by decide)
  have h3 := hlog 3 (by decide)
  have h4 := hlog 4 (by decide)
  have h5 := hlog 5 (by decide)
  have h6 := hlog 6 (by decide)
  have h7 := hlog 7 (by decide)
  have h8 := hlog 8 (by decide)
  have h9 := hlog 9 (by decide)
  have hlength : numberLength x =
      if x.toNat < 10 then 1 else if x.toNat < 100 then 2 else if x.toNat < 1000 then 3
      else if x.toNat < 10000 then 4 else if x.toNat < 100000 then 5
      else if x.toNat < 10000000 then 6 else if x.toNat < 10000000 then 7
      else if x.toNat < 100000000 then 8 else if x.toNat < 1000000000 then 9 else 10 := by
    simp only [numberLength, hlt]
    rfl
  rw [length_decimal, hlength]
  by_cases hseven : SevenDigits x
  · rw [if_pos hseven]
    unfold SevenDigits at hseven
    split_ifs <;> omega
  · rw [if_neg hseven]
    unfold SevenDigits at hseven
    split_ifs <;> omega

/-- The numbers in the text of a version. -/
def printed (v : Version) : List UInt32 :=
  [v.major, v.minor, v.patch] ++ (if v.build ≠ 0 then [v.build] else []) ++
    (if v.prereleaseType ≠ .none ∧ v.prereleaseNumber ≠ 0 then [v.prereleaseNumber] else [])

theorem length_kindText {kind : Prerelease} (h : kind ≠ .none) :
    (kindText kind).length = kindLength kind + 1 := by
  cases kind with
  | alpha => rfl
  | beta => rfl
  | rc => rfl
  | none => exact absurd rfl h

theorem length_buildText (v : Version) : (buildText v).length =
    (if v.build ≠ 0 then numberLength v.build + 1 else 0) +
      (if v.build ≠ 0 then [v.build] else []).countP (SevenDigits ·) := by
  unfold buildText
  split
  · rw [List.length_cons, ← numberLength_add, List.countP_singleton]
    simp only [decide_eq_true_eq]
    omega
  · rfl

theorem length_suffixText (v : Version) : (suffixText v).length =
    (if v.prereleaseType ≠ .none then
      kindLength v.prereleaseType + 1 +
        (if v.prereleaseNumber ≠ 0 then numberLength v.prereleaseNumber + 1 else 0)
    else 0) +
      (if v.prereleaseType ≠ .none ∧ v.prereleaseNumber ≠ 0 then
        [v.prereleaseNumber] else []).countP (SevenDigits ·) := by
  unfold suffixText
  by_cases hkind : v.prereleaseType = .none
  · simp [hkind]
  by_cases hnumber : v.prereleaseNumber = 0
  · simp [hkind, hnumber, length_kindText]
  · rw [if_pos hkind, if_pos hnumber, if_pos hkind, if_pos hnumber, if_pos ⟨hkind, hnumber⟩,
      List.length_append, length_kindText hkind, List.length_cons, ← numberLength_add,
      List.countP_singleton]
    simp only [decide_eq_true_eq]
    omega

/-- Each number of seven digits takes one place more than there is. -/
theorem stringLength_add (v : Version) :
    stringLength v + (printed v).countP (SevenDigits ·) = (versionText v).length := by
  have hmajor := numberLength_add v.major
  have hminor := numberLength_add v.minor
  have hpatch := numberLength_add v.patch
  have hbuild := length_buildText v
  have hsuffix := length_suffixText v
  unfold stringLength printed versionText
  simp only [List.length_append, List.length_cons, List.countP_append, List.countP_cons,
    List.countP_nil, decide_eq_true_eq, hbuild, hsuffix, ← hmajor, ← hminor, ← hpatch]
  omega

/-- The text of a version is written, unless one of its numbers has seven digits. -/
theorem makeStringVersion_eq (v : Version) : makeStringVersion v =
    if ∃ x ∈ printed v, SevenDigits x then none else some (versionText v) := by
  have hlength := stringLength_add v
  rw [makeStringVersion, toChars_eq, putText_eq]
  dsimp only
  by_cases hseven : ∃ x ∈ printed v, SevenDigits x
  · have hcount : 0 < (printed v).countP (SevenDigits ·) := by
      rw [List.countP_pos_iff]
      simpa using hseven
    rw [if_neg (by omega), if_pos hseven]
    rfl
  · have hcount : (printed v).countP (SevenDigits ·) = 0 := by
      rw [List.countP_eq_zero]
      simpa using hseven
    have hroom : stringLength v - (versionText v).length = 0 := by omega
    rw [if_pos (by omega), if_neg hseven, Option.map_some, hroom, List.append_nil]
    rfl

/-! ## What is read -/

theorem isDigit_digitChar {d : Nat} (h : d < 10) : isDigit (digitChar d) = true := by
  have hall : ∀ d < 10, isDigit (digitChar d) = true := by decide
  exact hall d h

/-- A text that does not go on with a digit. -/
def AfterNumber (text : WString) : Prop :=
  ∀ c, text.head? = some c → isDigit c = false

theorem digits_lt {x : UInt32} : ∀ d ∈ numeral 10 (Nat.log 10 x.toNat + 1) x.toNat, d < 10 :=
  fun _ hd => lt_of_mem_numeral (by decide) hd

theorem digitsValue_digitsText {ds : List Nat} (h : ∀ d ∈ ds, d < 10) :
    digitsValue (digitsText ds) = Int64.ofNat (numberOf 10 ds) := by
  unfold digitsValue digitsText numberOf
  rw [List.foldl_map]
  have hstart : (0 : Int64) = Int64.ofNat 0 := rfl
  rw [hstart]
  generalize 0 = n
  induction ds generalizing n with
  | nil => rfl
  | cons d ds ih =>
      have hd := h d List.mem_cons_self
      have hall : ∀ d < 10, (digitChar d - 0x30).toUInt64.toInt64 = Int64.ofNat d := by decide
      have hrest : ∀ e ∈ ds, e < 10 := fun e he => h e (List.mem_cons_of_mem _ he)
      rw [List.foldl_cons, List.foldl_cons, hall d hd, ← ih hrest]
      have hstep : Int64.ofNat n * 10 + Int64.ofNat d = Int64.ofNat (n * 10 + d) := by
        rw [Int64.ofNat_add, Int64.ofNat_mul]
        rfl
      rw [hstep]

theorem digitsValue_decimal (x : UInt32) : digitsValue (decimal x) = Int64.ofNat x.toNat := by
  rw [decimal, digitsValue_digitsText digits_lt,
    numberOf_numeral (Nat.lt_pow_succ_log_self (by decide) _)]

theorem isDigit_of_mem_decimal {x : UInt32} {c : WChar} (h : c ∈ decimal x) :
    isDigit c = true := by
  obtain ⟨d, hd, rfl⟩ := mem_digitsText h
  exact isDigit_digitChar (digits_lt d hd)

theorem decimal_ne_nil (x : UInt32) : decimal x ≠ [] := by
  rw [← List.length_pos_iff, length_decimal]
  exact Nat.succ_pos _

theorem numberFromChars_decimal (x : UInt32) {rest : WString} (h : AfterNumber rest) :
    numberFromChars (decimal x ++ rest) = some (x, rest) := by
  have hx : x.toNat < 2 ^ 32 := x.toNat_lt
  have htake : rest.takeWhile isDigit = [] := by
    cases rest with
    | nil => rfl
    | cons c rest => rw [List.takeWhile_cons, h c rfl]; rfl
  have hdrop : rest.dropWhile isDigit = rest := by
    cases rest with
    | nil => rfl
    | cons c rest => rw [List.dropWhile_cons, h c rfl]; rfl
  have hdigits : (decimal x ++ rest).takeWhile isDigit = decimal x := by
    rw [List.takeWhile_append_of_pos fun c hc => isDigit_of_mem_decimal hc, htake, List.append_nil]
  have hrest : (decimal x ++ rest).dropWhile isDigit = rest := by
    rw [List.dropWhile_append_of_pos fun c hc => isDigit_of_mem_decimal hc, hdrop]
  have hfits : Int64.ofNat x.toNat ≤ 0xFFFFFFFF := by
    rw [Int64.le_iff_toInt_le, Int64.toInt_ofNat_of_lt (by omega)]
    change (x.toNat : Int) ≤ 0xFFFFFFFF
    omega
  have hvalue : (Int64.ofNat x.toNat).toUInt64.toUInt32 = x := by
    rw [← UInt32.toNat_inj]
    simp
  unfold numberFromChars
  dsimp only
  rw [hdigits, hrest, digitsValue_decimal, if_pos hfits, hvalue, if_neg]
  rw [List.isEmpty_iff]
  exact decimal_ne_nil x

theorem afterNumber_nil : AfterNumber [] := by
  intro c hc
  cases hc

theorem afterNumber_dot (rest : WString) : AfterNumber (0x2E :: rest) := by
  intro c hc
  cases hc
  rfl

theorem afterNumber_suffixText (v : Version) : AfterNumber (suffixText v) := by
  unfold suffixText
  split
  · intro c hc
    cases hkind : v.prereleaseType with
    | none => exact absurd hkind ‹_›
    | alpha => rw [hkind] at hc; cases hc; rfl
    | beta => rw [hkind] at hc; cases hc; rfl
    | rc => rw [hkind] at hc; cases hc; rfl
  · exact afterNumber_nil

theorem behindDelimiter_dot (rest : WString) : behindDelimiter 0x2E (0x2E :: rest) = some rest := by
  rw [behindDelimiter, if_pos rfl]

/-- The prerelease that a text of a version names: a version without one has no number. -/
def withoutNumber (v : Version) : Version :=
  if v.prereleaseType = .none then { v with prereleaseNumber := 0 } else v

theorem equalsAsFar_append (literal rest : WString) :
    equalsAsFar (literal ++ rest) literal = true := by
  unfold equalsAsFar
  induction literal with
  | nil => simp
  | cons c literal ih =>
      rw [List.cons_append, List.zip_cons_cons, List.all_cons, ih]
      simp

theorem behind_append (literal rest : WString) : behind (literal ++ rest) literal = some rest := by
  rw [behind, if_pos (by simp), List.drop_left]

theorem prereleaseFromChars_kindText {kind : Prerelease} (h : kind ≠ .none) (rest : WString) :
    prereleaseFromChars (kindText kind ++ rest) = some (kind, some rest) := by
  unfold prereleaseFromChars
  cases kind with
  | none => exact absurd rfl h
  | alpha => rw [kindText, if_pos (equalsAsFar_append _ _), behind_append]
  | beta =>
      have halpha : equalsAsFar (wide "-beta" ++ rest) (wide "-alpha") = false := rfl
      rw [kindText, halpha, if_neg (by decide), if_pos (equalsAsFar_append _ _), behind_append]
  | rc =>
      have halpha : equalsAsFar (wide "-rc" ++ rest) (wide "-alpha") = false := rfl
      have hbeta : equalsAsFar (wide "-rc" ++ rest) (wide "-beta") = false := rfl
      rw [kindText, halpha, hbeta, if_neg (by decide), if_neg (by decide),
        if_pos (equalsAsFar_append _ _), behind_append]

theorem behindDelimiter_kindText {kind : Prerelease} (h : kind ≠ .none) (rest : WString) :
    ∃ next, behindDelimiter 0x2D (kindText kind ++ rest) = some next ∧
      behindDelimiter 0x2E (kindText kind ++ rest) = none := by
  cases kind with
  | none => exact absurd rfl h
  | alpha => exact ⟨_, rfl, rfl⟩
  | beta => exact ⟨_, rfl, rfl⟩
  | rc => exact ⟨_, rfl, rfl⟩

theorem suffixFromChars_suffixText (v w : Version) (hkind : w.prereleaseType = .none)
    (hnumber : w.prereleaseNumber = 0) :
    suffixFromChars w (suffixText v) =
      { w with prereleaseType := v.prereleaseType
               prereleaseNumber := (withoutNumber v).prereleaseNumber } := by
  unfold suffixText withoutNumber
  by_cases hnone : v.prereleaseType = .none
  · rw [if_neg (not_not.mpr hnone), if_pos hnone, hnone, ← hkind]
    dsimp only
    rw [← hnumber]
    rfl
  · obtain ⟨next, hdash, -⟩ := behindDelimiter_kindText hnone
      (if v.prereleaseNumber ≠ 0 then 0x2E :: decimal v.prereleaseNumber else [])
    rw [if_pos hnone, if_neg hnone, suffixFromChars, hdash, prereleaseFromChars_kindText hnone]
    by_cases hzero : v.prereleaseNumber = 0
    · rw [if_neg (not_not.mpr hzero), hzero]
      rfl
    · have hread := numberFromChars_decimal v.prereleaseNumber afterNumber_nil
      rw [List.append_nil] at hread
      rw [if_pos hzero]
      dsimp only
      rw [behindDelimiter_dot, Option.bind_some, hread]
      rfl

theorem behindDelimiter_suffixText (v : Version) : behindDelimiter 0x2E (suffixText v) = none := by
  unfold suffixText
  split
  · rename_i hkind
    obtain ⟨-, -, hdot⟩ := behindDelimiter_kindText hkind
      (if v.prereleaseNumber ≠ 0 then 0x2E :: decimal v.prereleaseNumber else [])
    exact hdot
  · rfl

/-- The text of a version is read back, but for the number of a prerelease that is none. -/
theorem fromChars_versionText (v : Version) : fromChars (versionText v) = withoutNumber v := by
  have hmajor := numberFromChars_decimal v.major (afterNumber_dot
    (decimal v.minor ++ (0x2E :: decimal v.patch ++ (buildText v ++ suffixText v))))
  have hminor := numberFromChars_decimal v.minor (afterNumber_dot
    (decimal v.patch ++ (buildText v ++ suffixText v)))
  have hsuffix (w : Version) := suffixFromChars_suffixText v w
  unfold fromChars versionText
  rw [List.cons_append, hmajor]
  dsimp only
  rw [behindDelimiter_dot]
  dsimp only
  rw [List.cons_append, hminor]
  dsimp only
  rw [behindDelimiter_dot]
  dsimp only
  by_cases hbuild : v.build = 0
  · have hempty : buildText v = [] := if_neg (not_not.mpr hbuild)
    rw [hempty, List.nil_append, numberFromChars_decimal v.patch (afterNumber_suffixText v)]
    dsimp only
    rw [behindDelimiter_suffixText]
    dsimp only
    rw [hsuffix _ rfl rfl]
    unfold withoutNumber
    split <;> simp [← hbuild]
  · have htext : buildText v = 0x2E :: decimal v.build := if_pos hbuild
    rw [htext, List.cons_append, numberFromChars_decimal v.patch (afterNumber_dot _)]
    dsimp only
    rw [behindDelimiter_dot]
    dsimp only
    rw [numberFromChars_decimal v.build (afterNumber_suffixText v)]
    dsimp only
    rw [hsuffix _ rfl rfl]
    unfold withoutNumber
    split <;> rfl

theorem slash_not_mem_decimal (x : UInt32) : (0x2F : WChar) ∉ decimal x :=
  not_mem_digitsText digits_lt (.inl (by decide))

theorem slash_not_mem_versionText (v : Version) : (0x2F : WChar) ∉ versionText v := by
  have hdotted (x : UInt32) : (0x2F : WChar) ∉ 0x2E :: decimal x := by
    rw [List.mem_cons, not_or]
    exact ⟨by decide, slash_not_mem_decimal x⟩
  have hkind : ∀ kind, (0x2F : WChar) ∉ kindText kind := by
    intro kind
    cases kind <;> decide
  unfold versionText buildText suffixText
  simp only [List.mem_append, not_or]
  refine ⟨slash_not_mem_decimal v.major, hdotted v.minor, hdotted v.patch, ?_, ?_⟩
  · split
    · exact hdotted v.build
    · exact List.not_mem_nil
  · split
    · rw [List.mem_append, not_or]
      refine ⟨hkind _, ?_⟩
      split
      · exact hdotted _
      · exact List.not_mem_nil
    · exact List.not_mem_nil

theorem ofText_versionText (v : Version) : ofText (versionText v) = withoutNumber v := by
  have hslash := slash_not_mem_versionText v
  obtain ⟨c, digits, hdigits⟩ := List.exists_cons_of_ne_nil (decimal_ne_nil v.major)
  have hc : isDigit c = true := isDigit_of_mem_decimal (by rw [hdigits]; exact List.mem_cons_self)
  have hplain : versionPrefix c = false := by
    unfold isDigit at hc
    unfold versionPrefix
    rw [Bool.and_eq_true, decide_eq_true_iff, decide_eq_true_iff] at hc
    have hlow : c ≤ 0x39 := hc.2
    rw [Bool.or_eq_false_iff, beq_eq_false_iff_ne, beq_eq_false_iff_ne]
    constructor
    · rintro rfl
      exact absurd hlow (by decide)
    · rintro rfl
      exact absurd hlow (by decide)
  rw [← fromChars_versionText]
  unfold versionText at hslash ⊢
  rw [hdigits, List.cons_append] at hslash ⊢
  rw [ofText]
  rw [hplain, if_neg Bool.false_ne_true, if_neg hslash]

/-- `make_string_version` gives a text that is read back as the same version exactly if no number
in it has seven digits, and the number of a prerelease stands for a prerelease. -/
theorem ofText_makeStringVersion_iff (v : Version) :
    (∃ text, makeStringVersion v = some text ∧ ofText text = v) ↔
      (∀ x ∈ printed v, ¬ SevenDigits x) ∧
        (v.prereleaseType = .none → v.prereleaseNumber = 0) := by
  have hsame : withoutNumber v = v ↔ (v.prereleaseType = .none → v.prereleaseNumber = 0) := by
    unfold withoutNumber
    constructor
    · intro h hkind
      rw [if_pos hkind] at h
      rw [← h]
    · intro h
      split
      · rename_i hkind
        rw [← h hkind]
      · rfl
  rw [makeStringVersion_eq, ← hsame]
  by_cases hseven : ∃ x ∈ printed v, SevenDigits x
  · rw [if_pos hseven]
    refine iff_of_false ?_ ?_
    · rintro ⟨text, htext, -⟩
      cases htext
    · rintro ⟨hnone, -⟩
      obtain ⟨x, hx, hdigits⟩ := hseven
      exact hnone x hx hdigits
  · rw [if_neg hseven]
    have hnone : ∀ x ∈ printed v, ¬ SevenDigits x :=
      fun x hx hdigits => hseven ⟨x, hx, hdigits⟩
    constructor
    · rintro ⟨text, htext, hread⟩
      cases htext
      exact ⟨hnone, (ofText_versionText v).symm.trans hread⟩
    · rintro ⟨-, hread⟩
      exact ⟨versionText v, rfl, (ofText_versionText v).trans hread⟩

end Baulk.Version
