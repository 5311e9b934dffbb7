import Baulk.Core.Wide
import Mathlib.Tactic.Common

/-!
# Version numbers

`bela::version` reads as much of a text as it understands and leaves the other
numbers at zero: the constructor does not tell whether the whole text was a
version.  Two versions are compared by the difference of their first numbers
that are not equal.  The difference is taken modulo `2 ^ 32` and read as a
signed number, which is the order of versions as long as the numbers are below
`2 ^ 31`.
-/

namespace Baulk

/-- `bela::semver::prerelease`. -/
inductive Prerelease where
  | alpha
  | beta
  | rc
  | none
  deriving DecidableEq, Repr

def Prerelease.value : Prerelease → UInt32
  | .alpha => 0
  | .beta => 1
  | .rc => 2
  | .none => 3

/-- `bela::version`. -/
structure Version where
  major : UInt32 := 0
  minor : UInt32 := 0
  patch : UInt32 := 0
  build : UInt32 := 0
  prereleaseType : Prerelease := .none
  prereleaseNumber : UInt32 := 0
  deriving DecidableEq, Repr

namespace Version

/-! ## Reading a version -/

def isDigit (c : WChar) : Bool :=
  0x30 ≤ c && c ≤ 0x39

/-- The digits of a number, in the type the sources add them up in. -/
def digitsValue (digits : WString) : Int64 :=
  digits.foldl (fun t c => t * 10 + (c - 0x30).toUInt64.toInt64) 0

/-- `from_chars` for a number: the number and the text behind it. -/
def numberFromChars (text : WString) : Option (UInt32 × WString) :=
  let digits := text.takeWhile isDigit
  if digits.isEmpty then none
  else if digitsValue digits ≤ 0xFFFFFFFF then
    some ((digitsValue digits).toUInt64.toUInt32, text.dropWhile isDigit)
  else none

/-- `equals` compares as far as both texts go. -/
def equalsAsFar (text literal : WString) : Bool :=
  (text.zip literal).all fun pair =>
    asciiToLower pair.1 == asciiToLower pair.2

/-- The text behind a literal; there is none if the literal ends behind the
text. -/
def behind (text literal : WString) : Option WString :=
  if literal.length ≤ text.length then some (text.drop literal.length)
  else none

/-- `from_chars` for the kind of a prerelease. -/
def prereleaseFromChars (text : WString) :
    Option (Prerelease × Option WString) :=
  if equalsAsFar text (wide "-alpha") then
    some (.alpha, behind text (wide "-alpha"))
  else if equalsAsFar text (wide "-beta") then
    some (.beta, behind text (wide "-beta"))
  else if equalsAsFar text (wide "-rc") then
    some (.rc, behind text (wide "-rc"))
  else none

/-- The text behind a delimiter that stands here. -/
def behindDelimiter (d : WChar) : WString → Option WString
  | c :: rest => if c = d then some rest else none
  | [] => none

/-- The end of a version, from a `-` on.  Where the kind of the prerelease is
cut short, `from_chars` reads on behind the text and finds no delimiter
there. -/
def suffixFromChars (v : Version) (next : WString) : Version :=
  if (behindDelimiter 0x2D next).isNone then v
  else
    match prereleaseFromChars next with
    | none => v
    | some (kind, none) => { v with prereleaseType := kind }
    | some (kind, some next) =>
        let v := { v with prereleaseType := kind }
        if next.isEmpty then { v with prereleaseNumber := 0 }
        else
          match (behindDelimiter 0x2E next).bind numberFromChars with
          | none => v
          | some (number, _) => { v with prereleaseNumber := number }

def fromChars (text : WString) : Version :=
  match numberFromChars text with
  | none => {}
  | some (major, next) =>
      let v : Version := { major }
      match behindDelimiter 0x2E next with
      | none => v
      | some next =>
          match numberFromChars next with
          | none => v
          | some (minor, next) =>
              let v := { v with minor }
              match behindDelimiter 0x2E next with
              | none => suffixFromChars v next
              | some next =>
                  match numberFromChars next with
                  | none => v
                  | some (patch, next) =>
                      let v := { v with patch }
                      match behindDelimiter 0x2E next with
                      | none => suffixFromChars v next
                      | some next =>
                          match numberFromChars next with
                          | none => v
                          | some (build, next) =>
                              suffixFromChars { v with build } next

def versionPrefix (c : WChar) : Bool :=
  c == 0x76 || c == 0x56

/-- `from_string_noexcept`, which is what the constructor calls. -/
def ofText (text : WString) : Version :=
  let text :=
    match text with
    | c :: rest => if versionPrefix c then rest else c :: rest
    | [] => []
  fromChars (if (0x2F : WChar) ∈ text then (text.dropWhile (· ≠ 0x2F)).tail
    else text)

example : ofText (wide "v7.8.1-rc.1") =
    { major := 7, minor := 8, patch := 1, prereleaseType := .rc
      prereleaseNumber := 1 } := by
  decide

/-! ## Comparing versions -/

/-- A difference of two numbers, read as an `int`. -/
def difference (a b : UInt32) : Int :=
  (a - b).toInt32.toInt

def compare (v w : Version) : Int :=
  if v.major ≠ w.major then difference v.major w.major
  else if v.minor ≠ w.minor then difference v.minor w.minor
  else if v.patch ≠ w.patch then difference v.patch w.patch
  else if v.build ≠ w.build then difference v.build w.build
  else if v.prereleaseType ≠ w.prereleaseType then
    difference v.prereleaseType.value w.prereleaseType.value
  else if v.prereleaseNumber ≠ w.prereleaseNumber then
    difference v.prereleaseNumber w.prereleaseNumber
  else 0

/-- The numbers of a version, in the order in which they count. -/
def numbers (v : Version) : List UInt32 :=
  [v.major, v.minor, v.patch, v.build, v.prereleaseType.value,
    v.prereleaseNumber]

def firstDifference : List UInt32 → List UInt32 → Int
  | a :: as, b :: bs => if a ≠ b then difference a b else firstDifference as bs
  | _, _ => 0

theorem value_inj {p q : Prerelease} : p.value = q.value ↔ p = q := by
  cases p <;> cases q <;> decide

theorem numbers_inj {v w : Version} : v.numbers = w.numbers ↔ v = w := by
  constructor
  · intro h
    simp only [numbers, List.cons.injEq, and_true, value_inj] at h
    cases v
    cases w
    simp_all
  · rintro rfl
    rfl

theorem compare_eq_firstDifference (v w : Version) :
    compare v w = firstDifference v.numbers w.numbers := by
  simp only [compare, numbers, firstDifference, ne_eq, value_inj]

/-- The difference wraps around at `2 ^ 31`. -/
theorem difference_eq (a b : UInt32) :
    difference a b =
      if 2 * ((2 ^ 32 - b.toNat + a.toNat) % 2 ^ 32) < 2 ^ 32 then
        (((2 ^ 32 - b.toNat + a.toNat) % 2 ^ 32 : Nat) : Int)
      else (((2 ^ 32 - b.toNat + a.toNat) % 2 ^ 32 : Nat) : Int) - 2 ^ 32 := by
  rw [← UInt32.toNat_sub]
  rfl

theorem difference_eq_zero_iff {a b : UInt32} : difference a b = 0 ↔ a = b := by
  have ha := a.toNat_lt
  have hb := b.toNat_lt
  rw [difference_eq, ← UInt32.toNat_inj]
  split <;> omega

/-- Of two differences of the same numbers at most one is positive. -/
theorem difference_asymm {a b : UInt32} (h : 0 < difference a b) :
    difference b a < 0 := by
  have ha := a.toNat_lt
  have hb := b.toNat_lt
  rw [difference_eq] at h ⊢
  split at h <;> split <;> omega

theorem difference_of_lt {a b : UInt32} (ha : a.toNat < 0x80000000)
    (hb : b.toNat < 0x80000000) :
    difference a b = (a.toNat : Int) - b.toNat := by
  rw [difference_eq]
  split <;> omega

theorem firstDifference_self (as : List UInt32) :
    firstDifference as as = 0 := by
  induction as with
  | nil => rfl
  | cons a as ih => simpa [firstDifference] using ih

theorem firstDifference_eq_zero_iff {as bs : List UInt32}
    (hlength : as.length = bs.length) :
    firstDifference as bs = 0 ↔ as = bs := by
  constructor
  · intro h
    induction as generalizing bs with
    | nil => exact (List.eq_nil_of_length_eq_zero hlength.symm).symm
    | cons a as ih =>
        cases bs with
        | nil => cases hlength
        | cons b bs =>
            rw [firstDifference] at h
            split at h
            · rename_i hne
              exact absurd (difference_eq_zero_iff.mp h) hne
            · rename_i heq
              rw [not_not.mp heq, ih (Nat.succ.inj hlength) h]
  · rintro rfl
    exact firstDifference_self as

theorem firstDifference_asymm {as bs : List UInt32}
    (h : 0 < firstDifference as bs) : firstDifference bs as < 0 := by
  induction as generalizing bs with
  | nil => simp [firstDifference] at h
  | cons a as ih =>
      cases bs with
      | nil => simp [firstDifference] at h
      | cons b bs =>
          rw [firstDifference] at h ⊢
          by_cases hab : a = b
          · rw [if_neg (by simpa using hab)] at h
            rw [if_neg (by simpa using hab.symm)]
            exact ih h
          · rw [if_pos hab] at h
            rw [if_pos (Ne.symm hab)]
            exact difference_asymm h

theorem compare_eq_zero_iff {v w : Version} : compare v w = 0 ↔ v = w := by
  have hlength : v.numbers.length = w.numbers.length := rfl
  rw [compare_eq_firstDifference, firstDifference_eq_zero_iff hlength,
    numbers_inj]

theorem compare_asymm {v w : Version} (h : 0 < compare v w) :
    compare w v < 0 := by
  rw [compare_eq_firstDifference] at h ⊢
  exact firstDifference_asymm h

/-! ## Where the comparison is an order -/

/-- The comparison is a total order on some versions. -/
structure TotalOn (s : Version → Prop) : Prop where
  flip : ∀ v w, s v → s w → compare v w < 0 → 0 < compare w v
  trans : ∀ u v w, s u → s v → s w → 0 < compare u v → 0 < compare v w →
    0 < compare u w

/-- All numbers of a version are below `2 ^ 31`. -/
def Small (v : Version) : Prop :=
  ∀ a ∈ v.numbers, a.toNat < 0x80000000

instance (v : Version) : Decidable v.Small :=
  List.decidableBAll (fun a : UInt32 => a.toNat < 0x80000000) v.numbers

theorem firstDifference_flip {as bs : List UInt32}
    (has : ∀ a ∈ as, a.toNat < 0x80000000)
    (hbs : ∀ b ∈ bs, b.toNat < 0x80000000)
    (h : firstDifference as bs < 0) : 0 < firstDifference bs as := by
  induction as generalizing bs with
  | nil => simp [firstDifference] at h
  | cons a as ih =>
      cases bs with
      | nil => simp [firstDifference] at h
      | cons b bs =>
          rw [List.forall_mem_cons] at has hbs
          rw [firstDifference] at h ⊢
          by_cases hab : a = b
          · rw [if_neg (by simpa using hab)] at h
            rw [if_neg (by simpa using hab.symm)]
            exact ih has.2 hbs.2 h
          · rw [if_pos hab, difference_of_lt has.1 hbs.1] at h
            rw [if_pos (Ne.symm hab), difference_of_lt hbs.1 has.1]
            omega

theorem firstDifference_trans {as bs cs : List UInt32}
    (has : ∀ a ∈ as, a.toNat < 0x80000000)
    (hbs : ∀ b ∈ bs, b.toNat < 0x80000000)
    (hcs : ∀ c ∈ cs, c.toNat < 0x80000000) (hab : 0 < firstDifference as bs)
    (hbc : 0 < firstDifference bs cs) : 0 < firstDifference as cs := by
  induction as generalizing bs cs with
  | nil => simp [firstDifference] at hab
  | cons a as ih =>
      cases bs with
      | nil => simp [firstDifference] at hab
      | cons b bs =>
          cases cs with
          | nil => simp [firstDifference] at hbc
          | cons c cs =>
              rw [List.forall_mem_cons] at has hbs hcs
              rw [firstDifference] at hab hbc ⊢
              rw [difference_of_lt has.1 hbs.1] at hab
              rw [difference_of_lt hbs.1 hcs.1] at hbc
              rw [difference_of_lt has.1 hcs.1]
              simp only [ne_eq, ← UInt32.toNat_inj] at hab hbc ⊢
              split at hab
              · split at hbc
                · rw [if_pos (by omega)]
                  omega
                · rw [if_pos (by omega)]
                  omega
              · split at hbc
                · rw [if_pos (by omega)]
                  omega
                · rw [if_neg (by omega)]
                  exact ih has.2 hbs.2 hcs.2 hab hbc

theorem totalOn_small : TotalOn Small where
  flip v w hv hw h := by
    rw [compare_eq_firstDifference] at h ⊢
    exact firstDifference_flip hv hw h
  trans u v w hu hv hw huv hvw := by
    rw [compare_eq_firstDifference] at huv hvw ⊢
    exact firstDifference_trans hu hv hw huv hvw

theorem TotalOn.mono {s t : Version → Prop} (h : TotalOn t)
    (hst : ∀ v, s v → t v) : TotalOn s where
  flip v w hv hw := h.flip v w (hst v hv) (hst w hw)
  trans u v w hu hv hw := h.trans u v w (hst u hu) (hst v hv) (hst w hw)

end Version

end Baulk
