import Baulk.Support.Numeral
import Baulk.Tar.Format
import Mathlib.Data.List.TakeWhile
import Mathlib.Data.Nat.Log

/-!
# Numbers at the front of a text

`std::from_chars` reads a minus sign and a run of digits, and does not mind what
stands behind them.  A text has one such number at most.
-/

namespace Baulk.Tar

open Support (numberOf numberOf_numeral numeral length_numeral lt_of_mem_numeral)

variable {base : Nat}

/-- A digit of a base up to ten. -/
def IsDigit (base : Nat) (c : UInt8) : Prop :=
  0x30 ≤ c.toNat ∧ c.toNat < 0x30 + base

/-- The test for digits in `std::from_chars`. -/
def isDigit (base : Nat) (c : UInt8) : Bool :=
  decide (0x30 ≤ c.toNat ∧ c.toNat < 0x30 + base)

theorem isDigit_def : isDigit base =
    fun c => decide (0x30 ≤ c.toNat ∧ c.toNat < 0x30 + base) := rfl

theorem isDigit_eq_true {c : UInt8} : isDigit base c = true ↔ IsDigit base c :=
  decide_eq_true_iff

/-- The number that digits stand for. -/
def digitsValue (base : Nat) (ds : Bytes) : Nat :=
  numberOf base (ds.map fun c => c.toNat - 0x30)

theorem not_isDigit_of_head_nil : ∀ c, ([] : Bytes).head? = some c → ¬ IsDigit 10 c := by
  intro c hc
  cases hc

/-- A run of digits that is as long as it can be, and what stands behind it. -/
structure DigitRun (base : Nat) where
  digits : Bytes
  junk : Bytes
  digits_ne : digits ≠ []
  digits_valid : ∀ c ∈ digits, IsDigit base c
  junk_valid : ∀ c, junk.head? = some c → ¬ IsDigit base c

namespace DigitRun

def text (r : DigitRun base) : Bytes :=
  r.digits ++ r.junk

def value (r : DigitRun base) : Nat :=
  digitsValue base r.digits

theorem takeWhile_text (r : DigitRun base) :
    r.text.takeWhile (isDigit base) = r.digits := by
  have hrun : ∀ c ∈ r.digits, isDigit base c = true :=
    fun c hc => isDigit_eq_true.mpr (r.digits_valid c hc)
  rw [text, List.takeWhile_append_of_pos hrun]
  cases hjunk : r.junk with
  | nil => rw [List.takeWhile_nil, List.append_nil]
  | cons c rest =>
      have hend : ¬ IsDigit base c := r.junk_valid c (by rw [hjunk, List.head?_cons])
      rw [List.takeWhile_cons_of_neg (by rwa [isDigit_eq_true]), List.append_nil]

theorem text_injective {r r' : DigitRun base} (h : r.text = r'.text) : r = r' := by
  have hdigits : r.digits = r'.digits := by
    rw [← takeWhile_text r, h, takeWhile_text]
  have hjunk : r.junk = r'.junk := by
    unfold text at h
    rw [hdigits] at h
    exact List.append_cancel_left h
  cases r
  cases r'
  cases hdigits
  cases hjunk
  rfl

theorem head_text (r : DigitRun base) : r.text.head? ≠ some 0x2D := by
  intro hhead
  have hne := r.digits_ne
  have hvalid := r.digits_valid
  unfold text at hhead
  cases hd : r.digits with
  | nil => exact hne hd
  | cons c ds =>
      rw [hd, List.cons_append, List.head?_cons] at hhead
      have hc := (hvalid c (hd ▸ List.mem_cons_self)).1
      rw [Option.some.inj hhead] at hc
      exact absurd hc (by decide)

/-- The run of digits at the front of a text, if there is a digit. -/
def ofText (p : Bytes) (h : p.takeWhile (isDigit base) ≠ []) : DigitRun base where
  digits := p.takeWhile (isDigit base)
  junk := p.dropWhile (isDigit base)
  digits_ne := h
  digits_valid := fun _ hc => isDigit_eq_true.mp (List.mem_takeWhile_imp hc)
  junk_valid := fun c hc hdigit => by
    have hnot := List.head?_dropWhile_not (isDigit base) p
    rw [hc] at hnot
    have hfalse : isDigit base c = false := by simpa using hnot
    rw [isDigit_eq_true.mpr hdigit] at hfalse
    cases hfalse

theorem text_ofText (p : Bytes) (h : p.takeWhile (isDigit base) ≠ []) :
    (ofText p h).text = p := by
  unfold text ofText
  exact List.takeWhile_append_dropWhile

end DigitRun

/-- A number as `std::from_chars` reads it. -/
structure LeadingNumber (base : Nat) where
  negative : Bool
  run : DigitRun base

namespace LeadingNumber

def text (t : LeadingNumber base) : Bytes :=
  if t.negative then 0x2D :: t.run.text else t.run.text

def value (t : LeadingNumber base) : Int :=
  if t.negative then -t.run.value else t.run.value

end LeadingNumber

/-- What `std::from_chars` makes of a text with a number at its front. -/
theorem fromChars_text (t : LeadingNumber base) (lo hi : Int) :
    fromChars base lo hi t.text =
      if lo ≤ t.value ∧ t.value ≤ hi then some t.value else none := by
  have hsign : (t.text.head? == some 0x2D) = t.negative := by
    unfold LeadingNumber.text
    cases t.negative with
    | false =>
        rw [if_neg Bool.false_ne_true, beq_eq_false_iff_ne]
        exact t.run.head_text
    | true => rfl
  have hrest : (if t.negative = true then t.text.drop 1 else t.text) = t.run.text := by
    unfold LeadingNumber.text
    split <;> rfl
  have hvalue : t.run.digits.foldl (fun n c => n * base + (c.toNat - 0x30)) 0 =
      t.run.value := by
    unfold DigitRun.value digitsValue numberOf
    rw [List.foldl_map]
  have hne : t.run.digits.isEmpty = false :=
    List.isEmpty_eq_false_iff.mpr t.run.digits_ne
  unfold fromChars
  simp only [← isDigit_def, hsign, hrest, DigitRun.takeWhile_text, hvalue, hne, Bool.false_eq_true,
    if_false]
  rfl

theorem exists_leadingNumber {lo hi v : Int} {p : Bytes}
    (h : fromChars base lo hi p = some v) :
    ∃ t : LeadingNumber base, t.text = p ∧ t.value = v ∧ lo ≤ v ∧ v ≤ hi := by
  have hread : ∀ t : LeadingNumber base, t.text = p →
      t.text = p ∧ t.value = v ∧ lo ≤ v ∧ v ≤ hi := by
    intro t ht
    rw [← ht, fromChars_text] at h
    split at h
    · next hrange =>
      cases h
      exact ⟨ht, rfl, hrange⟩
    · cases h
  have hdigits : (if p.head? == some 0x2D then p.drop 1 else p).takeWhile
      (isDigit base) ≠ [] := by
    intro hempty
    rw [isDigit_def] at hempty
    unfold fromChars at h
    dsimp only at h
    rw [hempty] at h
    cases h
  cases hsign : (p.head? == some 0x2D) with
  | false =>
      rw [hsign, if_neg Bool.false_ne_true] at hdigits
      refine ⟨⟨false, .ofText p hdigits⟩, hread _ ?_⟩
      exact DigitRun.text_ofText p hdigits
  | true =>
      rw [hsign, if_pos rfl] at hdigits
      refine ⟨⟨true, .ofText (p.drop 1) hdigits⟩, hread _ ?_⟩
      change 0x2D :: (DigitRun.ofText (p.drop 1) hdigits).text = p
      rw [DigitRun.text_ofText]
      cases p with
      | nil => cases hsign
      | cons c p =>
          rw [List.head?_cons, beq_iff_eq] at hsign
          rw [Option.some.inj hsign, List.drop_succ_cons, List.drop_zero]

/-! ## Decimal texts -/

/-- The decimal text of a number, as `%d` writes it. -/
def decimalText (n : Nat) : Bytes :=
  (numeral 10 (Nat.log 10 n + 1) n).map fun d => UInt8.ofNat (0x30 + d)

theorem length_decimalText (n : Nat) : (decimalText n).length = Nat.log 10 n + 1 := by
  rw [decimalText, List.length_map, length_numeral]

theorem isDigit_of_mem_decimalText {n : Nat} {c : UInt8} (h : c ∈ decimalText n) :
    IsDigit 10 c := by
  obtain ⟨d, hd, rfl⟩ := List.mem_map.mp h
  have hlt := lt_of_mem_numeral (by decide) hd
  unfold IsDigit
  rw [UInt8.toNat_ofNat_of_lt' (by change _ < 256; omega)]
  omega

theorem digitsValue_decimalText (n : Nat) : digitsValue 10 (decimalText n) = n := by
  have hmap : (decimalText n).map (fun c => c.toNat - 0x30) =
      numeral 10 (Nat.log 10 n + 1) n := by
    rw [decimalText, List.map_map]
    refine (List.map_congr_left fun d hd => ?_).trans (List.map_id _)
    have hlt := lt_of_mem_numeral (by decide) hd
    change (UInt8.ofNat (0x30 + d)).toNat - 0x30 = d
    rw [UInt8.toNat_ofNat_of_lt' (by change _ < 256; omega)]
    omega
  rw [digitsValue, hmap]
  exact numberOf_numeral (Nat.lt_pow_succ_log_self (by decide) n)

end Baulk.Tar
