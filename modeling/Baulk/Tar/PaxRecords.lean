import Baulk.Support.Cut
import Baulk.Tar.Decimal
import Baulk.Tar.FileReader
import Baulk.Tar.Pax

/-!
# Sequences of PAX records

The length of a record counts its own digits.  It is read with
`std::from_chars`, which stops at the first byte that is no digit, and that byte
need not be the space behind the length.
-/

namespace Baulk.Tar

open Support (cut_cases cut_unique findIdx?_append_cons findIdx?_eq_none_iff_not_mem)

/-! ## Records -/

/-- `length key=value\n`. -/
def recordText (length key value : Bytes) : Bytes :=
  length ++ 0x20 :: (key ++ 0x3D :: (value ++ [0x0A]))

/-- A record whose length begins with the number of its bytes. -/
structure PaxRecord where
  run : DigitRun 10
  key : Bytes
  value : Bytes
  space_free : 0x20 ∉ run.junk
  valid : validPAXRecord key value = true
  length_eq : run.value = (recordText run.text key value).length

namespace PaxRecord

def text (r : PaxRecord) : Bytes :=
  recordText r.run.text r.key r.value

/-- What a call returns: the key, the value, and the number of bytes consumed. -/
def call (r : PaxRecord) : Bytes × Bytes × Nat :=
  (r.key, r.value, r.text.length)

/-- The length is a plain decimal number. -/
def IsPlain (r : PaxRecord) : Prop :=
  r.run.junk = []

/-- The length fits in an `int`. -/
def IsShort (r : PaxRecord) : Prop :=
  r.text.length < 2 ^ 31

theorem space_not_mem (r : PaxRecord) : 0x20 ∉ r.run.text := by
  rw [DigitRun.text, List.mem_append, not_or]
  refine ⟨fun hmem => ?_, r.space_free⟩
  exact absurd (r.run.digits_valid _ hmem).1 (by decide)

theorem equals_not_mem (r : PaxRecord) : 0x3D ∉ r.key := by
  intro hmem
  have hvalid := r.valid
  have hcontains : (r.key.isEmpty || r.key.contains 0x3D) = true := by
    rw [List.contains_iff_mem.mpr hmem, Bool.or_true]
  unfold validPAXRecord at hvalid
  rw [if_pos hcontains] at hvalid
  cases hvalid

theorem text_ne_nil (r : PaxRecord) : r.text ≠ [] := by
  unfold text recordText
  simp

theorem text_append_injective {r r' : PaxRecord} {rest rest' : Bytes}
    (h : r.text ++ rest = r'.text ++ rest') : r = r' ∧ rest = rest' := by
  have hcut : r.run.text = r'.run.text ∧
      (r.key ++ 0x3D :: (r.value ++ [0x0A])) ++ rest =
        (r'.key ++ 0x3D :: (r'.value ++ [0x0A])) ++ rest' := by
    refine cut_unique r.space_not_mem r'.space_not_mem ?_
    simpa only [text, recordText, List.append_assoc, List.cons_append] using h
  have hrun := DigitRun.text_injective hcut.1
  have hlen : r.text.length = r'.text.length := by
    have h₁ := r.length_eq
    have h₂ := r'.length_eq
    rw [← hrun] at h₂
    unfold text
    rw [← h₁, ← hrun, ← h₂]
  obtain ⟨htext, hrest⟩ := List.append_inj h hlen
  refine ⟨?_, hrest⟩
  have hbody := (cut_unique r.space_not_mem r'.space_not_mem htext).2
  obtain ⟨hkey, hvalue⟩ := cut_unique r.equals_not_mem r'.equals_not_mem hbody
  have hvalue := List.append_cancel_right hvalue
  cases r
  cases r'
  cases hrun
  cases hkey
  cases hvalue
  rfl

end PaxRecord

/-! ## One record -/

theorem parsePAXRecord_text (rt : Runtime) {r : PaxRecord} (hshort : r.IsShort)
    (rest : Bytes) :
    parsePAXRecord rt (r.text ++ rest) = .ok (r.key, r.value, rest) := by
  have hlength := r.length_eq
  have htotal : r.text.length =
      r.run.text.length + (r.key.length + r.value.length + 3) := by
    unfold PaxRecord.text recordText
    simp only [List.length_append, List.length_cons, List.length_nil]
    omega
  have hsplit : r.text ++ rest = r.run.text ++
      0x20 :: ((r.key ++ 0x3D :: r.value) ++ [0x0A] ++ rest) := by
    unfold PaxRecord.text recordText
    simp only [List.append_assoc, List.cons_append]
  have hpos : (r.text ++ rest).findIdx? (· == 0x20) = some r.run.text.length := by
    rw [hsplit, findIdx?_append_cons r.space_not_mem]
  have htake : (r.text ++ rest).take r.run.text.length = r.run.text := by
    rw [hsplit, List.take_left]
  have hnumber : fromCharsInt r.run.text = some (r.text.length : Int) := by
    have hread := fromChars_text ⟨false, r.run⟩ (-2 ^ 31) (2 ^ 31 - 1)
    have hvalue : (LeadingNumber.value ⟨false, r.run⟩) = (r.text.length : Int) := by
      change ((r.run.value : Nat) : Int) = _
      rw [hlength]
      rfl
    unfold PaxRecord.IsShort at hshort
    rw [hvalue, if_pos (by omega)] at hread
    exact hread
  have hbody : ((r.text ++ rest).drop (r.run.text.length + 1)).take
      (r.text.length - r.run.text.length - 1) = (r.key ++ 0x3D :: r.value) ++ [0x0A] := by
    have hlen : r.text.length - r.run.text.length - 1 =
        ((r.key ++ 0x3D :: r.value) ++ [0x0A]).length := by
      simp only [List.length_append, List.length_cons, List.length_nil]
      omega
    rw [hlen, hsplit, List.drop_append, List.drop_eq_nil_of_le (by omega),
      Nat.add_sub_cancel_left, List.nil_append, List.drop_succ_cons, List.drop_zero,
      List.take_left]
  have hrest : (r.text ++ rest).drop r.text.length = rest := List.drop_left
  unfold parsePAXRecord
  simp only [hpos, htake, hnumber, Int.toNat_natCast, hbody, hrest]
  rw [if_neg (by rw [List.length_append]; omega), if_neg (by omega),
    if_neg (by rw [List.getLast?_concat]; exact fun hne => hne rfl), List.dropLast_concat,
    findIdx?_append_cons r.equals_not_mem]
  have hkey : (r.key ++ 0x3D :: r.value).take r.key.length = r.key := List.take_left
  have hvalue : (r.key ++ 0x3D :: r.value).drop (r.key.length + 1) = r.value := by
    rw [List.drop_append, List.drop_eq_nil_of_le (by omega), Nat.add_sub_cancel_left,
      List.nil_append, List.drop_succ_cons, List.drop_zero]
  simp only [hkey, hvalue, r.valid, Bool.not_true, Bool.false_eq_true, if_false]

theorem exists_paxRecord {rt : Runtime} {sv k v rest : Bytes}
    (h : parsePAXRecord rt sv = .ok (k, v, rest)) :
    ∃ r : PaxRecord, r.IsShort ∧ sv = r.text ++ rest ∧ r.key = k ∧ r.value = v := by
  obtain hnone | ⟨lead, body, rfl, hlead⟩ := cut_cases sv 0x20
  · unfold parsePAXRecord at h
    rw [findIdx?_eq_none_iff_not_mem.mpr hnone] at h
    cases h
  have htake : (lead ++ 0x20 :: body).take lead.length = lead := List.take_left
  have hdrop : (lead ++ 0x20 :: body).drop (lead.length + 1) = body := by
    rw [List.drop_append, List.drop_eq_nil_of_le (by omega), Nat.add_sub_cancel_left,
      List.nil_append, List.drop_succ_cons, List.drop_zero]
  unfold parsePAXRecord at h
  rw [findIdx?_append_cons hlead] at h
  simp only [htake, hdrop] at h
  cases hnumber : fromCharsInt lead with
  | none =>
      rw [hnumber] at h
      cases h
  | some n =>
      obtain ⟨t, rfl, hvalue, -, hhigh⟩ := exists_leadingNumber hnumber
      rw [hnumber] at h
      dsimp only at h
      by_cases hrange : n < 0 ∨ ((t.text ++ 0x20 :: body).length : Int) < n
      · rw [if_pos hrange] at h
        cases h
      rw [if_neg hrange] at h
      by_cases hpos : n.toNat ≤ t.text.length
      · rw [if_pos hpos] at h
        cases h
      rw [if_neg hpos] at h
      by_cases hlast : (body.take (n.toNat - t.text.length - 1)).getLast? ≠ some 0x0A
      · rw [if_pos hlast] at h
        cases h
      rw [if_neg hlast] at h
      obtain ⟨pair, hpair⟩ := List.getLast?_eq_some_iff.mp (not_not.mp hlast)
      rw [hpair, List.dropLast_concat] at h
      obtain hnone | ⟨key, value, rfl, hkey⟩ := cut_cases pair 0x3D
      · rw [findIdx?_eq_none_iff_not_mem.mpr hnone] at h
        cases h
      have hkeyTake : (key ++ 0x3D :: value).take key.length = key := List.take_left
      have hvalueDrop : (key ++ 0x3D :: value).drop (key.length + 1) = value := by
        rw [List.drop_append, List.drop_eq_nil_of_le (by omega), Nat.add_sub_cancel_left,
          List.nil_append, List.drop_succ_cons, List.drop_zero]
      rw [findIdx?_append_cons hkey] at h
      dsimp only at h
      rw [hkeyTake, hvalueDrop] at h
      by_cases hvalid : validPAXRecord key value = true
      · rw [hvalid] at h
        cases h
        have hsign : t.negative = false := by
          by_contra hneg
          rw [Bool.not_eq_false] at hneg
          unfold LeadingNumber.value at hvalue
          rw [if_pos hneg] at hvalue
          omega
        have htext : t.text = t.run.text := by
          rw [LeadingNumber.text, if_neg (by rw [hsign]; exact Bool.false_ne_true)]
        have hrun : (t.run.value : Int) = n := by
          rw [← hvalue, LeadingNumber.value,
            if_neg (by rw [hsign]; exact Bool.false_ne_true)]
        have hbody : (k ++ 0x3D :: v ++ [0x0A]).length =
            n.toNat - t.text.length - 1 := by
          rw [← hpair, List.length_take]
          rw [List.length_append, List.length_cons] at hrange
          omega
        have hlength : t.run.value = (recordText t.run.text k v).length := by
          unfold recordText
          rw [← htext, List.length_append, List.length_cons, ← List.cons_append,
            ← List.append_assoc, hbody]
          omega
        rw [htext, DigitRun.text, List.mem_append, not_or] at hlead
        refine ⟨⟨t.run, k, v, hlead.2, hvalid, hlength⟩, ?_, ?_, rfl, rfl⟩
        · change (recordText t.run.text k v).length < 2 ^ 31
          omega
        · have hrest : (t.text ++ 0x20 :: body).drop n.toNat =
              body.drop (n.toNat - t.text.length - 1) := by
            conv_rhs => rw [← hdrop, List.drop_drop]
            congr 1
            omega
          rw [hrest]
          conv_lhs => rw [← List.take_append_drop (n.toNat - t.text.length - 1) body, hpair]
          unfold PaxRecord.text recordText
          rw [htext]
          simp only [List.append_assoc, List.cons_append]
      · rw [Bool.eq_false_of_not_eq_true hvalid] at h
        cases h

/-! ## Repeated calls -/

/-- Call `parsePAXRecord` until nothing is left: the key, the value and the number
of bytes consumed of every call.  The first argument bounds the number of calls. -/
def repeatPAXRecord (rt : Runtime) : Nat → Bytes → Option (List (Bytes × Bytes × Nat))
  | _, [] => some []
  | 0, _ :: _ => none
  | count + 1, sv@(_ :: _) =>
      match parsePAXRecord rt sv with
      | .error _ => none
      | .ok (k, v, rest) =>
          (repeatPAXRecord rt count rest).map ((k, v, sv.length - rest.length) :: ·)

/-- The calls on a whole text; each consumes at least one byte. -/
def paxRecords (rt : Runtime) (sv : Bytes) : Option (List (Bytes × Bytes × Nat)) :=
  repeatPAXRecord rt sv.length sv

def recordTexts (records : List PaxRecord) : Bytes :=
  (records.map PaxRecord.text).flatten

theorem repeatPAXRecord_texts (rt : Runtime) {records : List PaxRecord} {count : Nat}
    (hshort : ∀ r ∈ records, r.IsShort) (hcount : (recordTexts records).length ≤ count) :
    repeatPAXRecord rt count (recordTexts records) = some (records.map PaxRecord.call) := by
  induction records generalizing count with
  | nil => cases count <;> rfl
  | cons r records ih =>
      have hcons : recordTexts (r :: records) = r.text ++ recordTexts records := by
        rw [recordTexts, List.map_cons, List.flatten_cons]
        rfl
      have hpos : 0 < r.text.length := List.length_pos_iff.mpr r.text_ne_nil
      rw [hcons] at hcount ⊢
      rw [List.length_append] at hcount
      have hstep := parsePAXRecord_text rt (hshort r List.mem_cons_self)
        (recordTexts records)
      cases htext : r.text ++ recordTexts records with
      | nil => exact absurd (List.append_eq_nil_iff.mp htext).1 r.text_ne_nil
      | cons b sv =>
          cases count with
          | zero => omega
          | succ count =>
              have hrest : repeatPAXRecord rt count (recordTexts records) =
                  some (records.map PaxRecord.call) :=
                ih (fun r' hr' => hshort r' (List.mem_cons_of_mem _ hr')) (by omega)
              have hlen : (b :: sv).length - (recordTexts records).length =
                  r.text.length := by
                rw [← htext, List.length_append, Nat.add_sub_cancel]
              rw [repeatPAXRecord, ← htext, hstep]
              dsimp only
              rw [hrest, htext, hlen]
              rfl

theorem exists_recordTexts {rt : Runtime} {count : Nat} {sv : Bytes}
    {calls : List (Bytes × Bytes × Nat)} (h : repeatPAXRecord rt count sv = some calls) :
    ∃ records : List PaxRecord, sv = recordTexts records ∧
      (∀ r ∈ records, r.IsShort) ∧ calls = records.map PaxRecord.call := by
  induction count generalizing sv calls with
  | zero =>
      cases sv with
      | nil =>
          cases h
          exact ⟨[], rfl, fun _ hr => absurd hr List.not_mem_nil, rfl⟩
      | cons b sv => cases h
  | succ count ih =>
      cases sv with
      | nil =>
          cases h
          exact ⟨[], rfl, fun _ hr => absurd hr List.not_mem_nil, rfl⟩
      | cons b sv =>
          rw [repeatPAXRecord] at h
          cases hstep : parsePAXRecord rt (b :: sv) with
          | error ec =>
              rw [hstep] at h
              cases h
          | ok next =>
              obtain ⟨k, v, rest⟩ := next
              rw [hstep] at h
              obtain ⟨r, hshort, htext, rfl, rfl⟩ := exists_paxRecord hstep
              obtain ⟨tail, htail, rfl⟩ := Option.map_eq_some_iff.mp h
              obtain ⟨records, rfl, hall, rfl⟩ := ih htail
              refine ⟨r :: records, ?_, ?_, ?_⟩
              · rw [htext, recordTexts, recordTexts, List.map_cons, List.flatten_cons]
              · intro r' hr'
                obtain rfl | hr' := List.mem_cons.mp hr'
                · exact hshort
                · exact hall r' hr'
              · rw [htext, List.length_append, Nat.add_sub_cancel, List.map_cons]
                rfl

theorem paxRecords_eq_some {rt : Runtime} {sv : Bytes}
    {calls : List (Bytes × Bytes × Nat)} :
    paxRecords rt sv = some calls ↔
      ∃ records : List PaxRecord, sv = recordTexts records ∧
        (∀ r ∈ records, r.IsShort) ∧ calls = records.map PaxRecord.call := by
  refine ⟨exists_recordTexts, ?_⟩
  rintro ⟨records, rfl, hshort, rfl⟩
  exact repeatPAXRecord_texts rt hshort le_rfl

theorem recordTexts_injective {records records' : List PaxRecord}
    (h : recordTexts records = recordTexts records') : records = records' := by
  induction records generalizing records' with
  | nil =>
      cases records' with
      | nil => rfl
      | cons r' records' =>
          rw [recordTexts, recordTexts, List.map_cons, List.flatten_cons] at h
          exact absurd (List.append_eq_nil_iff.mp h.symm).1 r'.text_ne_nil
  | cons r records ih =>
      rw [recordTexts, List.map_cons, List.flatten_cons] at h
      cases records' with
      | nil => exact absurd (List.append_eq_nil_iff.mp h).1 r.text_ne_nil
      | cons r' records' =>
          rw [recordTexts, List.map_cons, List.flatten_cons] at h
          obtain ⟨rfl, hrest⟩ := PaxRecord.text_append_injective h
          rw [ih hrest]

/-! ## The standard encoding -/

/-- The length of a record: the bytes behind the digits, and the digits of the
length itself, which are counted twice because they may become one more. -/
def standardLength (rest : Nat) : Nat :=
  rest + (decimalText (rest + (decimalText rest).length)).length

theorem standardLength_eq (rest : Nat) :
    (decimalText (standardLength rest)).length + rest = standardLength rest := by
  have hlow : 10 ^ Nat.log 10 rest ≤ rest ∨ rest = 0 := by
    by_cases hzero : rest = 0
    · exact .inr hzero
    · exact .inl (Nat.pow_log_le_self 10 hzero)
  have hhigh : rest < 10 ^ (Nat.log 10 rest + 1) :=
    Nat.lt_pow_succ_log_self (by decide) rest
  have hself : Nat.log 10 rest + 1 < 10 ^ (Nat.log 10 rest + 1) :=
    Nat.lt_pow_self (by decide)
  have hmono : Nat.log 10 rest ≤ Nat.log 10 (rest + (Nat.log 10 rest + 1)) :=
    Nat.log_mono_right (Nat.le_add_right _ _)
  have hnext : Nat.log 10 (rest + (Nat.log 10 rest + 1)) < Nat.log 10 rest + 2 := by
    refine Nat.log_lt_of_lt_pow (by omega) ?_
    rw [Nat.pow_succ 10 (Nat.log 10 rest + 1)]
    omega
  unfold standardLength
  simp only [length_decimalText]
  obtain hsame | hmore : Nat.log 10 (rest + (Nat.log 10 rest + 1)) = Nat.log 10 rest ∨
      Nat.log 10 (rest + (Nat.log 10 rest + 1)) = Nat.log 10 rest + 1 := by omega
  · rw [hsame, hsame]
    omega
  · rw [hmore]
    have hlast : Nat.log 10 (rest + (Nat.log 10 rest + 1 + 1)) = Nat.log 10 rest + 1 := by
      refine Nat.le_antisymm ?_ ?_
      · refine Nat.lt_succ_iff.mp (Nat.log_lt_of_lt_pow (by omega) ?_)
        rw [Nat.pow_succ 10 (Nat.log 10 rest + 1)]
        omega
      · rw [← hmore]
        exact Nat.log_mono_right (by omega)
    rw [hlast]
    omega

theorem decimalText_ne_nil (n : Nat) : decimalText n ≠ [] := by
  rw [← List.length_pos_iff, length_decimalText]
  exact Nat.succ_pos _

/-- The digits of a number with nothing behind them. -/
def plainRun (n : Nat) : DigitRun 10 where
  digits := decimalText n
  junk := []
  digits_ne := decimalText_ne_nil n
  digits_valid := fun _ hc => isDigit_of_mem_decimalText hc
  junk_valid := not_isDigit_of_head_nil

theorem plainRun_value (n : Nat) : (plainRun n).value = n :=
  digitsValue_decimalText n

theorem plainRun_text (n : Nat) : (plainRun n).text = decimalText n :=
  List.append_nil _

theorem length_recordText (length key value : Bytes) :
    (recordText length key value).length =
      length.length + (key.length + value.length + 3) := by
  unfold recordText
  simp only [List.length_append, List.length_cons, List.length_nil]
  omega

def standardRecord (k v : Bytes) (h : validPAXRecord k v = true) : PaxRecord where
  run := plainRun (standardLength (k.length + v.length + 3))
  key := k
  value := v
  space_free := List.not_mem_nil
  valid := h
  length_eq := by
    rw [plainRun_value, plainRun_text, length_recordText, standardLength_eq]

theorem text_standardRecord (k v : Bytes) (h : validPAXRecord k v = true) :
    (standardRecord k v h).text =
      recordText (decimalText (standardLength (k.length + v.length + 3))) k v := by
  rw [← plainRun_text]
  rfl

theorem call_standardRecord (k v : Bytes) (h : validPAXRecord k v = true) :
    (standardRecord k v h).call = (k, v, standardLength (k.length + v.length + 3)) := by
  rw [PaxRecord.call, text_standardRecord, length_recordText, standardLength_eq]
  rfl

/-- The standard encoding of keys and values. -/
def encodeRecords (pairs : List (Bytes × Bytes)) : Bytes :=
  (pairs.map fun p =>
    recordText (decimalText (standardLength (p.1.length + p.2.length + 3))) p.1 p.2).flatten

theorem exists_standardRecords {pairs : List (Bytes × Bytes)}
    (h : ∀ p ∈ pairs, validPAXRecord p.1 p.2 = true) :
    ∃ records : List PaxRecord, recordTexts records = encodeRecords pairs ∧
      (∀ r ∈ records, r.IsPlain) ∧ records.map PaxRecord.call = pairs.map fun p =>
        (p.1, p.2, standardLength (p.1.length + p.2.length + 3)) := by
  induction pairs with
  | nil => exact ⟨[], rfl, fun _ hr => absurd hr List.not_mem_nil, rfl⟩
  | cons p pairs ih =>
      obtain ⟨records, htext, hplain, hcalls⟩ :=
        ih fun q hq => h q (List.mem_cons_of_mem _ hq)
      have hp := h p List.mem_cons_self
      refine ⟨standardRecord p.1 p.2 hp :: records, ?_, ?_, ?_⟩
      · rw [encodeRecords, List.map_cons, List.flatten_cons, recordTexts, List.map_cons,
          List.flatten_cons, text_standardRecord]
        exact congrArg _ htext
      · intro r hr
        obtain rfl | hr := List.mem_cons.mp hr
        · rfl
        · exact hplain r hr
      · rw [List.map_cons, List.map_cons, hcalls, call_standardRecord]

/-! ## Exactness -/

/-- A text is accepted if and only if it is a sequence of records with plain
lengths, and it is taken for these records. -/
def ExactlyRecords (rt : Runtime) (sv : Bytes) : Prop :=
  ∀ calls, paxRecords rt sv = some calls ↔
    ∃ records : List PaxRecord, sv = recordTexts records ∧
      (∀ r ∈ records, r.IsPlain) ∧ calls = records.map PaxRecord.call

theorem exactlyRecords_iff {rt : Runtime} {sv : Bytes} :
    ExactlyRecords rt sv ↔
      ∀ records : List PaxRecord, sv = recordTexts records →
        ((∀ r ∈ records, r.IsPlain) ↔ ∀ r ∈ records, r.IsShort) := by
  constructor
  · rintro hexact records rfl
    constructor
    · intro hplain
      obtain ⟨records', htext, hshort, -⟩ := paxRecords_eq_some.mp
        ((hexact (records.map PaxRecord.call)).mpr ⟨records, rfl, hplain, rfl⟩)
      rw [recordTexts_injective htext]
      exact hshort
    · intro hshort
      obtain ⟨records', htext, hplain, -⟩ := (hexact (records.map PaxRecord.call)).mp
        (paxRecords_eq_some.mpr ⟨records, rfl, hshort, rfl⟩)
      rw [recordTexts_injective htext]
      exact hplain
  · intro hsame calls
    rw [paxRecords_eq_some]
    constructor
    · rintro ⟨records, htext, hshort, hcalls⟩
      exact ⟨records, htext, (hsame records htext).mpr hshort, hcalls⟩
    · rintro ⟨records, htext, hplain, hcalls⟩
      exact ⟨records, htext, (hsame records htext).mp hplain, hcalls⟩

theorem paxRecords_encodeRecords_iff (rt : Runtime) {pairs : List (Bytes × Bytes)}
    (hvalid : ∀ p ∈ pairs, validPAXRecord p.1 p.2 = true) :
    paxRecords rt (encodeRecords pairs) = some (pairs.map fun p =>
        (p.1, p.2, standardLength (p.1.length + p.2.length + 3))) ↔
      ∀ p ∈ pairs, standardLength (p.1.length + p.2.length + 3) < 2 ^ 31 := by
  obtain ⟨records, htext, -, hcalls⟩ := exists_standardRecords hvalid
  have hlengths := congrArg (List.map fun call => call.2.2) hcalls
  rw [List.map_map, List.map_map] at hlengths
  have hshort : (∀ r ∈ records, r.IsShort) ↔
      ∀ p ∈ pairs, standardLength (p.1.length + p.2.length + 3) < 2 ^ 31 := by
    constructor
    · intro hall p hp
      have hmem := List.mem_map_of_mem (f := (fun call => call.2.2) ∘ fun p =>
        (p.1, p.2, standardLength (p.1.length + p.2.length + 3))) hp
      rw [← hlengths] at hmem
      obtain ⟨r, hr, hlen⟩ := List.mem_map.mp hmem
      exact lt_of_eq_of_lt hlen.symm (hall r hr)
    · intro hall r hr
      have hmem := List.mem_map_of_mem
        (f := (fun call => call.2.2) ∘ PaxRecord.call) hr
      rw [hlengths] at hmem
      obtain ⟨p, hp, hlen⟩ := List.mem_map.mp hmem
      exact lt_of_eq_of_lt hlen.symm (hall p hp)
  rw [← htext, paxRecords_eq_some, ← hshort]
  constructor
  · rintro ⟨records', htexts, hall, -⟩
    rw [recordTexts_injective htexts]
    exact hall
  · intro hall
    exact ⟨records, rfl, hall, hcalls.symm⟩

/-- A text is read exactly unless it is a sequence of short records of which one has
something behind the digits of its length, or of plain records of which one is too
long for an `int`.  The standard encoding is read back if its records are short. -/
theorem parsePAXRecord_exact (rt : Runtime) :
    (∀ sv, ExactlyRecords rt sv ↔
      ∀ records : List PaxRecord, sv = recordTexts records →
        ((∀ r ∈ records, r.IsPlain) ↔ ∀ r ∈ records, r.IsShort)) ∧
    ∀ pairs : List (Bytes × Bytes), (∀ p ∈ pairs, validPAXRecord p.1 p.2 = true) →
      (paxRecords rt (encodeRecords pairs) = some (pairs.map fun p =>
          (p.1, p.2, standardLength (p.1.length + p.2.length + 3))) ↔
        ∀ p ∈ pairs, standardLength (p.1.length + p.2.length + 3) < 2 ^ 31) :=
  ⟨fun _ => exactlyRecords_iff, fun _ => paxRecords_encodeRecords_iff rt⟩

/-- The two records of the repository's own test are read back. -/
theorem parsePAXRecord_exact_test :
    paxRecords plainRuntime
        (encodeRecords [(narrow "helloworld", narrow "xx"), (paxPath, narrow "vvvvvvvvvv")]) =
      some [(narrow "helloworld", narrow "xx", 17), (paxPath, narrow "vvvvvvvvvv", 19)] :=
  (((parsePAXRecord_exact plainRuntime).2
    [(narrow "helloworld", narrow "xx"), (paxPath, narrow "vvvvvvvvvv")]
    (by decide)).mpr (by decide)).trans (by decide)

/-- The length `13x`. -/
def letterRun : DigitRun 10 where
  digits := narrow "13"
  junk := narrow "x"
  digits_ne := by decide
  digits_valid := by
    intro c hc
    rw [← isDigit_eq_true]
    revert c
    decide +kernel
  junk_valid := by
    intro c hc
    cases hc
    rw [← isDigit_eq_true]
    decide

/-- A record with the length `13x`. -/
def letterRecord : PaxRecord where
  run := letterRun
  key := narrow "abc"
  value := narrow "defg"
  space_free := by decide
  valid := by decide
  length_eq := by decide

/-- The letter behind the digits goes unnoticed. -/
theorem parsePAXRecord_letter :
    paxRecords plainRuntime (narrow "13x abc=defg\n") =
        some [(narrow "abc", narrow "defg", 13)] ∧
      ¬ ExactlyRecords plainRuntime (narrow "13x abc=defg\n") := by
  have htext : narrow "13x abc=defg\n" = recordTexts [letterRecord] := by decide
  have hshort : ∀ r ∈ [letterRecord], r.IsShort := by
    intro r hr
    rw [List.mem_singleton.mp hr]
    change _ < _
    decide
  refine ⟨paxRecords_eq_some.mpr ⟨[letterRecord], htext, hshort, by decide⟩, ?_⟩
  intro hexact
  have hplain := (exactlyRecords_iff.mp hexact [letterRecord] htext).mpr hshort
    letterRecord (List.mem_singleton.mpr rfl)
  exact absurd hplain (by change ¬ (_ = _); decide)

end Baulk.Tar
