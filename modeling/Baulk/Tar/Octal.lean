import Baulk.Support.Numeral
import Baulk.Tar.Format
import Mathlib.Algebra.Order.BigOperators.Group.List

/-!
# Octal fields

Writers of tar headers fill their numbers up with zeros or with spaces in front,
and with spaces and NULs behind.  The character test of the checksum allows both,
but `std::from_chars` does not skip spaces.
-/

namespace Baulk.Tar

open Support (numberOf numberOf_lt numberOf_zeros numberOf_zeros_append)

/-! ## Runs of digits -/

def IsOctal (c : UInt8) : Prop :=
  0x30 ≤ c.toNat ∧ c.toNat < 0x38

instance (c : UInt8) : Decidable (IsOctal c) :=
  inferInstanceAs (Decidable (_ ∧ _))

/-- The number that octal digits stand for. -/
def octalValue (ds : Bytes) : Nat :=
  numberOf 8 (ds.map fun c => c.toNat - 0x30)

theorem octalValue_lt {ds : Bytes} (h : ∀ c ∈ ds, IsOctal c) :
    octalValue ds < 8 ^ ds.length := by
  have hlt := @numberOf_lt 8 (ds.map fun c => c.toNat - 0x30) ?_
  · rwa [List.length_map] at hlt
  · intro d hd
    obtain ⟨c, hc, rfl⟩ := List.mem_map.mp hd
    have := h c hc
    unfold IsOctal at this
    omega

/-- What stands behind a run of digits: nothing, or a byte that ends it.  If there
are no digits, the byte is no sign and does not say base 256. -/
def EndsRun (ds rest : Bytes) : Prop :=
  ∀ c, rest.head? = some c →
    ¬ IsOctal c ∧ (ds = [] → c ≠ 0x2D ∧ c &&& 0x80 = 0)

theorem IsOctal.low {c : UInt8} (h : IsOctal c) : c ≠ 0x2D ∧ c &&& 0x80 = 0 := by
  have hall : ∀ n : Fin 256, IsOctal (UInt8.ofNat n) →
      UInt8.ofNat n ≠ 0x2D ∧ UInt8.ofNat n &&& 0x80 = 0 := by
    decide +kernel
  have := hall ⟨c.toNat, c.toNat_lt⟩
  rw [UInt8.ofNat_toNat] at this
  exact this h

theorem parseNumeric_run {ds rest : Bytes} (hds : ∀ c ∈ ds, IsOctal c)
    (hrest : EndsRun ds rest) (hlen : ds.length ≤ 21) :
    parseNumeric (ds ++ rest) = octalValue ds := by
  have hfirst : ∀ c, (ds ++ rest).head? = some c → c ≠ 0x2D ∧ c &&& 0x80 = 0 := by
    intro c hc
    cases ds with
    | nil => exact (hrest c hc).2 rfl
    | cons d ds =>
        cases hc
        exact (hds _ List.mem_cons_self).low
  have hoctal : (ds ++ rest).headD 0 &&& 0x80 = 0 := by
    rw [List.headD_eq_head?_getD]
    cases hhead : (ds ++ rest).head? with
    | none => rfl
    | some c => exact (hfirst c hhead).2
  have hsign : ((ds ++ rest).head? == some 0x2D) = false := by
    rw [beq_eq_false_iff_ne]
    intro hhead
    exact (hfirst _ hhead).1 rfl
  have htake : (ds ++ rest).takeWhile
      (fun c => decide (0x30 ≤ c.toNat ∧ c.toNat < 0x30 + 8)) = ds := by
    have hrun : ∀ c ∈ ds,
        (fun c : UInt8 => decide (0x30 ≤ c.toNat ∧ c.toNat < 0x30 + 8)) c = true :=
      fun c hc => decide_eq_true (hds c hc)
    rw [List.takeWhile_append_of_pos hrun]
    cases rest with
    | nil => rw [List.takeWhile_nil, List.append_nil]
    | cons c rest =>
        have hend : ¬ IsOctal c := (hrest c rfl).1
        rw [List.takeWhile_cons_of_neg (by simpa [IsOctal] using hend), List.append_nil]
  have hrange : (octalValue ds : Int) ≤ int64Max := by
    have hlt := octalValue_lt hds
    have hpow : 8 ^ ds.length ≤ 8 ^ 21 := Nat.pow_le_pow_right (by decide) hlen
    unfold int64Max
    omega
  unfold parseNumeric
  rw [hoctal, if_neg (fun h => h rfl)]
  unfold parseNumeric8 fromCharsInt64 fromChars
  simp only [hsign, Bool.false_eq_true, if_false, htake]
  cases ds with
  | nil => rfl
  | cons d ds =>
      have hvalue : (d :: ds).foldl (fun n c => n * 8 + (c.toNat - 0x30)) 0 =
          octalValue (d :: ds) := by
        unfold octalValue numberOf
        rw [List.foldl_map]
      have hlow : int64Min ≤ (octalValue (d :: ds) : Int) :=
        (by decide : int64Min ≤ 0).trans (Int.natCast_nonneg _)
      rw [List.isEmpty_cons, if_neg Bool.false_ne_true, hvalue, if_pos ⟨hlow, hrange⟩]
      rfl

/-! ## Layouts -/

/-- A number as the historic writers of tar lay it out: spaces or zeros, octal
digits, and spaces or NULs. -/
structure NumberText where
  lead : Bytes
  digits : Bytes
  tail : Bytes
  lead_valid : ∀ c ∈ lead, c = 0x20 ∨ c = 0x30
  digits_ne : digits ≠ []
  digits_valid : ∀ c ∈ digits, IsOctal c
  tail_valid : ∀ c ∈ tail, c = 0x20 ∨ c = 0

namespace NumberText

def text (t : NumberText) : Bytes :=
  t.lead ++ t.digits ++ t.tail

def value (t : NumberText) : Nat :=
  octalValue t.digits

end NumberText

theorem not_isOctal_filler {c : UInt8} (h : c = 0x20 ∨ c = 0) :
    ¬ IsOctal c ∧ c ≠ 0x2D ∧ c &&& 0x80 = 0 := by
  rcases h with rfl | rfl
  · decide
  · decide

theorem octalValue_zeros_append {zs : Bytes} (h : ∀ c ∈ zs, c = 0x30) (ds : Bytes) :
    octalValue (zs ++ ds) = octalValue ds := by
  unfold octalValue
  rw [List.map_append, numberOf_zeros_append]
  intro z hz
  obtain ⟨c, hc, rfl⟩ := List.mem_map.mp hz
  rw [h c hc]
  rfl

theorem octalValue_zeros {zs : Bytes} (h : ∀ c ∈ zs, c = 0x30) :
    octalValue zs = 0 := by
  have hnil := octalValue_zeros_append h []
  rw [List.append_nil] at hnil
  exact hnil

/-- Without spaces in front the value is read, and with one it is zero. -/
theorem parseNumeric_text {t : NumberText} (hlen : t.text.length ≤ 21) :
    parseNumeric t.text = if (0x20 : UInt8) ∈ t.lead then 0 else (t.value : Int) := by
  unfold NumberText.text at hlen ⊢
  rw [List.length_append, List.length_append] at hlen
  by_cases hspace : (0x20 : UInt8) ∈ t.lead
  · rw [if_pos hspace]
    obtain ⟨zs, more, hlead, hfirst⟩ := List.eq_append_cons_of_mem hspace
    have hzeros : ∀ c ∈ zs, c = 0x30 := by
      intro c hc
      have hvalid := t.lead_valid c (hlead ▸ List.mem_append_left _ hc)
      exact hvalid.resolve_left fun h => hfirst (h ▸ hc)
    have hlength := congrArg List.length hlead
    rw [List.length_append] at hlength
    rw [hlead, List.append_assoc, List.append_assoc, parseNumeric_run ?_ ?_ ?_,
      octalValue_zeros hzeros]
    · rfl
    · intro c hc
      rw [hzeros c hc]
      decide
    · rintro c ⟨rfl⟩
      have hfiller := not_isOctal_filler (.inl (rfl : (0x20 : UInt8) = 0x20))
      exact ⟨hfiller.1, fun _ => hfiller.2⟩
    · omega
  · rw [if_neg hspace]
    have hzeros : ∀ c ∈ t.lead, c = 0x30 := by
      intro c hc
      exact (t.lead_valid c hc).resolve_left fun h => hspace (h ▸ hc)
    rw [parseNumeric_run ?_ ?_ ?_, octalValue_zeros_append hzeros]
    · rfl
    · intro c hc
      rcases List.mem_append.mp hc with hc | hc
      · rw [hzeros c hc]
        decide
      · exact t.digits_valid c hc
    · intro c hc
      have hfiller := not_isOctal_filler (t.tail_valid c (List.mem_of_mem_head? hc))
      exact ⟨hfiller.1, fun _ => hfiller.2⟩
    · rw [List.length_append]
      omega

/-! ## Checksums -/

/-- The sum of the bytes as unsigned numbers, with a blank checksum field. -/
def unsignedSum (block : Bytes) : Int :=
  ((checksumBytes block).map fun c => (c.toNat : Int)).sum

/-- The sum of the bytes as signed numbers, with a blank checksum field. -/
def signedSum (block : Bytes) : Int :=
  ((checksumBytes block).map fun c => c.toInt8.toInt).sum

def IsChecksumChar (c : UInt8) : Prop :=
  c = 0x20 ∨ c = 0 ∨ IsOctal c

theorem isChecksumEqual_iff {block : Bytes} :
    isChecksumEqual block = true ↔
      (∀ c ∈ chksumField block, IsChecksumChar c) ∧
        (unsignedSum block = parseNumeric (chksumField block) ∨
          signedSum block = parseNumeric (chksumField block)) := by
  have hchar : ∀ c : UInt8, (c == 0x20 || c == 0 ||
      (decide (0x30 ≤ c) && decide (c ≤ 0x37))) = true ↔ IsChecksumChar c := by
    intro c
    have hdigit : 48 ≤ c.toNat ∧ c.toNat ≤ 55 ↔ IsOctal c :=
      and_congr_right' Nat.lt_succ_iff.symm
    unfold IsChecksumChar
    rw [← hdigit]
    simp only [Bool.or_eq_true, Bool.and_eq_true, beq_iff_eq, decide_eq_true_eq,
      UInt8.le_iff_toNat_le, or_assoc]
    rfl
  unfold isChecksumEqual unsignedSum signedSum
  rw [Bool.and_eq_true, List.all_eq_true]
  simp only [hchar, Bool.or_eq_true, beq_iff_eq]

theorem le_unsignedSum (block : Bytes) : 256 ≤ unsignedSum block := by
  have hnonneg : ∀ bytes : Bytes, 0 ≤ (bytes.map fun c => (c.toNat : Int)).sum := by
    intro bytes
    apply List.sum_nonneg
    intro n hn
    obtain ⟨c, -, rfl⟩ := List.mem_map.mp hn
    exact Int.natCast_nonneg _
  have hfront := hnonneg (block.take 148)
  have hback := hnonneg (block.drop 156)
  unfold unsignedSum checksumBytes
  rw [List.map_append, List.map_append, List.sum_append, List.sum_append]
  have hblank : ((List.replicate 8 (0x20 : UInt8)).map fun c => (c.toNat : Int)).sum =
      256 := by
    decide
  omega

theorem NumberText.text_chars (t : NumberText) : ∀ c ∈ t.text, IsChecksumChar c := by
  intro c hc
  unfold NumberText.text at hc
  rw [List.mem_append, List.mem_append] at hc
  rcases hc with (hc | hc) | hc
  · rcases t.lead_valid c hc with rfl | rfl
    · exact .inl rfl
    · exact .inr (.inr (by decide))
  · exact .inr (.inr (t.digits_valid c hc))
  · exact (t.tail_valid c hc).imp_right .inl

/-- A number is read as its value exactly if it has no space in front or is zero,
and a right checksum is accepted exactly if it has none or the signed sum is
zero. -/
theorem parseNumeric_layout_iff (t : NumberText) (hlen : t.text.length ≤ 21) :
    (parseNumeric t.text = t.value ↔ (0x20 : UInt8) ∉ t.lead ∨ t.value = 0) ∧
      ∀ block, chksumField block = t.text →
        (t.value : Int) = unsignedSum block ∨ (t.value : Int) = signedSum block →
        (isChecksumEqual block = true ↔
          (0x20 : UInt8) ∉ t.lead ∨ signedSum block = 0) := by
  have hparse := parseNumeric_text hlen
  constructor
  · rw [hparse]
    by_cases hspace : (0x20 : UInt8) ∈ t.lead
    · rw [if_pos hspace, or_iff_right (not_not.mpr hspace)]
      omega
    · rw [if_neg hspace]
      exact iff_of_true rfl (.inl hspace)
  · intro block hfield hsum
    have hle := le_unsignedSum block
    rw [isChecksumEqual_iff, hfield, hparse, and_iff_right t.text_chars]
    by_cases hspace : (0x20 : UInt8) ∈ t.lead
    · rw [if_pos hspace, or_iff_right (not_not.mpr hspace)]
      omega
    · rw [if_neg hspace]
      exact iff_of_true (hsum.imp Eq.symm Eq.symm) (.inl hspace)

def letterBlock (chksum : Bytes) : Bytes :=
  narrow "a" ++ List.replicate 147 0 ++ chksum ++ List.replicate 356 0

theorem letterDigits_valid : ∀ c ∈ narrow "541", IsOctal c := by
  intro c hc
  change c ∈ [(0x35 : UInt8), 0x34, 0x31] at hc
  rw [List.mem_cons, List.mem_pair] at hc
  rcases hc with rfl | rfl | rfl
  · decide
  · decide
  · decide

/-- The checksum of the block, filled up in front. -/
def letterChksum (c : UInt8) (h : c = 0x20 ∨ c = 0x30) : NumberText where
  lead := List.replicate 3 c
  digits := narrow "541"
  tail := [0, 0x20]
  lead_valid := fun _ hc => List.eq_of_mem_replicate hc ▸ h
  digits_ne := List.cons_ne_nil _ _
  digits_valid := letterDigits_valid
  tail_valid := fun _ hc => (List.mem_pair.mp hc).symm

/-- The right checksum with spaces in front is refused. -/
theorem spacedChksum_refused :
    let t := letterChksum 0x20 (.inl rfl)
    chksumField (letterBlock t.text) = t.text ∧
      (t.value : Int) = unsignedSum (letterBlock t.text) ∧
      parseNumeric t.text ≠ t.value ∧
      isChecksumEqual (letterBlock t.text) = false := by
  decide +kernel

theorem parseNumeric_layout_iff_zeros :
    let t := letterChksum 0x30 (.inr rfl)
    parseNumeric t.text = t.value ∧ isChecksumEqual (letterBlock t.text) = true := by
  intro t
  have hblock : t.text.length ≤ 21 ∧ (0x20 : UInt8) ∉ t.lead ∧
      chksumField (letterBlock t.text) = t.text ∧
      (t.value : Int) = unsignedSum (letterBlock t.text) := by
    decide +kernel
  obtain ⟨hlen, hlead, hfield, hsum⟩ := hblock
  have hlayout := parseNumeric_layout_iff t hlen
  exact ⟨hlayout.1.mpr (.inl hlead), (hlayout.2 _ hfield (.inl hsum)).mpr (.inl hlead)⟩

end Baulk.Tar
