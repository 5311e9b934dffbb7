import Baulk.Tar.Octal
import Baulk.Tar.Reader

/-!
# USTAR blocks

The block that encodes a header in the USTAR format is read back as that header.
A block that is accepted is refused after any change of one byte outside of its
checksum, since neither sum can become the stored one.
-/

namespace Baulk.Tar

open Support (numeral length_numeral lt_of_mem_numeral numberOf_numeral)

/-! ## Writing a block -/

/-- The digits of a number, filled up with zeros. -/
def octal (w n : Nat) : Bytes :=
  (numeral 8 w n).map fun d => UInt8.ofNat (0x30 + d)

/-- A number in a field, with a NUL behind it. -/
def octalField (w n : Nat) : Bytes :=
  octal (w - 1) n ++ [0]

def textField (w : Nat) (s : Bytes) : Bytes :=
  s ++ List.replicate (w - s.length) 0

/-- A text that fits a field. -/
structure FieldText (w : Nat) where
  text : Bytes
  length_le : text.length ≤ w
  nul_free : (0 : UInt8) ∉ text

/-- The values of a header, each within the width of its field. -/
structure UstarValues where
  name : FieldText 100
  front : FieldText 155
  linkName : FieldText 100
  uname : FieldText 32
  gname : FieldText 32
  mode : Fin (8 ^ 7)
  uid : Fin (8 ^ 7)
  gid : Fin (8 ^ 7)
  size : Fin (8 ^ 11)
  mtime : Fin (8 ^ 11)
  devmajor : Fin (8 ^ 7)
  devminor : Fin (8 ^ 7)
  typeflag : UInt8

namespace UstarValues

/-- The fields of the block in their order. -/
def fields (v : UstarValues) (chksum : Bytes) : List Bytes :=
  [textField 100 v.name.text, octalField 8 v.mode, octalField 8 v.uid,
    octalField 8 v.gid, octalField 12 v.size, octalField 12 v.mtime, chksum,
    [v.typeflag], textField 100 v.linkName.text, narrow "ustar" ++ [0],
    narrow "00", textField 32 v.uname.text, textField 32 v.gname.text,
    octalField 8 v.devmajor, octalField 8 v.devminor,
    textField 155 v.front.text, List.replicate 4 0, List.replicate 8 0]

/-- The block with a given checksum field. -/
def block (v : UstarValues) (chksum : Bytes) : Bytes :=
  (v.fields chksum).flatten

/-- The header that the block stands for. -/
def header (v : UstarValues) : Header where
  name := if v.front.text.isEmpty then v.name.text
    else v.front.text ++ [0x2F] ++ v.name.text
  linkName := v.linkName.text
  uname := v.uname.text
  gname := v.gname.text
  size := v.size
  mode := v.mode
  modTime := Time.fromUnix v.mtime 0
  devmajor := v.devmajor
  devminor := v.devminor
  uid := v.uid
  gid := v.gid
  format := formatUSTAR ||| formatPAX
  typeflag := v.typeflag

end UstarValues

theorem UstarValues.toUnixSeconds_modTime (v : UstarValues) :
    v.header.modTime.toUnixSeconds = v.mtime := by
  change ((v.mtime : Int) * 1000000000 + 0) / 1000000000 = v.mtime
  omega

/-- A checksum: seven digits and a NUL, or six digits, a NUL and a space. -/
def chksumText (spaced : Bool) (n : Nat) : Bytes :=
  if spaced then octalField 7 n ++ [0x20] else octalField 8 n

/-! ## Reading fields -/

theorem length_octal (w n : Nat) : (octal w n).length = w := by
  unfold octal
  rw [List.length_map, length_numeral]

theorem isOctal_of_mem_octal {w n : Nat} {c : UInt8} (h : c ∈ octal w n) :
    IsOctal c := by
  obtain ⟨d, hd, rfl⟩ := List.mem_map.mp h
  have hlt : d < 8 := lt_of_mem_numeral (by decide) hd
  unfold IsOctal
  rw [UInt8.toNat_ofNat_of_lt' (by change _ < 256; omega)]
  omega

theorem octalValue_octal {w n : Nat} (h : n < 8 ^ w) : octalValue (octal w n) = n := by
  have hdigits : (octal w n).map (fun c => c.toNat - 0x30) = numeral 8 w n := by
    unfold octal
    rw [List.map_map]
    conv_rhs => rw [← List.map_id (numeral 8 w n)]
    apply List.map_congr_left
    intro d hd
    have hlt : d < 8 := lt_of_mem_numeral (by decide) hd
    change (UInt8.ofNat (0x30 + d)).toNat - 0x30 = d
    rw [UInt8.toNat_ofNat_of_lt' (by change _ < 256; omega)]
    omega
  unfold octalValue
  rw [hdigits, numberOf_numeral h]

/-- A number is read back from its digits, whatever filler is behind them. -/
theorem parseNumeric_octal {w n : Nat} (h : n < 8 ^ w) (hw : w ≤ 21) {rest : Bytes}
    (hrest : ∀ c, rest.head? = some c → c = 0x20 ∨ c = 0) :
    parseNumeric (octal w n ++ rest) = n := by
  rw [parseNumeric_run (fun c hc => isOctal_of_mem_octal hc) ?_ ?_, octalValue_octal h]
  · intro c hc
    have hfiller := not_isOctal_filler (hrest c hc)
    exact ⟨hfiller.1, fun _ => hfiller.2⟩
  · rwa [length_octal]

theorem parseNumeric_octalField {w n : Nat} (h : n < 8 ^ (w - 1)) (hw : w ≤ 22) :
    parseNumeric (octalField w n) = n := by
  apply parseNumeric_octal h (by omega)
  rintro c ⟨rfl⟩
  exact .inr rfl

theorem parseString_textField {w : Nat} (t : FieldText w) :
    parseString (textField w t.text) = t.text := by
  unfold parseString textField
  rw [List.takeWhile_append_of_pos]
  · have hnul : (List.replicate (w - t.text.length) (0 : UInt8)).takeWhile (· ≠ 0) =
        [] := by
      cases w - t.text.length with
      | zero => rfl
      | succ n => rfl
    rw [hnul, List.append_nil]
  · intro c hc
    exact decide_eq_true fun h => t.nul_free (h ▸ hc)

@[simp]
theorem length_octalField {w n : Nat} (h : 0 < w) : (octalField w n).length = w := by
  unfold octalField
  rw [List.length_append, length_octal, List.length_singleton]
  omega

@[simp]
theorem length_textField {w : Nat} (t : FieldText w) :
    (textField w t.text).length = w := by
  unfold textField
  rw [List.length_append, List.length_replicate]
  exact Nat.add_sub_cancel' t.length_le

theorem field_flatten {off len : Nat} (front : List Bytes) (p : Bytes)
    (back : List Bytes) (hoff : front.flatten.length = off) (hlen : p.length = len) :
    field off len (front ++ p :: back).flatten = p := by
  unfold field
  rw [List.flatten_append, ← hoff, List.drop_left, List.flatten_cons, ← hlen,
    List.take_left]

def fieldWidths : List Nat :=
  [100, 8, 8, 8, 12, 12, 8, 1, 100, 6, 2, 32, 32, 8, 8, 155, 4, 8]

section Block

variable (v : UstarValues) {chksum : Bytes}

theorem map_length_fields (h : chksum.length = 8) :
    (v.fields chksum).map List.length = fieldWidths := by
  simp [UstarValues.fields, fieldWidths, h, narrow]

theorem length_block (h : chksum.length = 8) : (v.block chksum).length = 512 := by
  unfold UstarValues.block
  rw [List.length_flatten, map_length_fields v h]
  rfl

theorem field_block (h : chksum.length = 8) (k : Nat) {p : Bytes}
    (hp : (v.fields chksum)[k]? = some p) :
    field (fieldWidths.take k).sum (fieldWidths.getD k 0) (v.block chksum) = p := by
  have hwidths := map_length_fields v h
  obtain ⟨hk, rfl⟩ := List.getElem?_eq_some_iff.mp hp
  have hsplit : v.fields chksum = (v.fields chksum).take k ++
      (v.fields chksum)[k] :: (v.fields chksum).drop (k + 1) := by
    rw [List.getElem_cons_drop, List.take_append_drop]
  unfold UstarValues.block
  conv_lhs => rw [hsplit]
  apply field_flatten
  · rw [List.length_flatten, List.map_take, hwidths]
  · rw [← hwidths, List.getD_eq_getElem?_getD, List.getElem?_map,
      List.getElem?_eq_getElem hk]
    rfl

theorem checksumBytes_block (h : chksum.length = 8) :
    checksumBytes (v.block chksum) = v.block (List.replicate 8 0x20) := by
  have hsplit : ∀ c : Bytes, v.block c =
      ((v.fields []).take 6).flatten ++ (c ++ ((v.fields []).drop 7).flatten) := by
    intro c
    unfold UstarValues.block
    simp only [UstarValues.fields, List.flatten_cons, List.take_succ_cons,
      List.take_zero, List.drop_succ_cons, List.drop_zero, List.flatten_nil,
      List.append_nil, List.append_assoc]
  have hfront : ((v.fields []).take 6).flatten.length = 148 := by
    simp [UstarValues.fields]
  have hback : (((v.fields []).take 6).flatten ++ chksum).length = 156 := by
    rw [List.length_append, hfront, h]
  unfold checksumBytes
  rw [hsplit chksum, hsplit (List.replicate 8 0x20)]
  rw [List.take_left' hfront, ← List.append_assoc _ chksum, List.drop_left' hback,
    List.append_assoc]

/-! ## Checksums -/

/-- The sums of the bytes of the block with a blank checksum field. -/
def UstarValues.unsignedChksum : Int :=
  ((v.block (List.replicate 8 0x20)).map fun c => (c.toNat : Int)).sum

def UstarValues.signedChksum : Int :=
  ((v.block (List.replicate 8 0x20)).map fun c => c.toInt8.toInt).sum

/-- A number that the standard allows as a checksum. -/
def UstarValues.IsChksum (n : Nat) : Prop :=
  (n : Int) = v.unsignedChksum ∨ (n : Int) = v.signedChksum

theorem toInt8_cases (c : UInt8) :
    (c.toNat : Int) = c.toInt8.toInt ∧ c.toNat < 128 ∨
      (c.toNat : Int) = c.toInt8.toInt + 256 ∧ 128 ≤ c.toNat := by
  have hcond : c.toInt8.toInt = if 2 * c.toNat < 2 ^ 8 then (c.toNat : Int)
      else (c.toNat : Int) - (2 ^ 8 : Nat) := BitVec.toInt_eq_toNat_cond c.toBitVec
  by_cases h : 2 * c.toNat < 2 ^ 8
  · rw [if_pos h] at hcond
    omega
  · rw [if_neg h] at hcond
    omega

theorem toInt8_le (c : UInt8) : c.toInt8.toInt ≤ 255 := by
  have := c.toInt8.toInt_lt
  omega

theorem UstarValues.IsChksum.lt {v : UstarValues} {n : Nat} (h : v.IsChksum n) :
    n < 8 ^ 6 := by
  have hlen := length_block v
    (List.length_replicate : (List.replicate 8 (0x20 : UInt8)).length = 8)
  have hbound : ∀ f : UInt8 → Int, (∀ c, f c ≤ 255) →
      ((v.block (List.replicate 8 0x20)).map f).sum ≤ 512 * 255 := by
    intro f hf
    have hsum := List.sum_le_card_nsmul ((v.block (List.replicate 8 0x20)).map f) 255 ?_
    · rwa [List.length_map, hlen, nsmul_eq_mul] at hsum
    · intro n hn
      obtain ⟨c, -, rfl⟩ := List.mem_map.mp hn
      exact hf c
  have hunsigned : v.unsignedChksum ≤ 512 * 255 :=
    hbound _ fun c => by have := c.toNat_lt; omega
  have hsigned : v.signedChksum ≤ 512 * 255 := hbound _ toInt8_le
  rcases h with h | h
  · omega
  · omega

theorem length_chksumText (spaced : Bool) (n : Nat) :
    (chksumText spaced n).length = 8 := by
  unfold chksumText
  cases spaced with
  | false => exact length_octalField (by decide)
  | true =>
      rw [if_pos rfl, List.length_append, length_octalField (by decide)]
      rfl

theorem chksumText_read {spaced : Bool} {n : Nat} (h : n < 8 ^ 6) :
    parseNumeric (chksumText spaced n) = n ∧
      ∀ c ∈ chksumText spaced n, IsChecksumChar c := by
  have hchar : ∀ w, ∀ c ∈ octal w n ++ [0], IsChecksumChar c := by
    intro w c hc
    rcases List.mem_append.mp hc with hc | hc
    · exact .inr (.inr (isOctal_of_mem_octal hc))
    · exact .inr (.inl (List.mem_singleton.mp hc))
  cases spaced with
  | false =>
      refine ⟨?_, hchar 7⟩
      exact parseNumeric_octalField (h.trans (by decide)) (by decide)
  | true =>
      constructor
      · have hread : parseNumeric (octal 6 n ++ [0, 0x20]) = n := by
          apply parseNumeric_octal h (by decide)
          rintro c ⟨rfl⟩
          exact .inr rfl
        rwa [← List.singleton_append (l := [0x20]), ← List.append_assoc] at hread
      · intro c hc
        rcases List.mem_append.mp hc with hc | hc
        · exact hchar 6 c hc
        · exact .inl (List.mem_singleton.mp hc)

/-! ## Round trip -/

theorem isChecksumEqual_block {n : Nat} (h : v.IsChksum n) (spaced : Bool) :
    isChecksumEqual (v.block (chksumText spaced n)) = true := by
  have hlen := length_chksumText spaced n
  have hfield : chksumField (v.block (chksumText spaced n)) = chksumText spaced n :=
    field_block v hlen 6 rfl
  obtain ⟨hread, hchars⟩ := @chksumText_read spaced n h.lt
  rw [isChecksumEqual_iff, hfield, hread]
  refine ⟨hchars, ?_⟩
  unfold unsignedSum signedSum
  rw [checksumBytes_block v hlen]
  exact h.imp Eq.symm Eq.symm

theorem getFormat_block {n : Nat} (h : v.IsChksum n) (spaced : Bool) :
    getFormat (v.block (chksumText spaced n)) = formatUSTAR ||| formatPAX := by
  have hlen := length_chksumText spaced n
  have hmagic : magicField (v.block (chksumText spaced n)) = narrow "ustar" ++ [0] :=
    field_block v hlen 9 rfl
  have htrailer : starTrailerField (v.block (chksumText spaced n)) =
      List.replicate 4 0 := field_block v hlen 16 rfl
  unfold getFormat
  rw [isChecksumEqual_block v h, hmagic, htrailer]
  rfl

theorem typeflagField_eq (block : Bytes) :
    typeflagField block = (field 156 1 block).headD 0 := by
  unfold typeflagField field
  rw [List.getD_eq_getElem?_getD, List.headD_eq_head?_getD, List.head?_take,
    List.head?_drop]
  rfl

theorem toInt_of_lt {n : Nat} (h : n < 8 ^ 7) : toInt n = n := by
  unfold toInt
  rw [Int.bmod_eq_of_le]
  · omega
  · omega

theorem parseHeader_block {n : Nat} (h : v.IsChksum n) (spaced : Bool) :
    parseHeader (v.block (chksumText spaced n)) = .ok v.header := by
  have hlen := length_chksumText spaced n
  have hflag : typeflagField (v.block (chksumText spaced n)) = v.typeflag := by
    have hfield : field 156 1 (v.block (chksumText spaced n)) = [v.typeflag] :=
      field_block v hlen 7 rfl
    rw [typeflagField_eq, hfield]
    rfl
  have hname : nameField (v.block (chksumText spaced n)) = textField 100 v.name.text :=
    field_block v hlen 0 rfl
  have hmode : modeField (v.block (chksumText spaced n)) = octalField 8 v.mode :=
    field_block v hlen 1 rfl
  have huid : uidField (v.block (chksumText spaced n)) = octalField 8 v.uid :=
    field_block v hlen 2 rfl
  have hgid : gidField (v.block (chksumText spaced n)) = octalField 8 v.gid :=
    field_block v hlen 3 rfl
  have hsize : sizeField (v.block (chksumText spaced n)) = octalField 12 v.size :=
    field_block v hlen 4 rfl
  have hmtime : mtimeField (v.block (chksumText spaced n)) = octalField 12 v.mtime :=
    field_block v hlen 5 rfl
  have hlink : linknameField (v.block (chksumText spaced n)) =
      textField 100 v.linkName.text := field_block v hlen 8 rfl
  have huname : unameField (v.block (chksumText spaced n)) =
      textField 32 v.uname.text := field_block v hlen 11 rfl
  have hgname : gnameField (v.block (chksumText spaced n)) =
      textField 32 v.gname.text := field_block v hlen 12 rfl
  have hmajor : devmajorField (v.block (chksumText spaced n)) =
      octalField 8 v.devmajor := field_block v hlen 13 rfl
  have hminor : devminorField (v.block (chksumText spaced n)) =
      octalField 8 v.devminor := field_block v hlen 14 rfl
  have hfront : ustarPrefixField (v.block (chksumText spaced n)) =
      textField 155 v.front.text := field_block v hlen 15 rfl
  have height : ∀ m : Fin (8 ^ 7), parseNumeric (octalField 8 m) = (m : Nat) :=
    fun m => parseNumeric_octalField m.isLt (by decide)
  have htwelve : ∀ m : Fin (8 ^ 11), parseNumeric (octalField 12 m) = (m : Nat) :=
    fun m => parseNumeric_octalField m.isLt (by decide)
  have hknown : ¬ formatUSTAR ||| formatPAX = formatUnknown := by decide
  have hnew : ¬ formatUSTAR ||| formatPAX ≤ formatV7 := by decide
  have hustar : (formatUSTAR ||| formatPAX) &&& (formatUSTAR ||| formatPAX) ≠ 0 := by
    decide
  unfold parseHeader
  rw [getFormat_block v h]
  simp only [if_neg hknown, if_neg hnew, if_pos hustar, hflag, hname, hmode, huid, hgid,
    hsize, hmtime, hlink, huname, hgname, hmajor, hminor, hfront, height,
    htwelve, parseString_textField, toInt_of_lt v.uid.isLt, toInt_of_lt v.gid.isLt]
  unfold UstarValues.header
  cases v.front.text.isEmpty with
  | true => rfl
  | false => rfl

end Block

theorem isZeroBlock_block (v : UstarValues) (n : Nat) (spaced : Bool) :
    isZeroBlock (v.block (chksumText spaced n)) = false := by
  have hmagic : magicField (v.block (chksumText spaced n)) = narrow "ustar" ++ [0] :=
    field_block v (length_chksumText spaced n) 9 rfl
  have hmem : (0x75 : UInt8) ∈ v.block (chksumText spaced n) := by
    have hfield : (0x75 : UInt8) ∈ magicField (v.block (chksumText spaced n)) := by
      rw [hmagic]
      decide
    exact List.mem_of_mem_drop (List.mem_of_mem_take hfield)
  unfold isZeroBlock
  rw [List.all_eq_false]
  exact ⟨_, hmem, by decide⟩

theorem readHeader_block (v : UstarValues) {n : Nat} (h : v.IsChksum n)
    (spaced : Bool) (R : ExtractReader) {s s' : R.State}
    (hread : readBytes R blockSize s =
      some (.ok (v.block (chksumText spaced n)), s')) :
    readHeader R s = some (.ok v.header, s') := by
  unfold readHeader
  rw [hread]
  simp only [isZeroBlock_block v n, Bool.false_eq_true, if_false, parseHeader_block v h]

/-! ## One byte changed -/

theorem sum_map_set {f : UInt8 → Int} {bytes : Bytes} {i : Nat} (b : UInt8)
    (hi : i < bytes.length) :
    ((bytes.set i b).map f).sum + f bytes[i] = (bytes.map f).sum + f b := by
  induction bytes generalizing i with
  | nil => cases hi
  | cons c bytes ih =>
      cases i with
      | zero =>
          simp only [List.set_cons_zero, List.map_cons, List.sum_cons,
            List.getElem_cons_zero]
          omega
      | succ i =>
          have hrest := ih (Nat.lt_of_succ_lt_succ hi)
          simp only [List.set_cons_succ, List.map_cons, List.sum_cons,
            List.getElem_cons_succ]
          omega

/-- A byte outside of the checksum field. -/
def OutsideChksum (i : Nat) : Prop :=
  i < 148 ∨ 156 ≤ i

theorem chksumField_set {block : Bytes} {i : Nat} (b : UInt8) (h : OutsideChksum i) :
    chksumField (block.set i b) = chksumField block := by
  change ((block.set i b).drop 148).take 8 = (block.drop 148).take 8
  rcases h with h | h
  · rw [List.drop_set_of_lt h]
  · rw [List.drop_set, if_neg (by omega), List.take_set_of_le (by omega)]

theorem sum_checksumBytes_set {f : UInt8 → Int} {block : Bytes} {i : Nat} (b : UInt8)
    (h : OutsideChksum i) (hi : i < block.length) :
    ((checksumBytes (block.set i b)).map f).sum + f block[i] =
      ((checksumBytes block).map f).sum + f b := by
  unfold checksumBytes
  simp only [List.map_append, List.sum_append]
  rcases h with h | h
  · have htake : i < (block.take 148).length := by
      rw [List.length_take]
      omega
    have hset := @sum_map_set f _ _ b htake
    rw [List.getElem_take] at hset
    rw [List.take_set, List.drop_set_of_lt (by omega)]
    omega
  · have hdrop : i - 156 < (block.drop 156).length := by
      rw [List.length_drop]
      omega
    have hset := @sum_map_set f _ _ b hdrop
    rw [List.getElem_drop] at hset
    simp only [Nat.add_sub_cancel' h] at hset
    rw [List.take_set_of_le (by omega), List.drop_set, if_neg (by omega)]
    omega

theorem unsignedSum_eq (block : Bytes) :
    ∃ k : Nat, unsignedSum block = signedSum block + 256 * k := by
  unfold unsignedSum signedSum
  induction checksumBytes block with
  | nil => exact ⟨0, rfl⟩
  | cons c bytes ih =>
      obtain ⟨k, hk⟩ := ih
      simp only [List.map_cons, List.sum_cons, hk]
      rcases toInt8_cases c with hc | hc
      · exact ⟨k, by omega⟩
      · exact ⟨k + 1, by omega⟩

theorem getFormat_eq_unknown_iff {block : Bytes} :
    getFormat block = formatUnknown ↔ isChecksumEqual block = false := by
  unfold getFormat
  cases isChecksumEqual block with
  | false => exact iff_of_true rfl rfl
  | true =>
      refine iff_of_false ?_ (by decide)
      simp only [Bool.not_true, Bool.false_eq_true, if_false]
      split
      · split
        · decide
        · decide
      · split
        · decide
        · decide

theorem getFormat_set {block : Bytes} {i : Nat} {b : UInt8} (hi : i < block.length)
    (h : OutsideChksum i) (hb : b ≠ block[i])
    (hformat : getFormat block ≠ formatUnknown) :
    getFormat (block.set i b) = formatUnknown := by
  rw [getFormat_eq_unknown_iff]
  by_contra hnot
  rw [Ne, getFormat_eq_unknown_iff, Bool.not_eq_false, isChecksumEqual_iff] at hformat
  rw [Bool.not_eq_false, isChecksumEqual_iff, chksumField_set b h] at hnot
  have hunsigned := @sum_checksumBytes_set (fun c => (c.toNat : Int)) _ _ b h hi
  have hsigned := @sum_checksumBytes_set (fun c => c.toInt8.toInt) _ _ b h hi
  change unsignedSum (block.set i b) + _ = unsignedSum block + _ at hunsigned
  change signedSum (block.set i b) + _ = signedSum block + _ at hsigned
  obtain ⟨k, hk⟩ := unsignedSum_eq block
  have hnat : b.toNat ≠ block[i].toNat := fun heq => hb (UInt8.toNat_inj.mp heq)
  have hb' := b.toNat_lt
  have hold := block[i].toNat_lt
  have hcases := toInt8_cases b
  have hcases' := toInt8_cases block[i]
  rcases hformat.2 with heq | heq
  · rcases hnot.2 with heq' | heq'
    · omega
    · omega
  · rcases hnot.2 with heq' | heq'
    · omega
    · omega

/-- What is written in the USTAR format is read back, and no accepted block stays
one when a byte outside of its checksum changes. -/
theorem ustar_readHeader :
    (∀ (v : UstarValues) (n : Nat) (spaced : Bool), v.IsChksum n →
        getFormat (v.block (chksumText spaced n)) = formatUSTAR ||| formatPAX ∧
          ∀ (R : ExtractReader) (s s' : R.State), readBytes R blockSize s =
              some (.ok (v.block (chksumText spaced n)), s') →
            readHeader R s = some (.ok v.header, s')) ∧
      ∀ (block : Bytes) (i : Nat) (b : UInt8) (hi : i < block.length),
        block.length = blockSize → getFormat block ≠ formatUnknown →
        OutsideChksum i → b ≠ block[i] →
        getFormat (block.set i b) = formatUnknown :=
  ⟨fun v _ spaced h => ⟨getFormat_block v h spaced,
      fun R _ _ hread => readHeader_block v h spaced R hread⟩,
    fun _ _ _ hi _ hformat h hb => getFormat_set hi h hb hformat⟩

/-! ### An empty file -/

/-- A reader that hands out what there is at once. -/
def wholeReader : ExtractReader where
  State := Bytes
  read n s := some (.ok (s.take n), s.drop n)
  discard n s := some (.ok (), s.drop n.toNat)
  writeTo _ _ s := some (⟨.ok (), [s], s.length⟩, [])

theorem readFull_zero (R : ExtractReader) (calls : Nat) (s : R.State) :
    readFull R calls 0 s = some (.ok [], s) := by
  cases calls with
  | zero => rfl
  | succ calls => rfl

/-- One call of `Read` may be enough. -/
theorem readFull_once {R : ExtractReader} {n : Nat} {s s' : R.State} {got : Bytes}
    (hread : R.read (n + 1) s = some (.ok got, s')) (hlen : got.length = n + 1) :
    readFull R (n + 1) (n + 1) s = some (.ok got, s') := by
  have hne : got.isEmpty = false := by
    rw [List.isEmpty_eq_false_iff]
    exact List.ne_nil_of_length_eq_add_one hlen
  rw [readFull, hread]
  simp only [hne, Bool.false_eq_true, if_false, hlen, Nat.sub_self, readFull_zero,
    List.append_nil]

theorem readBytes_wholeReader {block : Bytes} (h : block.length = blockSize) :
    readBytes wholeReader blockSize block = some (.ok block, []) := by
  apply readFull_once ?_ h
  change some (Except.ok (block.take blockSize), block.drop blockSize) = _
  rw [List.take_of_length_le h.le, List.drop_of_length_le h.le]
  rfl

def emptyText (w : Nat) : FieldText w where
  text := []
  length_le := Nat.zero_le w
  nul_free := List.not_mem_nil

/-- The header of an empty file with a name of one letter. -/
def letterValues : UstarValues where
  name := ⟨narrow "a", (by decide : 1 ≤ 100), (by decide : (0 : UInt8) ∉ narrow "a")⟩
  front := emptyText 155
  linkName := emptyText 100
  uname := emptyText 32
  gname := emptyText 32
  mode := 0
  uid := 0
  gid := 0
  size := 0
  mtime := 0
  devmajor := 0
  devminor := 0
  typeflag := typeReg

theorem ustar_readHeader_letter :
    ∃ n, readHeader wholeReader (letterValues.block (chksumText true n)) =
        some (.ok letterValues.header, []) ∧
      getFormat ((letterValues.block (chksumText true n)).set 0 0x62) =
        formatUnknown := by
  have hnonneg : 0 ≤ letterValues.unsignedChksum := by decide +kernel
  have hsum : letterValues.IsChksum letterValues.unsignedChksum.toNat :=
    .inl (Int.toNat_of_nonneg hnonneg)
  have hlen := length_block letterValues
    (length_chksumText true letterValues.unsignedChksum.toNat)
  obtain ⟨hformat, hheader⟩ := ustar_readHeader.1 letterValues _ true hsum
  refine ⟨_, hheader wholeReader _ _ (readBytes_wholeReader hlen), ?_⟩
  have hfirst : (letterValues.block
      (chksumText true letterValues.unsignedChksum.toNat))[0]? = some 0x61 := rfl
  refine ustar_readHeader.2 _ 0 0x62 (by rw [hlen]; decide) hlen ?_ (.inl (by decide)) ?_
  · rw [hformat]
    decide
  · intro heq
    rw [List.getElem?_eq_getElem (by rw [hlen]; decide), ← heq] at hfirst
    cases hfirst

end Baulk.Tar
