import Baulk.Core.Endian
import Baulk.Pkg.Hash

/-!
# The trailer of a partial download

A partial download ends in a trailer of 96 bytes that says which file it is a
part of: the expected hash, decoded, and the total and current sizes.  This
module holds `hash_construct`, which decodes a hash string, and the layout of
`part_overlay_data`.
-/

namespace Baulk.Net

open Pkg (HashMethod)

/-! ## Hash strings -/

/-- The numbers of `net_internal::hash_t`. -/
def methodCode : HashMethod → UInt16
  | .sha224 => 1
  | .sha256 => 2
  | .sha384 => 3
  | .sha512 => 4
  | .sha3 => 5
  | .sha3_224 => 6
  | .sha3_256 => 7
  | .sha3_384 => 8
  | .sha3_512 => 9
  | .blake3 => 10

/-- `HashPrefix` and `hnmaps`: the method and the length of its digest. -/
def hnmaps : List (WString × HashMethod × UInt16) :=
  [(wide "BLAKE3", .blake3, 32), (wide "SHA224", .sha224, 28),
    (wide "SHA256", .sha256, 32), (wide "SHA384", .sha384, 48),
    (wide "SHA512", .sha512, 64), (wide "SHA3-224", .sha3_224, 28),
    (wide "SHA3-256", .sha3_256, 32), (wide "SHA3-384", .sha3_384, 48),
    (wide "SHA3-512", .sha3_512, 64), (wide "SHA3", .sha3, 32)]

/-- `hexval_table`; `none` is `-1`. -/
def hexval (c : UInt8) : Option Nat :=
  if 0x30 ≤ c ∧ c ≤ 0x39 then some (c.toNat - 0x30)
  else if 0x41 ≤ c ∧ c ≤ 0x46 then some (c.toNat - 0x41 + 10)
  else if 0x61 ≤ c ∧ c ≤ 0x66 then some (c.toNat - 0x61 + 10)
  else none

/-- A hexadecimal digit, in one of its two cases. -/
def hexDigit (upper : Bool) (n : Nat) : WChar :=
  UInt16.ofNat (if n < 10 then 0x30 + n else (if upper then 0x41 else 0x61) + (n - 10))

theorem hexDigit_le_and_hexval {upper : Bool} {n : Nat} (h : n < 16) :
    hexDigit upper n ≤ 0x7F ∧ hexval (hexDigit upper n).toUInt8 = some n := by
  have hall : (List.range 16).all (fun n => hexDigit upper n ≤ 0x7F ∧
      hexval (hexDigit upper n).toUInt8 = some n) = true := by
    cases upper <;> decide
  exact of_decide_eq_true (List.all_eq_true.mp hall n (List.mem_range.mpr h))

def decodeByteCouple (a b : UInt8) : Option UInt8 :=
  match hexval a, hexval b with
  | some a, some b => some (UInt8.ofNat (16 * a + b))
  | _, _ => none

/-- `hash_decode` into at most `size` bytes.  A wide character counts by its
low byte, and a single last one does not count. -/
def hashDecode : WString → Nat → Option Bytes
  | a :: b :: text, size + 1 =>
      match decodeByteCouple a.toUInt8 b.toUInt8 with
      | none => none
      | some byte => (hashDecode text size).map (byte :: ·)
  | _, _ => some []

theorem hashDecode_length {text : WString} {size : Nat} {bytes : Bytes}
    (h : hashDecode text size = some bytes) : bytes.length ≤ size := by
  induction text, size using hashDecode.induct generalizing bytes with
  | case1 a b text size hcouple =>
      rw [hashDecode, hcouple] at h
      contradiction
  | case2 a b text size byte hcouple ih =>
      rw [hashDecode, hcouple] at h
      cases hrest : hashDecode text size with
      | none =>
          rw [hrest] at h
          contradiction
      | some rest =>
          rw [hrest] at h
          cases h
          rw [List.length_cons]
          exact Nat.succ_le_succ (ih hrest)
  | case3 text size hshort =>
      rw [hashDecode.eq_def] at h
      split at h
      · exact absurd rfl (hshort _ _ _ _ rfl)
      · cases h
        exact Nat.zero_le _

/-- The bytes of `part_overlay_data::hash`. -/
def hashBytes : Nat := 64

/-- What `hash_construct` stores: the number of the method, the length of its
digest and the decoded digest, with zeros behind it. -/
@[ext]
structure HashSpec where
  method : UInt16
  hashsz : UInt16
  hash : Bytes
  hash_length : hash.length = hashBytes

def HashSpec.ofDigest (method : HashMethod) (hashsz : UInt16) (digest : Bytes)
    (h : digest.length ≤ hashBytes) : HashSpec where
  method := methodCode method
  hashsz := hashsz
  hash := digest ++ List.replicate (hashBytes - digest.length) 0
  hash_length := by
    rw [List.length_append, List.length_replicate]
    omega

/-- The end of `hash_construct`: decode the digest. -/
def constructDigest (method : HashMethod) (hashsz : UInt16) (value : WString) :
    Except ErrorCode HashSpec :=
  match h : hashDecode value hashBytes with
  | none =>
      .error (ErrorCode.make ErrorCode.errGeneral
        (wide "unsupport hash text '" ++ value ++ wide "'"))
  | some digest => .ok (.ofDigest method hashsz digest (hashDecode_length h))

def hashConstruct (hashValue : WString) : Except ErrorCode HashSpec :=
  match hashValue.findIdx? (· == 0x3A) with
  | none => constructDigest .sha256 32 hashValue
  | some pos =>
      let name := asciiStrToUpper (hashValue.take pos)
      match hnmaps.lookup name with
      | none =>
          .error (ErrorCode.make ErrorCode.errGeneral
            (wide "unsupported hash method '" ++ name ++ wide "'"))
      | some (method, hashsz) =>
          constructDigest method hashsz (hashValue.drop (pos + 1))

/-! ## The trailer -/

def partMagic : Bytes := narrow "PART"

/-- `part_overlay_data` after its magic. -/
structure Overlay where
  spec : HashSpec
  totalBytes : Int64
  currentBytes : Int64
  lasteTime : Int64

/-- `sizeof(part_overlay_data)`. -/
def overlaySize : Nat := 96

/-- The eight bytes of an `int64_t`. -/
def storeInt64 (x : Int64) : Bytes :=
  storeLe x.toUInt64.toNat 8

def loadInt64 (bytes : Bytes) : Int64 :=
  (UInt64.ofNat (valueLe bytes)).toInt64

@[simp]
theorem length_storeInt64 (x : Int64) : (storeInt64 x).length = 8 :=
  length_storeLe _ 8

@[simp]
theorem loadInt64_storeInt64 (x : Int64) : loadInt64 (storeInt64 x) = x := by
  have hlt : x.toUInt64.toNat < 256 ^ 8 := x.toUInt64.toNat_lt
  rw [loadInt64, storeInt64, valueLe_storeLe hlt, UInt64.ofNat_toNat,
    Int64.toInt64_toUInt64]

/-- The trailer as it is written. -/
def Overlay.encode (o : Overlay) : Bytes :=
  partMagic ++ storeLe o.spec.method.toNat 2 ++ storeLe o.spec.hashsz.toNat 2 ++
    o.spec.hash ++ storeInt64 o.totalBytes ++ storeInt64 o.currentBytes ++
    storeInt64 o.lasteTime

/-- The part of a file that `MakeFilePart` compares with the expected hash. -/
def overlayMatches (spec : HashSpec) (disk : Bytes) : Bool :=
  disk.take 4 == partMagic && (disk.drop 8).take hashBytes == spec.hash &&
    valueLe ((disk.drop 4).take 2) == spec.method.toNat &&
    valueLe ((disk.drop 6).take 2) == spec.hashsz.toNat

/-- The three numbers at the end of the trailer. -/
def overlayTotal (disk : Bytes) : Int64 := loadInt64 ((disk.drop 72).take 8)
def overlayCurrent (disk : Bytes) : Int64 := loadInt64 ((disk.drop 80).take 8)
def overlayTime (disk : Bytes) : Int64 := loadInt64 ((disk.drop 88).take 8)

/-! ## Reading back what was written -/

namespace Overlay

variable (o : Overlay)

/-- The part of the trailer before the three numbers. -/
def head : Bytes :=
  partMagic ++ storeLe o.spec.method.toNat 2 ++ storeLe o.spec.hashsz.toNat 2 ++
    o.spec.hash

theorem length_head : o.head.length = 72 := by
  simp only [head, List.length_append, length_storeLe, o.spec.hash_length]
  decide

theorem encode_eq : o.encode = o.head ++ (storeInt64 o.totalBytes ++
    (storeInt64 o.currentBytes ++ storeInt64 o.lasteTime)) := by
  simp only [encode, head, List.append_assoc]

@[simp]
theorem length_encode : o.encode.length = overlaySize := by
  simp only [encode_eq, List.length_append, length_head, length_storeInt64]
  decide

theorem overlayTotal_encode : overlayTotal o.encode = o.totalBytes := by
  rw [overlayTotal, encode_eq, List.drop_left' o.length_head,
    List.take_left' (length_storeInt64 _), loadInt64_storeInt64]

theorem overlayCurrent_encode : overlayCurrent o.encode = o.currentBytes := by
  have hhead : (o.head ++ storeInt64 o.totalBytes).length = 80 := by
    rw [List.length_append, length_head, length_storeInt64]
  rw [overlayCurrent, encode_eq, ← List.append_assoc, List.drop_left' hhead,
    List.take_left' (length_storeInt64 _), loadInt64_storeInt64]

/-- A trailer matches the hash that it was saved with, and no other. -/
theorem overlayMatches_encode_iff {spec : HashSpec} :
    overlayMatches spec o.encode = true ↔ spec = o.spec := by
  have hmagic : partMagic.length = 4 := by decide
  have hmethod : o.spec.method.toNat < 256 ^ 2 := o.spec.method.toNat_lt
  have hsize : o.spec.hashsz.toNat < 256 ^ 2 := o.spec.hashsz.toNat_lt
  have h6 : (partMagic ++ storeLe o.spec.method.toNat 2).length = 6 := by
    rw [List.length_append, hmagic, length_storeLe]
  have h8 : (partMagic ++ (storeLe o.spec.method.toNat 2 ++
      storeLe o.spec.hashsz.toNat 2)).length = 8 := by
    rw [List.length_append, List.length_append, hmagic, length_storeLe,
      length_storeLe]
  have hhash : (o.encode.drop 8).take hashBytes = o.spec.hash := by
    simp only [encode, List.append_assoc]
    rw [← List.append_assoc (storeLe o.spec.method.toNat 2),
      ← List.append_assoc partMagic, List.drop_left' h8,
      List.take_left' o.spec.hash_length]
  have hmethodRead : valueLe ((o.encode.drop 4).take 2) = o.spec.method.toNat := by
    simp only [encode, List.append_assoc]
    rw [List.drop_left' hmagic, List.take_left' (length_storeLe _ 2),
      valueLe_storeLe hmethod]
  have hsizeRead : valueLe ((o.encode.drop 6).take 2) = o.spec.hashsz.toNat := by
    simp only [encode, List.append_assoc]
    rw [← List.append_assoc, List.drop_left' h6,
      List.take_left' (length_storeLe _ 2), valueLe_storeLe hsize]
  have hmagicRead : o.encode.take 4 = partMagic := by
    simp only [encode, List.append_assoc]
    exact List.take_left' hmagic
  simp only [overlayMatches, Bool.and_eq_true, beq_iff_eq, hmagicRead, hhash,
    hmethodRead, hsizeRead, UInt16.toNat_inj, true_and]
  constructor
  · rintro ⟨⟨hhash, hmethod⟩, hsize⟩
    exact HashSpec.ext hmethod.symm hsize.symm hhash.symm
  · rintro rfl
    exact ⟨⟨rfl, rfl⟩, rfl⟩

theorem overlayMatches_encode : overlayMatches o.spec o.encode = true :=
  o.overlayMatches_encode_iff.mpr rfl

end Overlay

end Baulk.Net
