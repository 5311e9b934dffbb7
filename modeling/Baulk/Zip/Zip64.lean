import Baulk.Zip.FieldRun

/-!
# Sizes and offsets of 64 bits

A size or an offset whose 32-bit value is `0xFFFFFFFF` is taken from the first
zip64 field.  Later ones are not looked at, and neither is the first if nothing
is to be taken from it.
-/

namespace Baulk.Zip

/-- The three values that a zip64 field may supply, and which of them it still has
to. -/
structure Sizes where
  uncompressed : UInt64
  compressed : UInt64
  position : UInt64
  needUSize : Bool
  needSize : Bool
  needOffset : Bool

def Sizes.needed (z : Sizes) : Nat :=
  z.needUSize.toNat + z.needSize.toNat + z.needOffset.toNat

def ExtraState.sizes (s : ExtraState) : Sizes :=
  ⟨s.file.uncompressedSize, s.file.compressedSize, s.file.position,
    s.needUSize, s.needSize, s.needOffset⟩

/-- The 64-bit value with number `i` in a field. -/
def zip64Word (mem : Memory) (f : ExtraField) (i : Nat) : UInt64 :=
  UInt64.ofNat (loadLe mem (f.data + 8 * i) 8)

/-- Take the values that are needed, one after the other. -/
def Sizes.fill (mem : Memory) (z : Sizes) (f : ExtraField) : Sizes where
  uncompressed := if z.needUSize then zip64Word mem f 0 else z.uncompressed
  compressed :=
    if z.needSize then zip64Word mem f z.needUSize.toNat else z.compressed
  position :=
    if z.needOffset then zip64Word mem f (z.needUSize.toNat + z.needSize.toNat)
    else z.position
  needUSize := false
  needSize := false
  needOffset := false

def Sizes.take (mem : Memory) (z : Sizes) (f : ExtraField) : Option Sizes :=
  if f.tag = zip64ExtraID then
    if f.size < 8 * z.needed then none else some (z.fill mem f)
  else some z

/-! ## One field -/

theorem zip64Value_of_le (mem : Memory) {need : Bool} (old : UInt64) {fb : Endian.Reader}
    (h : 8 * need.toNat ≤ fb.size) :
    ∃ spans, zip64Value mem need old fb =
      some (if need then UInt64.ofNat (loadLe mem fb.data 8) else old,
        ⟨fb.data + 8 * need.toNat, fb.size - 8 * need.toNat⟩, spans) := by
  cases need with
  | false => exact ⟨[], rfl⟩
  | true =>
      refine ⟨[⟨fb.data, 8⟩], ?_⟩
      rw [zip64Value, if_pos rfl, if_neg (show ¬fb.size < 8 from Nat.not_lt.mpr h)]
      rfl

theorem handleZip64_agrees (mem : Memory) {f : ExtraField} (htag : f.tag = zip64ExtraID)
    (s : ExtraState) :
    Agrees ExtraState.sizes (s.sizes.take mem f) (handleZip64 mem ⟨f.data, f.size⟩ s) := by
  have hneeded : s.sizes.needed = s.needed := rfl
  rw [Sizes.take, if_pos htag, hneeded]
  by_cases hshort : f.size < 8 * s.needed
  · rw [if_pos hshort]
    obtain ⟨-, ⟨⟨s', hs'⟩, -⟩ | ⟨-, hlong⟩⟩ := handleZip64_spec mem ⟨f.data, f.size⟩ s
    · rw [hs']
      rfl
    · exact absurd hlong (Nat.not_le.mpr hshort)
  · rw [if_neg hshort]
    unfold ExtraState.needed at hshort
    obtain ⟨spans₁, h₁⟩ := zip64Value_of_le mem s.file.uncompressedSize
      (show 8 * s.needUSize.toNat ≤ (⟨f.data, f.size⟩ : Endian.Reader).size by
        dsimp only; omega)
    obtain ⟨spans₂, h₂⟩ := zip64Value_of_le mem s.file.compressedSize
      (show 8 * s.needSize.toNat ≤ (⟨f.data + 8 * s.needUSize.toNat,
        f.size - 8 * s.needUSize.toNat⟩ : Endian.Reader).size by dsimp only; omega)
    obtain ⟨spans₃, h₃⟩ := zip64Value_of_le mem s.file.position
      (show 8 * s.needOffset.toNat ≤
        (⟨f.data + 8 * s.needUSize.toNat + 8 * s.needSize.toNat,
          f.size - 8 * s.needUSize.toNat - 8 * s.needSize.toNat⟩ : Endian.Reader).size by
        dsimp only; omega)
    unfold handleZip64
    rw [h₁]
    dsimp only
    rw [h₂]
    dsimp only
    rw [h₃]
    dsimp only [Agrees, ExtraState.sizes, Sizes.fill, zip64Word]
    rw [Nat.mul_add, ← Nat.add_assoc]
    rfl

theorem recordUnix_sizes (mem : Memory) (f : ExtraField) (file : File) :
    (f.recordUnix mem file).uncompressedSize = file.uncompressedSize ∧
      (f.recordUnix mem file).compressedSize = file.compressedSize ∧
      (f.recordUnix mem file).position = file.position := by
  unfold ExtraField.recordUnix
  split <;> exact ⟨rfl, rfl, rfl⟩

theorem record_sizes (mem : Memory) (f : ExtraField) (file : File) :
    (f.record mem file).uncompressedSize = file.uncompressedSize ∧
      (f.record mem file).compressedSize = file.compressedSize ∧
      (f.record mem file).position = file.position := by
  unfold ExtraField.record
  split
  · exact recordUnix_sizes mem f file
  split
  · split <;> exact ⟨rfl, rfl, rfl⟩
  split
  · split <;> exact ⟨rfl, rfl, rfl⟩
  split
  · split <;> exact ⟨rfl, rfl, rfl⟩
  · exact ⟨rfl, rfl, rfl⟩

def sizesObservation (mem : Memory) : Observation mem Sizes where
  view := ExtraState.sizes
  step := Sizes.take mem
  view_logs _ _ _ := rfl
  handleField_agrees {rest} hrest {fuel} f s hfuel := by
    by_cases htag : f.tag = zip64ExtraID
    · refine ⟨handleZip64 mem ⟨f.data, f.size⟩ s, ?_, handleZip64_agrees mem htag s⟩
      unfold handleField
      rw [if_pos htag]
    · obtain ⟨reads, hhandle⟩ := handleField_eq hrest htag s hfuel
      obtain ⟨husize, hsize, hposition⟩ := record_sizes mem f s.file
      refine ⟨_, hhandle, ?_⟩
      rw [Sizes.take, if_neg htag]
      dsimp only [Agrees, ExtraState.sizes, ExtraState.withTime]
      rw [husize, hsize, hposition]

/-! ## All fields -/

theorem Sizes.needed_fill (mem : Memory) (z : Sizes) (f : ExtraField) :
    (z.fill mem f).needed = 0 := rfl

theorem Sizes.fill_of_needed {z : Sizes} (h : z.needed = 0) (mem : Memory) (f : ExtraField) :
    z.fill mem f = z := by
  obtain ⟨_, _, _, needUSize, needSize, needOffset⟩ := z
  dsimp only [Sizes.needed] at h
  obtain rfl : needUSize = false := Bool.toNat_eq_zero.mp (by omega)
  obtain rfl : needSize = false := Bool.toNat_eq_zero.mp (by omega)
  obtain rfl : needOffset = false := Bool.toNat_eq_zero.mp (by omega)
  rfl

theorem Sizes.foldlM_take_of_needed {mem : Memory} {z : Sizes} (h : z.needed = 0)
    (fs : List ExtraField) : fs.foldlM (Sizes.take mem) z = some z := by
  induction fs with
  | nil => rfl
  | cons f fs ih =>
      have hstep : z.take mem f = some z := by
        rw [Sizes.take, h, z.fill_of_needed h, if_neg (Nat.not_lt_zero f.size), ite_self]
      rw [List.foldlM_cons, hstep]
      exact ih

theorem Sizes.foldlM_take (mem : Memory) (z : Sizes) (fs : List ExtraField) :
    fs.foldlM (Sizes.take mem) z =
      (fs.find? fun f => f.tag = zip64ExtraID).elim (some z) fun f =>
        if f.size < 8 * z.needed then none else some (z.fill mem f) := by
  induction fs with
  | nil => rfl
  | cons f fs ih =>
      rw [List.foldlM_cons, Sizes.take]
      by_cases htag : f.tag = zip64ExtraID
      · rw [if_pos htag, List.find?_cons_of_pos (by simpa using htag), Option.elim_some]
        split
        · rfl
        · rw [Option.bind_eq_bind, Option.bind_some]
          exact Sizes.foldlM_take_of_needed (Sizes.needed_fill mem z f) fs
      · rw [if_neg htag, List.find?_cons_of_neg (by simpa using htag)]
        exact ih

/-! ## Whole headers -/

namespace DirectoryHeader

variable (h : DirectoryHeader)

def zip64Field : Option ExtraField :=
  h.fields.1.find? fun f => f.tag = zip64ExtraID

/-- The value that is meant by the 32-bit value `old`: that with number `i` of the
first zip64 field, if there is one and `old` stands for it. -/
def value64 (old : UInt64) (i : Nat) : UInt64 :=
  if old = sizeMin then h.zip64Field.elim old (zip64Word h.mem · i) else old

/-- How many of the values before the compressed size and the offset are taken from
the field. -/
def sizeIndex : Nat :=
  if h.file.uncompressedSize = sizeMin then 1 else 0

def offsetIndex : Nat :=
  h.sizeIndex + if h.file.compressedSize = sizeMin then 1 else 0

/-- How many values are taken from the field. -/
def valueCount : Nat :=
  h.offsetIndex + if h.file.position = sizeMin then 1 else 0

/-- The sizes and the offset of a header are those meant, and it is rejected if and
only if its first zip64 field is too short for them, or there is none to take the
compressed size or the offset from. -/
structure FollowsZip64 (result : Except ErrorCode File) : Prop where
  accepted : ∀ file, result = .ok file →
    file.uncompressedSize = h.value64 h.file.uncompressedSize 0 ∧
      file.compressedSize = h.value64 h.file.compressedSize h.sizeIndex ∧
      file.position = h.value64 h.file.position h.offsetIndex
  rejected : (∃ e, result = .error e) ↔
    (∃ f, h.zip64Field = some f ∧ f.size < 8 * h.valueCount) ∨
      h.zip64Field = none ∧
        (h.file.compressedSize = sizeMin ∨ h.file.position = sizeMin)

/-- `new` is `old`, or the value with number `i` of the first zip64 field. -/
def Takes (old new : UInt64) (i : Nat) : Prop :=
  (old ≠ sizeMin → new = old) ∧
    (old = sizeMin → ∃ f, h.zip64Field = some f ∧ new = zip64Word h.mem f i)

/-- Every value `0xFFFFFFFF` is taken from the first zip64 field, and a header is
rejected for a compressed size or an offset without a field that is long enough, and
for any zip64 field that is too short. -/
structure StrictZip64 (result : Except ErrorCode File) : Prop where
  accepted : ∀ file, result = .ok file →
    h.Takes h.file.uncompressedSize file.uncompressedSize 0 ∧
      h.Takes h.file.compressedSize file.compressedSize h.sizeIndex ∧
      h.Takes h.file.position file.position h.offsetIndex
  missing : h.file.compressedSize = sizeMin ∨ h.file.position = sizeMin →
    (∀ f ∈ h.fields.1, f.tag = zip64ExtraID → f.size < 8 * h.valueCount) →
    ∃ e, result = .error e
  short : ∀ f ∈ h.fields.1, f.tag = zip64ExtraID → f.size < 8 * h.valueCount →
    ∃ e, result = .error e

end DirectoryHeader

namespace DirectoryHeader

variable {h : DirectoryHeader}

theorem toNat_beq (old : UInt64) :
    (old == sizeMin).toNat = if old = sizeMin then 1 else 0 := by
  by_cases hold : old = sizeMin
  · rw [if_pos hold, beq_iff_eq.mpr hold]
    rfl
  · rw [if_neg hold, beq_eq_false_iff_ne.mpr hold]
    rfl

theorem needed_initialState : h.initialState.sizes.needed = h.valueCount := by
  unfold Sizes.needed
  dsimp only [ExtraState.sizes, initialState]
  rw [toNat_beq, toNat_beq, toNat_beq]
  rfl

theorem value64_of_none (hfield : h.zip64Field = none) (old : UInt64) (i : Nat) :
    h.value64 old i = old := by
  rw [value64, hfield, Option.elim_none, ite_self]

theorem value64_of_some {f : ExtraField} (hfield : h.zip64Field = some f) (old : UInt64)
    (i : Nat) :
    h.value64 old i = if (old == sizeMin) = true then zip64Word h.mem f i else old := by
  rw [value64, hfield, Option.elim_some]
  simp only [beq_iff_eq]

theorem finishHeader_next (buf : Bytes) {s : ExtraState}
    (hneeds : (s.needSize || s.needOffset) = false) :
    ∃ file, finishHeader buf (.next s) = .ok file ∧
      file.uncompressedSize = s.file.uncompressedSize ∧
      file.compressedSize = s.file.compressedSize ∧
      file.position = s.file.position := by
  unfold finishHeader
  dsimp only
  rw [if_neg (Bool.eq_false_iff.mp hneeds)]
  exact ⟨_, rfl, rfl, rfl, rfl⟩

theorem followsZip64_of_ok {file : File} {result : Except ErrorCode File}
    (hok : result = .ok file)
    (hvalues : file.uncompressedSize = h.value64 h.file.uncompressedSize 0 ∧
      file.compressedSize = h.value64 h.file.compressedSize h.sizeIndex ∧
      file.position = h.value64 h.file.position h.offsetIndex)
    (hshort : ¬∃ f, h.zip64Field = some f ∧ f.size < 8 * h.valueCount)
    (hmissing : ¬(h.zip64Field = none ∧
      (h.file.compressedSize = sizeMin ∨ h.file.position = sizeMin))) :
    h.FollowsZip64 result := by
  subst hok
  refine ⟨?_, ?_⟩
  · intro file' hfile
    cases hfile
    exact hvalues
  · constructor
    · rintro ⟨e, he⟩
      cases he
    · rintro (hleft | hright)
      · exact absurd hleft hshort
      · exact absurd hright hmissing

theorem followsZip64_of_error {e : ErrorCode} {result : Except ErrorCode File}
    (herror : result = .error e)
    (h' : (∃ f, h.zip64Field = some f ∧ f.size < 8 * h.valueCount) ∨
      h.zip64Field = none ∧
        (h.file.compressedSize = sizeMin ∨ h.file.position = sizeMin)) :
    h.FollowsZip64 result := by
  subst herror
  refine ⟨?_, fun _ => h', fun _ => ⟨e, rfl⟩⟩
  intro file hfile
  cases hfile

theorem followsZip64_of_none {buf : Bytes} {walk : FieldResult}
    (hfield : h.zip64Field = none)
    (hagrees : Agrees ExtraState.sizes (some h.initialState.sizes) walk) :
    h.FollowsZip64 (finishHeader buf walk) := by
  cases walk with
  | rejected s => cases hagrees
  | next s =>
      have hsizes : h.initialState.sizes = s.sizes := Option.some.inj hagrees
      have husize : h.file.uncompressedSize = s.file.uncompressedSize :=
        congrArg Sizes.uncompressed hsizes
      have hsize : h.file.compressedSize = s.file.compressedSize :=
        congrArg Sizes.compressed hsizes
      have hposition : h.file.position = s.file.position :=
        congrArg Sizes.position hsizes
      have hneedSize : (h.file.compressedSize == sizeMin) = s.needSize :=
        congrArg Sizes.needSize hsizes
      have hneedOffset : (h.file.position == sizeMin) = s.needOffset :=
        congrArg Sizes.needOffset hsizes
      cases hneeds : s.needSize || s.needOffset with
      | true =>
          refine followsZip64_of_error (e := notValid) ?_ (.inr ⟨hfield, ?_⟩)
          · unfold finishHeader
            dsimp only
            rw [if_pos hneeds]
          · rw [← hneedSize, ← hneedOffset, Bool.or_eq_true, beq_iff_eq, beq_iff_eq] at hneeds
            exact hneeds
      | false =>
          obtain ⟨file, hfile, husize', hsize', hposition'⟩ :=
            finishHeader_next buf hneeds
          refine followsZip64_of_ok hfile ⟨?_, ?_, ?_⟩ ?_ ?_
          · rw [value64_of_none hfield, husize', husize]
          · rw [value64_of_none hfield, hsize', hsize]
          · rw [value64_of_none hfield, hposition', hposition]
          · rintro ⟨f, hf, -⟩
            rw [hfield] at hf
            cases hf
          · rintro ⟨-, hsentinel⟩
            rw [← hneedSize, ← hneedOffset, Bool.or_eq_false_iff, beq_eq_false_iff_ne,
              beq_eq_false_iff_ne] at hneeds
            exact hsentinel.elim hneeds.1 hneeds.2

theorem followsZip64_of_some {buf : Bytes} {walk : FieldResult} {f : ExtraField}
    (hfield : h.zip64Field = some f)
    (hagrees : Agrees ExtraState.sizes
      (if f.size < 8 * h.initialState.sizes.needed then none
        else some (h.initialState.sizes.fill h.mem f)) walk) :
    h.FollowsZip64 (finishHeader buf walk) := by
  rw [needed_initialState] at hagrees
  by_cases hshort : f.size < 8 * h.valueCount
  · rw [if_pos hshort] at hagrees
    cases walk with
    | rejected s => exact followsZip64_of_error rfl (.inl ⟨f, hfield, hshort⟩)
    | next s => cases hagrees
  · rw [if_neg hshort] at hagrees
    cases walk with
    | rejected s => cases hagrees
    | next s =>
        have hsizes : h.initialState.sizes.fill h.mem f = s.sizes := Option.some.inj hagrees
        have hneeds : (s.needSize || s.needOffset) = false := by
          have hneedSize : false = s.needSize := congrArg Sizes.needSize hsizes
          have hneedOffset : false = s.needOffset := congrArg Sizes.needOffset hsizes
          rw [← hneedSize, ← hneedOffset]
          rfl
        have husize := congrArg Sizes.uncompressed hsizes
        have hsize := congrArg Sizes.compressed hsizes
        have hposition := congrArg Sizes.position hsizes
        dsimp only [Sizes.fill, ExtraState.sizes, initialState] at husize hsize hposition
        rw [toNat_beq] at hsize hposition
        rw [toNat_beq] at hposition
        obtain ⟨file, hfile, husize', hsize', hposition'⟩ :=
          finishHeader_next buf hneeds
        refine followsZip64_of_ok hfile ⟨?_, ?_, ?_⟩ ?_ ?_
        · rw [value64_of_some hfield, husize', ← husize]
        · rw [value64_of_some hfield, hsize', ← hsize]
          rfl
        · rw [value64_of_some hfield, hposition', ← hposition]
          rfl
        · rintro ⟨f', hf', hlt⟩
          rw [hfield] at hf'
          cases hf'
          exact hshort hlt
        · rintro ⟨hnone, -⟩
          rw [hfield] at hnone
          cases hnone

end DirectoryHeader

/-- With a cursor that counts, every header that is read follows its zip64 field. -/
theorem readDirectoryHeader_zip64 {rest : Nat → Nat → Nat} (hrest : Shortens rest)
    {env : Env} {place : Nat → Nat} {d d' : DirectoryReader} {buf : Bytes}
    {h : DirectoryHeader} (hread : ReadsHeader env place d buf h d') {fuel : Nat}
    (hfuel : h.extraLen.toNat < fuel) :
    ∃ result, readDirectoryHeaderWith rest env place fuel d = some (result, d') ∧
      h.FollowsZip64 result := by
  obtain ⟨walk, hwalk, hagrees⟩ := (sizesObservation h.mem).extraLoop_agrees hrest
    h.extraLen.toNat h.extraStart h.initialState hfuel
  refine ⟨_, hread.readDirectoryHeaderWith_eq hwalk, ?_⟩
  have hfold := Sizes.foldlM_take h.mem h.initialState.sizes h.fields.1
  have hagrees' : Agrees ExtraState.sizes
      (h.fields.1.foldlM (Sizes.take h.mem) h.initialState.sizes) walk := hagrees
  rw [hfold] at hagrees'
  cases hfield : h.zip64Field with
  | none =>
      unfold DirectoryHeader.zip64Field at hfield
      rw [hfield] at hagrees'
      exact DirectoryHeader.followsZip64_of_none hfield hagrees'
  | some f =>
      unfold DirectoryHeader.zip64Field at hfield
      rw [hfield] at hagrees'
      exact DirectoryHeader.followsZip64_of_some hfield hagrees'

/-! ## Two headers -/

/-- The fixed part of a header with the given sizes and length of the extra area, and
zeros elsewhere. -/
def plainHeader (csize usize extraLen : Bytes) : Bytes :=
  [0x50, 0x4b, 0x01, 0x02] ++ List.replicate 16 0 ++ csize ++ usize ++ [0, 0] ++
    extraLen ++ List.replicate 14 0

def bufferedReader (bytes : Bytes) : DirectoryReader where
  session := ⟨0, 0, []⟩
  br := { data := bytes ++ List.replicate (bufioSize - bytes.length) 0, w := bufioSize }
  mem := fun _ => 0
  capacity := 0

def emptyEnv : Env where
  content := ⟨[], FileBytes.length_nil_lt⟩
  fault _ := none
  writer _ := true

/-- An entry of five bytes whose compressed size is in a zip64 field. -/
def zip64Bytes : Bytes :=
  plainHeader [0xFF, 0xFF, 0xFF, 0xFF] [5, 0, 0, 0] [12, 0] ++
    [1, 0, 8, 0, 5, 0, 0, 0, 0, 0, 0, 0]

/-- The reader behind an entry, whose variable part is in a buffer at address 0. -/
def readerBehind (bytes : Bytes) : DirectoryReader :=
  { bufferedReader bytes with
    br := { (bufferedReader bytes).br with r := bytes.length }
    mem := storeAt (fun _ => 0) 0 (bytes.drop directoryHeaderLen)
    capacity := bytes.length - directoryHeaderLen }

def headerOf (bytes : Bytes) : DirectoryHeader :=
  directoryHeader (bytes.take directoryHeaderLen)
    (storeAt (fun _ => 0) 0 (bytes.drop directoryHeaderLen)) 0

theorem zip64Bytes_read :
    ReadsHeader emptyEnv (fun _ => 0) (bufferedReader zip64Bytes)
      (zip64Bytes.take directoryHeaderLen) (headerOf zip64Bytes) (readerBehind zip64Bytes) where
  fixed := ⟨_, _, rfl, _, rfl, rfl⟩
  signature := by decide
  capacity := by decide
  buffer := rfl
  header := rfl

theorem readDirectoryHeader_zip64_bytes :
    ∃ result, readDirectoryHeaderWith (fun size n => size - n) emptyEnv (fun _ => 0) 13
        (bufferedReader zip64Bytes) = some (result, readerBehind zip64Bytes) ∧
      (headerOf zip64Bytes).FollowsZip64 result :=
  readDirectoryHeader_zip64 (fun _ _ _ => rfl) zip64Bytes_read (by decide)

/-- An entry whose uncompressed size is said to be in a zip64 field, without one. -/
def bareBytes : Bytes :=
  plainHeader [0, 0, 0, 0] [0xFF, 0xFF, 0xFF, 0xFF] [0, 0]

theorem bareBytes_read :
    ReadsHeader emptyEnv (fun _ => 0) (bufferedReader bareBytes)
      (bareBytes.take directoryHeaderLen) (headerOf bareBytes) (readerBehind bareBytes) where
  fixed := ⟨_, _, rfl, _, rfl, rfl⟩
  signature := by decide
  capacity := by decide
  buffer := rfl
  header := rfl

/-- This entry is accepted. -/
theorem readDirectoryHeader_not_strict :
    ¬∀ (rest : Nat → Nat → Nat), Shortens rest →
      ∀ (env : Env) (place : Nat → Nat) (d d' : DirectoryReader) (buf : Bytes)
        (h : DirectoryHeader), ReadsHeader env place d buf h d' →
      ∀ fuel, h.extraLen.toNat < fuel →
      ∃ result, readDirectoryHeaderWith rest env place fuel d = some (result, d') ∧
        h.StrictZip64 result := by
  intro hall
  obtain ⟨result, hresult, hstrict⟩ := hall (fun size n => size - n) (fun _ _ _ => rfl) _ _
    _ _ _ _ bareBytes_read 1 (by decide)
  have hwalk : (headerOf bareBytes).walkExtraWith (fun size n => size - n) 1 =
      some (.next (headerOf bareBytes).initialState) := rfl
  rw [bareBytes_read.readDirectoryHeaderWith_eq hwalk, Option.some.injEq, Prod.mk.injEq]
    at hresult
  obtain ⟨file, hfile, -⟩ := DirectoryHeader.finishHeader_next
    (bareBytes.take directoryHeaderLen) (s := (headerOf bareBytes).initialState) (by decide)
  obtain ⟨⟨-, hsentinel⟩, -⟩ := hstrict.accepted file (hresult.1 ▸ hfile)
  obtain ⟨f, hf, -⟩ := hsentinel (by decide)
  have hfields : (headerOf bareBytes).fields = ([], 0) := fieldWalk_stop (.inl (by decide))
  rw [DirectoryHeader.zip64Field, hfields] at hf
  cases hf

end Baulk.Zip
