import Baulk.Core.Endian
import Baulk.Core.Time

/-!
# The central directory header of a zip entry

`readDirectoryHeader` reads the fixed part of a header, then the file name, the
extra area and the comment into one buffer, and walks the extra area field by
field.  This module is the walk, `extraLoop`, with one handler for each kind of
field.

Apart from the metadata, a run records what the walk touched: every range of
memory it read and every field it handed to a handler.  The loops carry fuel,
because nothing in the code bounds them; `none` means that it did not suffice.
-/

namespace Baulk.Zip

open Endian (Reader)

/-- `baulk::archive::zip::File`. -/
structure File where
  name : Bytes := []
  comment : Bytes := []
  linkname : Bytes := []
  compressedSize : UInt64 := 0
  uncompressedSize : UInt64 := 0
  position : UInt64 := 0
  time : Time := 0
  crc32Value : UInt32 := 0
  mode : UInt32 := 0
  versionMadeby : UInt16 := 0
  versionNeeded : UInt16 := 0
  flags : UInt16 := 0
  method : UInt16 := 0
  aesVersion : UInt16 := 0
  aesStrength : UInt8 := 0

def zip64ExtraID : Nat := 0x0001
def ntfsExtraID : Nat := 0x000a
def unixExtraID : Nat := 0x000d
def extTimeExtraID : Nat := 0x5455
def infoZipUnixExtraID : Nat := 0x5855
def infoZipUnicodeCommentExtraID : Nat := 0x6375
def infoZipUnicodePathID : Nat := 0x7075
def winzipAesExtraID : Nat := 0x9901

/-- `SizeMin` and `OffsetMin`: the value lives in a zip64 field. -/
def sizeMin : UInt64 := 0xFFFFFFFF

/-- A field as it is handed to its handler: the tag, and where `fb` starts and
how long it is. -/
structure ExtraField where
  tag : Nat
  data : Nat
  size : Nat
  deriving DecidableEq, Repr

/-- The variables of the walk, and what it has touched so far. -/
structure ExtraState where
  file : File
  needUSize : Bool
  needSize : Bool
  needOffset : Bool
  modified : Time := 0
  reads : List Span := []
  visited : List ExtraField := []

namespace ExtraState

/-- Record a read. -/
def log (s : ExtraState) (span : Span) : ExtraState :=
  { s with reads := s.reads ++ [span] }

@[simp]
theorem log_reads (s : ExtraState) (span : Span) :
    (s.log span).reads = s.reads ++ [span] := rfl

@[simp]
theorem log_visited (s : ExtraState) (span : Span) :
    (s.log span).visited = s.visited := rfl

/-- The number of 64-bit values that a zip64 field still has to supply. -/
def needed (s : ExtraState) : Nat :=
  s.needUSize.toNat + s.needSize.toNat + s.needOffset.toNat

@[simp]
theorem log_needed (s : ExtraState) (span : Span) :
    (s.log span).needed = s.needed := rfl

end ExtraState

/-- How a handler ends: on to the next field, or `return false` with the error
"zip: not a valid zip file". -/
inductive FieldResult where
  | next (s : ExtraState)
  | rejected (s : ExtraState)

/-- The variables at the end of a handler. -/
@[simp]
def FieldResult.state : FieldResult → ExtraState
  | .next s => s
  | .rejected s => s

/-! ## The handlers -/

/-- One of the three values of a zip64 field: `none` when the field is too
short. -/
def zip64Value (mem : Memory) (need : Bool) (old : UInt64) (fb : Reader) :
    Option (UInt64 × Reader × List Span) :=
  if need then
    if fb.size < 8 then none
    else
      let r := fb.read mem 8
      some (UInt64.ofNat r.1, r.2, [⟨fb.data, 8⟩])
  else some (old, fb, [])

def handleZip64 (mem : Memory) (fb : Reader) (s : ExtraState) : FieldResult :=
  match zip64Value mem s.needUSize s.file.uncompressedSize fb with
  | none => .rejected { s with needUSize := false }
  | some (usize, fb₁, reads₁) =>
      let s₁ := { s with
        needUSize := false
        file := { s.file with uncompressedSize := usize }
        reads := s.reads ++ reads₁ }
      match zip64Value mem s₁.needSize s₁.file.compressedSize fb₁ with
      | none => .rejected { s₁ with needSize := false }
      | some (csize, fb₂, reads₂) =>
          let s₂ := { s₁ with
            needSize := false
            file := { s₁.file with compressedSize := csize }
            reads := s₁.reads ++ reads₂ }
          match zip64Value mem s₂.needOffset s₂.file.position fb₂ with
          | none => .rejected { s₂ with needOffset := false }
          | some (offset, _, reads₃) =>
              .next { s₂ with
                needOffset := false
                file := { s₂.file with position := offset }
                reads := s₂.reads ++ reads₃ }

/-- The loop over the attributes of an NTFS field. -/
def ntfsLoop (rest : Nat → Nat → Nat) (mem : Memory) :
    Nat → Reader → ExtraState → Option ExtraState
  | 0, _, _ => none
  | fuel + 1, fb, s =>
      if 4 ≤ fb.size then
        let tag := fb.read mem 2
        let size := tag.2.read mem 2
        let s := (s.log ⟨fb.data, 2⟩).log ⟨tag.2.data, 2⟩
        if size.2.size < size.1 then some s
        else
          let ab := size.2.sub rest size.1
          if tag.1 ≠ 1 ∨ size.1 ≠ 24 then some s
          else
            let tick := ab.1.read mem 8
            ntfsLoop rest mem fuel ab.2
              { s.log ⟨ab.1.data, 8⟩ with
                modified := Time.fromWindowsPreciseTime (UInt64.ofNat tick.1) }
      else some s

def handleNtfs (rest : Nat → Nat → Nat) (mem : Memory) (fuel : Nat)
    (fb : Reader) (s : ExtraState) : Option ExtraState :=
  if fb.size < 4 then some s
  else ntfsLoop rest mem fuel (fb.discard 4) s

/-- `unixExtraID` and `infoZipUnixExtraID`.  The link name starts four bytes
behind the reader but keeps its length. -/
def handleUnix (mem : Memory) (tag : Nat) (fb : Reader) (s : ExtraState) :
    ExtraState :=
  if fb.size < 8 then s
  else
    let fb := fb.discard 4
    let mtime := fb.read mem 4
    let s := { s.log ⟨fb.data, 4⟩ with
      file := { s.file with time := Time.fromUnixSeconds mtime.1 } }
    let fb := mtime.2.discard 4
    if 0 < fb.size ∧ tag = unixExtraID then
      { s.log (cstringSpan mem (fb.data + 4) fb.size) with
        file := { s.file with
          linkname := cstringView mem (fb.data + 4) fb.size } }
    else s

def handleExtTime (mem : Memory) (fb : Reader) (s : ExtraState) : ExtraState :=
  if fb.size < 5 then s
  else
    let flags := fb.pick mem
    let s := s.log ⟨fb.data, 1⟩
    if flags.1 &&& 0x1 ≠ 0 then
      let mtime := flags.2.read mem 4
      { s.log ⟨flags.2.data, 4⟩ with
        modified := Time.fromUnixSeconds mtime.1 }
    else s

def handleUnicodePath (mem : Memory) (fb : Reader) (s : ExtraState) :
    ExtraState :=
  if fb.size < 5 ∨ s.file.flags &&& 0x800 ≠ 0 then s
  else
    let version := fb.pick mem
    let crc := version.2.read mem 4
    let s := (s.log ⟨fb.data, 1⟩).log ⟨version.2.data, 4⟩
    { s.log (cstringSpan mem crc.2.data crc.2.size) with
      file := { s.file with
        flags := s.file.flags ||| 0x800
        name := cstringView mem crc.2.data crc.2.size } }

def handleUnicodeComment (mem : Memory) (fb : Reader) (s : ExtraState) :
    ExtraState :=
  if fb.size < 5 then s
  else
    let version := fb.pick mem
    let crc := version.2.read mem 4
    let s := (s.log ⟨fb.data, 1⟩).log ⟨version.2.data, 4⟩
    { s.log (cstringSpan mem crc.2.data crc.2.size) with
      file := { s.file with
        comment := cstringView mem crc.2.data crc.2.size } }

def handleWinzipAes (mem : Memory) (fb : Reader) (s : ExtraState) :
    ExtraState :=
  if fb.size < 7 then s
  else
    let version := fb.read mem 2
    let strength := (version.2.discard 2).pick mem
    let method := strength.2.read mem 2
    let s := ((s.log ⟨fb.data, 2⟩).log ⟨(version.2.discard 2).data, 1⟩).log
      ⟨strength.2.data, 2⟩
    { s with
      file := { s.file with
        aesVersion := UInt16.ofNat version.1
        aesStrength := strength.1
        method := UInt16.ofNat method.1 } }

/-- The body of the walk for one field. -/
def handleField (rest : Nat → Nat → Nat) (mem : Memory) (fuel : Nat)
    (field : ExtraField) (s : ExtraState) : Option FieldResult :=
  let fb : Reader := ⟨field.data, field.size⟩
  if field.tag = zip64ExtraID then some (handleZip64 mem fb s)
  else if field.tag = ntfsExtraID then
    (handleNtfs rest mem fuel fb s).map .next
  else if field.tag = unixExtraID ∨ field.tag = infoZipUnixExtraID then
    some (.next (handleUnix mem field.tag fb s))
  else if field.tag = extTimeExtraID then
    some (.next (handleExtTime mem fb s))
  else if field.tag = infoZipUnicodePathID then
    some (.next (handleUnicodePath mem fb s))
  else if field.tag = infoZipUnicodeCommentExtraID then
    some (.next (handleUnicodeComment mem fb s))
  else if field.tag = winzipAesExtraID then
    some (.next (handleWinzipAes mem fb s))
  else some (.next s)

/-! ## The walk -/

def extraLoop (rest : Nat → Nat → Nat) (mem : Memory) :
    Nat → Reader → ExtraState → Option FieldResult
  | 0, _, _ => none
  | fuel + 1, extra, s =>
      if 4 ≤ extra.size then
        let tag := extra.read mem 2
        let size := tag.2.read mem 2
        let s := (s.log ⟨extra.data, 2⟩).log ⟨tag.2.data, 2⟩
        if size.2.size < size.1 then some (.next s)
        else
          let fb := size.2.sub rest size.1
          let field : ExtraField := ⟨tag.1, fb.1.data, fb.1.size⟩
          match handleField rest mem fuel field
              { s with visited := s.visited ++ [field] } with
          | none => none
          | some (.rejected s) => some (.rejected s)
          | some (.next s) => extraLoop rest mem fuel fb.2 s
      else some (.next s)

/-- What `readDirectoryHeader` knows when it reaches the walk: the fixed part
of the header, already stored in `file`, and the buffer that holds the name,
the extra area and the comment. -/
structure DirectoryHeader where
  mem : Memory
  buffer : Nat
  filenameLen : UInt16
  extraLen : UInt16
  commentLen : UInt16
  file : File

namespace DirectoryHeader

/-- The first address of the extra area. -/
def extraStart (h : DirectoryHeader) : Nat :=
  h.buffer + h.filenameLen.toNat

/-- The address behind the extra area, where the comment starts. -/
def extraEnd (h : DirectoryHeader) : Nat :=
  h.extraStart + h.extraLen.toNat

/-- The variables of `readDirectoryHeader` before the walk. -/
def initialState (h : DirectoryHeader) : ExtraState where
  file := h.file
  needUSize := h.file.uncompressedSize == sizeMin
  needSize := h.file.compressedSize == sizeMin
  needOffset := h.file.position == sizeMin

/-- The walk of `readDirectoryHeader`, with a cursor of which `Sub` leaves `rest`. -/
def walkExtraWith (rest : Nat → Nat → Nat) (h : DirectoryHeader) (fuel : Nat) :
    Option FieldResult :=
  extraLoop rest h.mem fuel ⟨h.extraStart, h.extraLen.toNat⟩ h.initialState

/-- The walk of `readDirectoryHeader`, with the code's own `Sub`. -/
def walkExtra (h : DirectoryHeader) (fuel : Nat) : Option FieldResult :=
  h.walkExtraWith Reader.subSize fuel

end DirectoryHeader

end Baulk.Zip
