import Baulk.Zip.Decompress

/-!
# Reading the central directory

`Reader::Initialize` reads the headers of the central directory one after
another through `bela::bufio::Reader<4096>`.  The variable part of a header goes
to a buffer on the heap, which `DirectoryHeader.walkExtra` may leave, so the
model of this buffer is the memory of the process with the place where the
buffer lies.
-/

namespace Baulk.Zip

/-! ## The buffered reader -/

def bufioSize : Nat := 4096

/-- `bela::bufio::Reader<4096>`: the bytes of `data` from `r` up to `w` are
buffered. -/
structure BufioReader where
  data : Bytes := List.replicate bufioSize 0
  w : Nat := 0
  r : Nat := 0

namespace BufioReader

/-- The end of `Read`: copy what is buffered. -/
def takeBuffered (len : Nat) (br : BufioReader) : Bytes × BufioReader :=
  let n := min (br.w - br.r) len
  ((br.data.drop br.r).take n, { br with r := br.r + n })

/-- `Read` into `dest`, given with its old content.  `fsread` takes the number
of bytes it asked for as the number of bytes it got, so behind the end of the
file the old bytes of a buffer count as read, and the error for an empty read
never arises. -/
def read (env : Env) (dest : Bytes) (br : BufioReader) (s : Session) :
    Except ErrorCode Bytes × BufioReader × Session :=
  if dest.length = 0 then
    (.error (ErrorCode.general (wide "short read")), br, s)
  else if br.r = br.w then
    if bufioSize < dest.length then
      match s.readFile env dest.length with
      | (.error e, s) => (.error (e.toErrorCode (wide "ReadFile: ")), br, s)
      | (.ok got, s) => (.ok (overwrite dest got), br, s)
    else
      match s.readFile env bufioSize with
      | (.error e, s) =>
          (.error (e.toErrorCode (wide "ReadFile: ")),
            { br with w := 0, r := 0 }, s)
      | (.ok got, s) =>
          let r := takeBuffered dest.length
            { data := overwrite br.data got, w := bufioSize, r := 0 }
          (.ok r.1, r.2, s)
  else
    let r := takeBuffered dest.length br
    (.ok r.1, r.2, s)

/-- `ReadFull`; the first argument counts the calls of `Read`, of which each
returns at least one byte. -/
def readFull (env : Env) : Nat → Bytes → BufioReader → Session →
    Except ErrorCode Bytes × BufioReader × Session
  | 0, _, br, s => (.ok [], br, s)
  | calls + 1, dest, br, s =>
      if dest.length = 0 then (.ok [], br, s)
      else
        match read env dest br s with
        | (.error ec, br, s) => (.error ec, br, s)
        | (.ok got, br, s) =>
            match readFull env calls (dest.drop got.length) br s with
            | (.error ec, br, s) => (.error ec, br, s)
            | (.ok rest, br, s) => (.ok (got ++ rest), br, s)

end BufioReader

/-! ## File modes -/

def modeDir : UInt32 := 0x80000000
def modeSymlink : UInt32 := 0x8000000
def modeDevice : UInt32 := 0x4000000
def modeNamedPipe : UInt32 := 0x2000000
def modeSocket : UInt32 := 0x1000000
def modeSetuid : UInt32 := 0x800000
def modeSetgid : UInt32 := 0x400000
def modeCharDevice : UInt32 := 0x400000
def modeSticky : UInt32 := 0x100000

/-- The bits `flag` if the Unix mode has the bits `mask`. -/
def modeFlag (m mask flag : UInt32) : UInt32 :=
  if m &&& mask ≠ 0 then flag else 0

def unixFileType (m : UInt32) : UInt32 :=
  let ifmt := m &&& 0xf000
  if ifmt = 0x6000 then modeDevice
  else if ifmt = 0x2000 then modeDevice ||| modeCharDevice
  else if ifmt = 0x4000 then modeDir
  else if ifmt = 0x1000 then modeNamedPipe
  else if ifmt = 0xa000 then modeSymlink
  else if ifmt = 0xc000 then modeSocket
  else 0

def unixModeToFileMode (m : UInt32) : UInt32 :=
  (m &&& 0o777) ||| unixFileType m ||| modeFlag m 0x400 modeSetgid |||
    modeFlag m 0x800 modeSetuid ||| modeFlag m 0x200 modeSticky

def msdosModeToFileMode (m : UInt32) : UInt32 :=
  let mode := if m &&& 0x10 ≠ 0 then modeDir ||| 0o777 else 0o666
  if m &&& 0x01 ≠ 0 then mode &&& ~~~0o222 else mode

def creatorFAT : UInt16 := 0
def creatorUnix : UInt16 := 3
def creatorNTFS : UInt16 := 11
def creatorVFAT : UInt16 := 14
def creatorMacOSX : UInt16 := 19

/-- `resolveFileMode`; a name with a separator at its end is a directory. -/
def resolveFileMode (file : File) (externalAttrs : UInt32) : UInt32 :=
  let n := file.versionMadeby >>> 8
  let mode :=
    if n = creatorUnix ∨ n = creatorMacOSX then
      unixModeToFileMode (externalAttrs >>> 16)
    else if n = creatorNTFS ∨ n = creatorVFAT ∨ n = creatorFAT then
      msdosModeToFileMode externalAttrs
    else 0
  if file.name.getLast? = some 0x2f ∨ file.name.getLast? = some 0x5c then
    mode ||| modeDir
  else mode

/-! ## Headers -/

/-- The memory after `bytes` were stored at `address`. -/
def storeAt (mem : Memory) (address : Nat) (bytes : Bytes) : Memory :=
  fun a =>
    if address ≤ a ∧ a < address + bytes.length then bytes.getD (a - address) 0
    else mem a

/-- The bytes from `address` on. -/
def loadAt (mem : Memory) (address length : Nat) : Bytes :=
  (List.range length).map fun i => mem (address + i)

/-- The memory when the directory is read, and where a buffer of a given
capacity is allocated.  A buffer only grows, so that each capacity is allocated
once. -/
structure Heap where
  mem : Memory
  place : Nat → Nat

/-- What `Initialize` holds while it reads the headers. -/
structure DirectoryReader where
  session : Session
  br : BufioReader
  mem : Memory
  capacity : Nat

/-- `LittenEndian::Read` of `width` bytes at an offset in a record. -/
def field (record : Bytes) (offset width : Nat) : Nat :=
  leValue ((record.drop offset).take width)

def directoryHeaderSignature : Nat := 0x02014b50
def directoryHeaderLen : Nat := 46

def notValid : ErrorCode :=
  ErrorCode.general (wide "zip: not a valid zip file")

/-- What the fixed part of a header says about the file, apart from the name,
the comment and the mode. -/
def fixedPart (buf : Bytes) : File where
  versionMadeby := UInt16.ofNat (field buf 4 2)
  versionNeeded := UInt16.ofNat (field buf 6 2)
  flags := UInt16.ofNat (field buf 8 2)
  method := UInt16.ofNat (field buf 10 2)
  crc32Value := UInt32.ofNat (field buf 16 4)
  compressedSize := UInt64.ofNat (field buf 20 4)
  uncompressedSize := UInt64.ofNat (field buf 24 4)
  position := UInt64.ofNat (field buf 42 4)

/-- The header before the walk over its extra area. -/
def directoryHeader (buf : Bytes) (mem : Memory) (buffer : Nat) :
    DirectoryHeader :=
  let filenameLen := field buf 28 2
  let extraLen := field buf 30 2
  let commentLen := field buf 32 2
  let file := { fixedPart buf with
    name := cstringView mem buffer filenameLen
    comment := cstringView mem (buffer + filenameLen + extraLen) commentLen }
  { mem := mem
    buffer := buffer
    filenameLen := UInt16.ofNat filenameLen
    extraLen := UInt16.ofNat extraLen
    commentLen := UInt16.ofNat commentLen
    file := { file with
      mode := resolveFileMode file (UInt32.ofNat (field buf 38 4)) } }

/-- The end of `readDirectoryHeader`: the time of the file, and the values that
a zip64 field had to supply. -/
def finishHeader (buf : Bytes) : FieldResult → Except ErrorCode File
  | .rejected _ => .error notValid
  | .next s =>
      if s.needSize || s.needOffset then .error notValid
      else
        .ok { s.file with
          time :=
            if Time.toUnixSeconds s.modified ≠ 0 then s.modified
            else Time.fromDosDateTime (field buf 14 2) (field buf 12 2) }

/-- `readDirectoryHeader` with a cursor of which `Sub` leaves `rest`; `none` when
the fuel for the walk over the extra area does not suffice. -/
def readDirectoryHeaderWith (rest : Nat → Nat → Nat) (env : Env) (place : Nat → Nat)
    (fuel : Nat) (d : DirectoryReader) :
    Option (Except ErrorCode File × DirectoryReader) :=
  match d.br.readFull env directoryHeaderLen
      (List.replicate directoryHeaderLen 0) d.session with
  | (.error ec, br, s) => some (.error ec, { d with br := br, session := s })
  | (.ok buf, br, s) =>
      let d := { d with br := br, session := s }
      if field buf 0 4 ≠ directoryHeaderSignature then
        some (.error notValid, d)
      else
        let totallen := field buf 28 2 + field buf 30 2 + field buf 32 2
        let capacity := max d.capacity totallen
        let buffer := place capacity
        match d.br.readFull env totallen (loadAt d.mem buffer totallen)
            d.session with
        | (.error ec, br, s) =>
            some (.error ec, { d with br := br, session := s })
        | (.ok bytes, br, s) =>
            let mem := storeAt d.mem buffer bytes
            let h := directoryHeader buf mem buffer
            match h.walkExtraWith rest fuel with
            | none => none
            | some walk =>
                some (finishHeader buf walk, ⟨s, br, mem, capacity⟩)

/-- `readDirectoryHeader`, with the code's own `Sub`. -/
def readDirectoryHeader (env : Env) (place : Nat → Nat) (fuel : Nat)
    (d : DirectoryReader) : Option (Except ErrorCode File × DirectoryReader) :=
  readDirectoryHeaderWith Endian.Reader.subSize env place fuel d

/-- The loop over the records of the directory. -/
def readDirectory (env : Env) (place : Nat → Nat) (fuel : Nat) :
    Nat → DirectoryReader → Option (Except ErrorCode (List File))
  | 0, _ => some (.ok [])
  | records + 1, d =>
      match readDirectoryHeader env place fuel d with
      | none => none
      | some (.error ec, _) => some (.error ec)
      | some (.ok file, d) =>
          match readDirectory env place fuel records d with
          | none => none
          | some (.error ec) => some (.error ec)
          | some (.ok files) => some (.ok (file :: files))

end Baulk.Zip
