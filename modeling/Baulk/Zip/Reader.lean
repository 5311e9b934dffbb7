import Baulk.Zip.Directory

/-!
# Zip readers

`zip::Reader` is opened on a file handle with the size of the file and the
offset at which the archive starts in it.  Opening searches the end of the file
for the end record of the central directory, replaces what it says by the zip64
end record if there is one, and reads the directory.

A reader is handed over by a move, which copies its members one by one.
-/

namespace Baulk.Zip

/-! ## The end of the directory -/

def directoryEndLen : Nat := 22
def directory64LocLen : Nat := 20
def directory64EndLen : Nat := 56

def directory64LocSignature : Nat := 0x07064b50
def directory64EndSignature : Nat := 0x06064b50

/-- There is an end record at index `i` of the block, and its comment fits. -/
def endRecordAt (b : Bytes) (i : Nat) : Bool :=
  (b.drop i).take 4 == [0x50, 0x4b, 0x05, 0x06] &&
    decide (field b (i + directoryEndLen - 2) 2 + directoryEndLen + i ≤
      b.length)

def lastEndRecord (b : Bytes) : Nat → Option Nat
  | 0 => none
  | i + 1 => if endRecordAt b i then some i else lastEndRecord b i

def findSignatureInBlock (b : Bytes) : Option Nat :=
  lastEndRecord b (b.length + 1 - directoryEndLen)

/-- `FD::ReadAt`. -/
def readAt (env : Env) (n : Nat) (offset : UInt64) (s : Session) :
    Except ErrorCode Bytes × Session :=
  match seek env offset s with
  | .error ec => (.error ec, s)
  | .ok s => s.readFull env n

/-- One round of the loop of `readDirectoryEnd`: the end of the block from the
end record on, if there is one, and the offset of that record in the file. -/
def searchBlock (env : Env) (size range : Nat) (s : Session) :
    Except ErrorCode (Option (Bytes × Nat)) × Session :=
  let blen := min range size
  match readAt env blen (UInt64.ofNat (size - blen)) s with
  | (.error ec, s) => (.error ec, s)
  | (.ok buffer, s) =>
      (.ok ((findSignatureInBlock buffer).map fun p =>
        (buffer.drop p, size - blen + p)), s)

/-- The loop over the block sizes. -/
def searchDirectoryEnd (env : Env) (size : Nat) : List Nat → Session →
    Except ErrorCode (Bytes × Nat) × Session
  | [], s => (.error notValid, s)
  | range :: ranges, s =>
      match searchBlock env size range s with
      | (.error ec, s) => (.error ec, s)
      | (.ok (some found), s) => (.ok found, s)
      | (.ok none, s) =>
          if ranges = [] ∨ min range size = size then (.error notValid, s)
          else searchDirectoryEnd env size ranges s

def offrange : List Nat := [1024, 65 * 1024]

/-- `directoryEnd`, without the members that nothing reads. -/
structure DirectoryEnd where
  directoryRecords : Nat
  directorySize : Nat
  directoryOffset : UInt64
  deriving DecidableEq

/-- The fields of an end record. -/
def parseDirectoryEnd (record : Bytes) : DirectoryEnd where
  directoryRecords := field record 10 2
  directorySize := field record 12 4
  directoryOffset := UInt64.ofNat (field record 16 4)

def DirectoryEnd.refersToZip64 (d : DirectoryEnd) : Bool :=
  d.directoryRecords == 0xFFFF || d.directorySize == 0xFFFF ||
    d.directoryOffset == 0xFFFFFFFF

/-- What a zip64 locator says: the offset of the zip64 end record, or `-1`. -/
def parseLocator (buffer : Bytes) : Int :=
  if field buffer 0 4 ≠ directory64LocSignature then -1
  else if field buffer 4 4 ≠ 0 then -1
  else if field buffer 16 4 ≠ 1 then -1
  else (UInt64.ofNat (field buffer 8 8)).toInt64.toInt

def findDirectory64End (env : Env) (directoryEndOffset : Nat) (s : Session) :
    Except ErrorCode Int × Session :=
  if directoryEndOffset < directory64LocLen then (.ok (-1), s)
  else
    match readAt env directory64LocLen
        (UInt64.ofNat (directoryEndOffset - directory64LocLen)) s with
    | (.error ec, s) => (.error ec, s)
    | (.ok buffer, s) => (.ok (parseLocator buffer), s)

/-- `readDirectory64End`.  The offset is taken as an offset in the file. -/
def readDirectory64End (env : Env) (offset : UInt64) (s : Session) :
    Except ErrorCode DirectoryEnd × Session :=
  match readAt env directory64EndLen offset s with
  | (.error ec, s) => (.error ec, s)
  | (.ok buffer, s) =>
      if field buffer 0 4 ≠ directory64EndSignature then (.error notValid, s)
      else
        (.ok
          { directoryRecords := field buffer 32 8
            directorySize := field buffer 40 8
            directoryOffset := UInt64.ofNat (field buffer 48 8) }, s)

/-- The zip64 part of `readDirectoryEnd`. -/
def resolveZip64 (env : Env) (directoryEndOffset : Nat) (d : DirectoryEnd)
    (s : Session) : Except ErrorCode DirectoryEnd × Session :=
  if d.refersToZip64 then
    match findDirectory64End env directoryEndOffset s with
    | (.error ec, s) => (.error ec, s)
    | (.ok p, s) =>
        if 0 < p then readDirectory64End env (UInt64.ofNat p.toNat) s
        else (.ok d, s)
  else (.ok d, s)

/-- `readDirectoryEnd`: the comment and the end of the directory. -/
def readDirectoryEnd (env : Env) (size : Nat) (s : Session) :
    Except ErrorCode (Bytes × DirectoryEnd) × Session :=
  match searchDirectoryEnd env size offrange s with
  | (.error ec, s) => (.error ec, s)
  | (.ok (record, directoryEndOffset), s) =>
      if record.length < directoryEndLen then (.error notValid, s)
      else
        let commentLen := field record 20 2
        let rest := record.drop directoryEndLen
        if rest.length < commentLen then
          (.error (ErrorCode.general (wide "zip: invalid comment length")), s)
        else
          let comment := (rest.take commentLen).takeWhile (· != 0)
          match resolveZip64 env directoryEndOffset (parseDirectoryEnd record)
              s with
          | (.error ec, s) => (.error ec, s)
          | (.ok d, s) =>
              if 2 ^ 63 ≤ d.directoryOffset.toNat ∨ size = 0 then
                (.error notValid, s)
              else (.ok (comment, d), s)

/-- Everything that a successful search for the end of the directory has gone
through. -/
theorem readDirectoryEnd_eq_ok_iff {env : Env} {size : Nat} {s s' : Session}
    {comment : Bytes} {d : DirectoryEnd} :
    readDirectoryEnd env size s = (.ok (comment, d), s') ↔
      ∃ record e s₁,
        searchDirectoryEnd env size offrange s = (.ok (record, e), s₁) ∧
        directoryEndLen ≤ record.length ∧
        field record 20 2 ≤ (record.drop directoryEndLen).length ∧
        comment = ((record.drop directoryEndLen).take
          (field record 20 2)).takeWhile (· != 0) ∧
        resolveZip64 env e (parseDirectoryEnd record) s₁ = (.ok d, s') ∧
        d.directoryOffset.toNat < 2 ^ 63 ∧ size ≠ 0 := by
  unfold readDirectoryEnd
  constructor
  · intro h
    rcases hsearch : searchDirectoryEnd env size offrange s with
      ⟨ec | ⟨record, e⟩, s₁⟩ <;> rw [hsearch] at h <;> dsimp only at h
    · cases h
    split at h
    · cases h
    rename_i hrecord
    split at h
    · cases h
    rename_i hcomment
    rcases hzip64 : resolveZip64 env e (parseDirectoryEnd record) s₁ with
      ⟨ec | d', s₂⟩ <;> rw [hzip64] at h <;> dsimp only at h
    · cases h
    split at h
    · cases h
    rename_i hoffset
    cases h
    exact ⟨record, e, s₁, rfl, not_lt.mp hrecord, not_lt.mp hcomment, rfl,
      hzip64, not_le.mp fun hneg => hoffset (.inl hneg),
      fun hzero => hoffset (.inr hzero)⟩
  · rintro ⟨record, e, s₁, hsearch, hrecord, hcomment, rfl, hzip64, hoffset,
      hsize⟩
    rw [hsearch]
    dsimp only
    rw [if_neg (not_lt.mpr hrecord), if_neg (not_lt.mpr hcomment), hzip64]
    dsimp only
    rw [if_neg (by rintro (hneg | hzero); exacts [by omega, hsize hzero])]

/-! ## Opening -/

/-- `zip::Reader`; `fd` is the file behind the handle, if there is one. -/
structure Reader where
  fd : Option FileBytes := none
  size : Option Nat := none
  baseOffset : UInt64 := 0
  uncompressedSize : Int64 := 0
  compressedSize : Int64 := 0
  comment : Bytes := []
  files : List File := []

namespace Reader

/-- The sum of the sizes of some files, as a signed number. -/
def totalSize (size : File → UInt64) (files : List File) : Int64 :=
  (files.map fun file => (size file).toInt64).sum

def impossibleRecords (records size : Nat) : ErrorCode :=
  ErrorCode.make ErrorCode.errGeneral
    (wide "zip: TOC declares impossible " ++ wide (toString records) ++
      wide " files in " ++ wide (toString size) ++ wide " byte zip")

def headerBufferSize : Nat := 64 * 1024

/-- `Initialize` of a reader with a file and a size. -/
def initializeReader (env : Env) (heap : Heap) (size fuel : Nat) (s : Session)
    (r : Reader) : Option (Except ErrorCode Reader) :=
  match readDirectoryEnd env size s with
  | (.error ec, _) => some (.error ec)
  | (.ok (comment, d), s) =>
      if size / fileHeaderLen < d.directoryRecords then
        some (.error (impossibleRecords d.directoryRecords size))
      else
        match seek env (d.directoryOffset + r.baseOffset) s with
        | .error ec => some (.error ec)
        | .ok s =>
            match readDirectory env heap.place fuel d.directoryRecords
                ⟨s, {}, heap.mem, headerBufferSize⟩ with
            | none => none
            | some (.error ec) => some (.error ec)
            | some (.ok files) =>
                some (.ok { r with
                  size := some size
                  uncompressedSize := totalSize File.uncompressedSize files
                  compressedSize := totalSize File.compressedSize files
                  comment := comment
                  files := files })

/-- Everything that a successful `Initialize` has gone through. -/
theorem initializeReader_ok {env : Env} {heap : Heap} {size fuel : Nat}
    {s : Session} {r₀ r : Reader}
    (h : initializeReader env heap size fuel s r₀ = some (.ok r)) :
    ∃ comment d s₁ s₂ files,
      readDirectoryEnd env size s = (.ok (comment, d), s₁) ∧
      d.directoryRecords ≤ size / fileHeaderLen ∧
      seek env (d.directoryOffset + r₀.baseOffset) s₁ = .ok s₂ ∧
      readDirectory env heap.place fuel d.directoryRecords
        ⟨s₂, {}, heap.mem, headerBufferSize⟩ = some (.ok files) ∧
      r = { r₀ with
        size := some size
        uncompressedSize := totalSize File.uncompressedSize files
        compressedSize := totalSize File.compressedSize files
        comment := comment
        files := files } := by
  unfold initializeReader at h
  rcases hend : readDirectoryEnd env size s with ⟨ec | ⟨comment, d⟩, s₁⟩ <;>
    rw [hend] at h <;> dsimp only at h
  · cases h
  split at h
  · cases h
  rename_i hrecords
  rcases hseek : seek env (d.directoryOffset + r₀.baseOffset) s₁ with
    ec | s₂ <;> rw [hseek] at h <;> dsimp only at h
  · cases h
  rcases hread : readDirectory env heap.place fuel d.directoryRecords
    ⟨s₂, {}, heap.mem, headerBufferSize⟩ with _ | ec | files <;>
    rw [hread] at h
  · cases h
  · cases h
  cases h
  exact ⟨comment, d, s₁, s₂, files, rfl, not_lt.mp hrecords, hseek, hread,
    rfl⟩

/-- `OpenReader` on a handle.  Without a size the file is asked for it. -/
def openReader (fault : Nat → Option SystemError) (heap : Heap)
    (content : FileBytes) (size : Option Nat) (offset : UInt64) (fuel : Nat)
    (r : Reader) : Option (Except ErrorCode Reader) :=
  if r.fd.isSome then
    some (.error (ErrorCode.general
      (wide "The file has been opened, the function cannot be called repeatedly")))
  else
    let env : Env := ⟨content, fault, fun _ => true⟩
    let r := { r with fd := some content, size := size, baseOffset := offset }
    match size with
    | some size => initializeReader env heap size fuel ⟨0, 0, []⟩ r
    | none =>
        match fault 0 with
        | some e =>
            some (.error
              (e.toErrorCode (wide "GetFileInformationByHandleEx(): ")))
        | none =>
            initializeReader env heap content.bytes.length fuel ⟨0, 1, []⟩ r

/-! ## Reading entries -/

end Reader

/-- What a caller sees of a decompression: the returned value, the error code
and the chunks handed to the writer. -/
structure Result where
  ok : Bool
  ec : Option ErrorCode
  chunks : List Bytes
  deriving DecidableEq

def Outcome.result (o : Outcome) : Result :=
  ⟨o.ok, o.ec, Session.chunks o.session.trace⟩

namespace Reader

/-- `Decompress`.  Without a handle the first call of the system fails with
`ERROR_INVALID_HANDLE`. -/
def decompress (r : Reader) (codecs : Codecs)
    (fault : Nat → Option SystemError) (writer : List Bytes → Bool)
    (file : File) (fuel : Nat) : Option Outcome :=
  match r.fd with
  | none =>
      some (.fail (ErrorCode.make 6 (wide "SetFilePointerEx(): ")) ⟨0, 0, []⟩)
  | some content =>
      Zip.decompress ⟨content, fault, writer⟩ codecs r.baseOffset file fuel

/-- `ResolveLinkName`: the name, and the error code if one was assigned. -/
def resolveLinkName (r : Reader) (codecs : Codecs)
    (fault : Nat → Option SystemError) (file : File) (fuel : Nat) :
    Option (Bytes × Option ErrorCode) :=
  if file.linkname ≠ [] then some (file.linkname, none)
  else
    match r.decompress codecs fault (fun _ => true) file fuel with
    | none => none
    | some o => some (if o.ok then o.session.written else [], o.ec)

/-! ## Moving -/

/-- `MoveFrom`: what becomes of the reader `dst` when `src` is moved to it.  It
keeps its own base offset. -/
def moveFrom (dst src : Reader) : Reader :=
  { dst with
    fd := src.fd
    size := src.size
    uncompressedSize := src.uncompressedSize
    compressedSize := src.compressedSize
    comment := src.comment
    files := src.files }

/-- `NewReader`: open a reader and move it into the result. -/
def newReader (fault : Nat → Option SystemError) (heap : Heap)
    (content : FileBytes) (size : Option Nat) (offset : UInt64) (fuel : Nat) :
    Option (Except ErrorCode Reader) :=
  match openReader fault heap content size offset fuel {} with
  | none => none
  | some (.error ec) => some (.error ec)
  | some (.ok r) => some (.ok (moveFrom {} r))

end Reader

end Baulk.Zip
