import Baulk.Net.PartHash
import Baulk.Path.Windows

/-!
# Partial downloads

`net_internal::FilePart` owns the open file that a download is written to.  It
is deleted when the object is destroyed, unless a trailer was saved at its end
or it was renamed to its final place.  `MakeFilePart` strips the trailer again.

Every call of the system may fail.  A `WriteFile` that does not fail may write
less than it was asked to.
-/

namespace Baulk.Net

/-- What the operating system does with the calls of a run. -/
structure DiskEnv where
  dirs : WinPath.CurrentDirs
  /-- Which calls fail. -/
  fault : Nat → Option SystemError
  /-- How many bytes a `WriteFile` writes at most; it writes at least one. -/
  shortWrite : Nat → Nat
  /-- The time in seconds. -/
  now : Int64

/-- No call fails. -/
def DiskEnv.Reliable (env : DiskEnv) : Prop :=
  ∀ call, env.fault call = none

/-- The files by their paths, and the number of calls so far. -/
structure Disk where
  files : WString → Option Bytes
  calls : Nat := 0

namespace Disk

/-- Set or remove a file. -/
def put (path : WString) (content : Option Bytes) (disk : Disk) : Disk :=
  { disk with files := fun p => if p = path then content else disk.files p }

@[simp]
theorem put_files_self (path : WString) (content : Option Bytes)
    (disk : Disk) : (disk.put path content).files path = content :=
  if_pos rfl

theorem put_files_ne {path other : WString} (h : other ≠ path)
    (content : Option Bytes) (disk : Disk) :
    (disk.put path content).files other = disk.files other :=
  if_neg h

@[simp]
theorem put_calls (path : WString) (content : Option Bytes) (disk : Disk) :
    (disk.put path content).calls = disk.calls :=
  rfl

/-- The content of a file that is open. -/
def content (disk : Disk) (path : WString) : Bytes :=
  (disk.files path).getD []

def call (disk : Disk) : Disk :=
  { disk with calls := disk.calls + 1 }

@[simp]
theorem call_files (disk : Disk) : disk.call.files = disk.files :=
  rfl

end Disk

/-- `FilePart`; `path` is the file that `fd` is open on. -/
structure FilePart where
  path : WString
  fsPath : WinPath
  pos : Nat := 0
  totalBytes : Int64 := 0
  currentBytes : Int64 := 0
  lasteTime : Int64 := 0
  valid : Bool := true
  discardFileHandle : Bool := true

namespace FilePart

/-! ## Files -/

/-- `bela::io::Seek` from the start. -/
def seek (env : DiskEnv) (pos : Int64) (part : FilePart) (disk : Disk) :
    Except ErrorCode FilePart × Disk :=
  match env.fault disk.calls with
  | some e => (.error (e.toErrorCode (wide "SetFilePointerEx(): ")), disk.call)
  | none =>
      if pos < 0 then
        (.error (ErrorCode.make 131 (wide "SetFilePointerEx(): ")), disk.call)
      else (.ok { part with pos := pos.toInt.toNat }, disk.call)

/-- A file cut off or filled up with zeros. -/
def resized (content : Bytes) (n : Nat) : Bytes :=
  content.take n ++ List.replicate (n - content.length) 0

def truncatedFile (env : DiskEnv) (pos : Int64) (part : FilePart)
    (disk : Disk) : Except ErrorCode FilePart × Disk :=
  match part.seek env pos disk with
  | (.error ec, disk) => (.error ec, disk)
  | (.ok part, disk) =>
      match env.fault disk.calls with
      | some e => (.error (e.toErrorCode (wide "SetEndOfFile() ")), disk.call)
      | none =>
          (.ok part, disk.call.put part.path
            (some (resized (disk.content part.path) part.pos)))

/-- `bela::io::Size`. -/
def size (env : DiskEnv) (part : FilePart) (disk : Disk) :
    Except ErrorCode Int64 × Disk :=
  match env.fault disk.calls with
  | some e =>
      (.error (e.toErrorCode (wide "GetFileInformationByHandleEx(): ")),
        disk.call)
  | none => (.ok (Int64.ofNat (disk.content part.path).length), disk.call)

/-- The content of a file after `bytes` were written at `pos`. -/
def written (content : Bytes) (pos : Nat) (bytes : Bytes) : Bytes :=
  resized content pos ++ bytes ++ content.drop (pos + bytes.length)

/-- `WriteFile`: the number of bytes that were written. -/
def writeFile (env : DiskEnv) (bytes : Bytes) (part : FilePart) (disk : Disk) :
    Except ErrorCode Nat × FilePart × Disk :=
  match env.fault disk.calls with
  | some e =>
      (.error (e.toErrorCode (wide "WriteFile() ")), part, disk.call)
  | none =>
      let n := min bytes.length (max 1 (env.shortWrite disk.calls))
      (.ok n, { part with pos := part.pos + n },
        disk.call.put part.path (some
          (written (disk.content part.path) part.pos (bytes.take n))))

/-- The loop of `WriteFull`; the first argument counts the calls of
`WriteFile`. -/
def writeLoop (env : DiskEnv) : Nat → Bytes → FilePart → Disk →
    Except ErrorCode Unit × FilePart × Disk
  | 0, _, part, disk => (.ok (), part, disk)
  | calls + 1, bytes, part, disk =>
      match part.writeFile env bytes disk with
      | (.error ec, part, disk) => (.error ec, part, disk)
      | (.ok n, part, disk) =>
          if n < bytes.length then writeLoop env calls (bytes.drop n) part disk
          else (.ok (), part, disk)

/-- `WriteFull`.  The number of bytes is truncated to 32 bits. -/
def writeFull (env : DiskEnv) (bytes : Bytes) (part : FilePart) (disk : Disk) :
    Except ErrorCode Unit × FilePart × Disk :=
  let bytes := bytes.take (bytes.length % 2 ^ 32)
  writeLoop env (bytes.length + 1) bytes part disk

/-! ## The operations -/

def renameTo (newPath : WinPath) (part : FilePart) : FilePart :=
  { part with fsPath := newPath }

def truncated (env : DiskEnv) (part : FilePart) (disk : Disk) :
    Except ErrorCode FilePart × Disk :=
  match part.truncatedFile env 0 disk with
  | (.error ec, disk) => (.error ec, disk)
  | (.ok part, disk) =>
      (.ok { part with currentBytes := 0, totalBytes := 0 }, disk)

/-- `SaveOverlayData`.  A size that cannot be determined counts as `-1`. -/
def saveOverlayData (env : DiskEnv) (hashValue : WString)
    (totalBytes currentBytes : Int64) (part : FilePart) (disk : Disk) :
    Except ErrorCode Unit × FilePart × Disk :=
  if !part.discardFileHandle then
    (.error (ErrorCode.general (wide "FilePart not a discard file")), part,
      disk)
  else if totalBytes ≤ 0 ∨ currentBytes = 0 then
    (.error (ErrorCode.general
      (wide "Current download not support part download")), part, disk)
  else
    match hashConstruct hashValue with
    | .error ec => (.error ec, part, disk)
    | .ok spec =>
        let overlay : Overlay := ⟨spec, totalBytes, currentBytes, env.now⟩
        let sized := part.size env disk
        if sized.1.toOption.getD (-1) ≠ currentBytes then
          (.error (ErrorCode.general
            (wide "FilePart size not equal current_bytes size")), part,
            sized.2)
        else
          match part.seek env currentBytes sized.2 with
          | (.error ec, disk) => (.error ec, part, disk)
          | (.ok part, disk) =>
              match part.writeFull env overlay.encode disk with
              | (.error ec, part, disk) => (.error ec, part, disk)
              | (.ok (), part, disk) =>
                  (.ok (), { part with discardFileHandle := false }, disk)

/-- The path under which the system finds a file. -/
def fileKey (env : DiskEnv) (p : WinPath) : WString :=
  (WinPath.absolute env.dirs p).text

/-- `Solidified`: the file replaces the one at `fsPath`.  The buffer for the
name can be allocated. -/
def solidified (env : DiskEnv) (part : FilePart) (disk : Disk) :
    Except ErrorCode Unit × FilePart × Disk :=
  if !part.valid then
    (.error (ErrorCode.general (wide "FilePart is invalid")), part, disk)
  else
    match env.fault disk.calls with
    | some e =>
        (.error (e.toErrorCode (wide "SetFileInformationByHandle")), part,
          disk.call)
    | none =>
        (.ok (), { part with valid := false },
          (disk.call.put part.path none).put (fileKey env part.fsPath)
            (some (disk.content part.path)))

/-- `disposition_file_handle`: mark the file for deletion, with a second try
where the first kind of deletion is not supported. -/
def dispositionFileHandle (env : DiskEnv) (path : WString) (disk : Disk) :
    Disk :=
  match env.fault disk.calls with
  | none => disk.call.put path none
  | some e =>
      if e.value = 87 ∨ e.value = 1 ∨ e.value = 50 then
        match env.fault disk.call.calls with
        | none => disk.call.call.put path none
        | some _ => disk.call.call
      else disk.call

/-- `file_discard`, the destructor. -/
def fileDiscard (env : DiskEnv) (part : FilePart) (disk : Disk) : Disk :=
  if part.valid && part.discardFileHandle then
    dispositionFileHandle env part.path disk
  else disk

/-! ## Opening -/

def partPath (env : DiskEnv) (p : WinPath) : WString :=
  fileKey env p ++ wide ".part"

/-- Start from an empty file; nothing is done if it is empty already. -/
def startOver (env : DiskEnv) (part : FilePart) (disk : Disk) :
    Except ErrorCode FilePart × Disk :=
  if (disk.content part.path).length = 0 then (.ok part, disk)
  else part.truncatedFile env 0 disk

/-- The rest of `MakeFilePart` for a file that is longer than a trailer. -/
def resume (env : DiskEnv) (spec : HashSpec) (part : FilePart) (disk : Disk) :
    Except ErrorCode FilePart × Disk :=
  let content := disk.content part.path
  let seekTo := content.length - overlaySize
  match part.seek env (Int64.ofNat seekTo) disk with
  | (.error _, disk) => startOver env part disk
  | (.ok atOverlay, disk) =>
      match env.fault disk.calls with
      | some _ => startOver env atOverlay disk.call
      | none =>
          let overlay := content.drop seekTo
          if !overlayMatches spec overlay then
            startOver env atOverlay disk.call
          else
            match part.truncatedFile env (Int64.ofNat seekTo) disk.call with
            | (.error ec, disk) => (.error ec, disk)
            | (.ok part, disk) =>
                (.ok { part with
                  totalBytes := overlayTotal overlay
                  currentBytes := overlayCurrent overlay
                  lasteTime := overlayTime overlay }, disk)

def makeFilePart (env : DiskEnv) (p : WinPath) (hashValue : WString)
    (disk : Disk) : Except ErrorCode FilePart × Disk :=
  let part : FilePart :=
    { path := partPath env p, fsPath := WinPath.absolute env.dirs p }
  match env.fault disk.calls with
  | some e => (.error (e.toErrorCode []), disk.call)
  | none =>
      let disk := disk.call.put part.path (some (disk.content part.path))
      match part.size env disk with
      | (.error ec, disk) =>
          (.error ec, dispositionFileHandle env part.path disk)
      | (.ok fileSize, disk) =>
          if fileSize ≤ Int64.ofNat overlaySize ∨ hashValue = [] then
            part.startOver env disk
          else
            match hashConstruct hashValue with
            | .error _ => part.startOver env disk
            | .ok spec => part.resume env spec disk

end FilePart

end Baulk.Net
