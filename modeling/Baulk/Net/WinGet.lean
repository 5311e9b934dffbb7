import Baulk.Net.FilePart

/-!
# Downloads

`HttpClient::WinGet` opens the partial file, sends the request, chooses the
name under which the file will be saved, receives the data and renames the
file.  What the network does in the course of a download is an `Exchange`.
Every return destroys the partial file, which removes it unless it was renamed
or a trailer was saved.

The model starts where the request has been opened.  Redirects, headers and the
text of the URL count by the names and numbers that are read off them.
-/

namespace Baulk.Net

/-! ## The network -/

structure DownloadOptions where
  hashValue : WString
  cwd : WinPath
  destination : WinPath
  forceOverwrite : Bool := false

def DownloadOptions.overwriteExists (opts : DownloadOptions) : Bool :=
  opts.forceOverwrite || !opts.destination.isEmpty

/-- `minimal_response`, with what `content_length`, `enable_part_download` and
`extract_filename` find in its headers. -/
structure MinimalResponse where
  statusCode : UInt32
  statusText : WString
  contentLength : Option Int64
  partDownload : Bool
  dispositionName : Option WString

def MinimalResponse.isSuccessStatusCode (r : MinimalResponse) : Bool :=
  200 ≤ r.statusCode && r.statusCode ≤ 299

/-- One pass of the receive loop. -/
inductive Round where
  /-- `WinHttpQueryDataAvailable` fails. -/
  | unavailable (e : SystemError)
  /-- `WinHttpReadData` fails. -/
  | unread (announced : UInt32) (e : SystemError)
  /-- `WinHttpReadData` returns at most as many bytes as were announced. -/
  | received (announced : UInt32) (bytes : Bytes)
      (le : bytes.length ≤ announced.toNat)

/-- What the network does in the course of a download. -/
structure Exchange where
  /-- The file name of the URL, once the request is open. -/
  filename : Except ErrorCode WString
  /-- How `write_headers` fails. -/
  headers : Option ErrorCode := none
  /-- How `write_body` fails. -/
  body : Option ErrorCode := none
  response : Except ErrorCode MinimalResponse
  /-- The file name of the location that was redirected to. -/
  location : Option WString := none
  rounds : List Round

/-! ## The destination -/

def makeDestination (opts : DownloadOptions) (filename : WString) : WinPath :=
  if !opts.destination.isEmpty then opts.destination
  else opts.cwd.append (.ofText filename)

/-- `std::filesystem::exists`. -/
def fileExists (env : DiskEnv) (p : WinPath) (disk : Disk) : Bool :=
  (disk.files (FilePart.fileKey env p)).isSome

/-- The sibling that `make_destination_decorous` tries. -/
def sibling (destination : WinPath) (i : Nat) : WinPath :=
  let filename := destination.filename
  destination.parentPath.append (.ofText (WinPath.removeExtension filename ++
    wide "-(" ++ wide (toString i) ++ wide ")" ++ WinPath.extension filename))

def makeDestinationDecorous (env : DiskEnv) (destination : WinPath)
    (forceOverwrite : Bool) (disk : Disk) : Except ErrorCode WinPath :=
  if !fileExists env destination disk then .ok destination
  else if forceOverwrite then .ok destination
  else
    match ((List.range' 1 99).map (sibling destination)).find? fun newPath =>
      !fileExists env newPath disk with
    | some newPath => .ok newPath
    | none =>
        .error (ErrorCode.make 80
          (wide "'" ++ destination.text ++ wide "' already exists"))

/-- The name that the redirects and the headers ask for. -/
def answeredDestination (opts : DownloadOptions) (x : Exchange)
    (r : MinimalResponse) (destination : WinPath) : WinPath :=
  let destination :=
    match x.location with
    | none => destination
    | some name => opts.cwd.append (.ofText name)
  if opts.destination.isEmpty then
    match r.dispositionName with
    | none => destination
    | some name => opts.cwd.append (.ofText name)
  else destination

/-! ## Up to the receive loop -/

/-- The variables of `WinGet` before the receive loop. -/
structure Transfer where
  destination : WinPath
  part : FilePart
  totalSize : Int64
  partSupport : Bool

/-- A return without a result. -/
def giveUp (env : DiskEnv) (part : FilePart) (disk : Disk) (ec : ErrorCode) :
    Except ErrorCode Transfer × Disk :=
  (.error ec, part.fileDiscard env disk)

/-- From the name on: check the status and cut off the file, unless the server
goes on where the file ends. -/
def accept (env : DiskEnv) (opts : DownloadOptions) (r : MinimalResponse)
    (destination : WinPath) (part : FilePart) (disk : Disk) :
    Except ErrorCode Transfer × Disk :=
  let part := part.renameTo destination
  let totalSize := r.contentLength.getD (-1)
  let partSupport :=
    !opts.hashValue.isEmpty && r.partDownload && decide (0 < totalSize)
  if !r.isSuccessStatusCode then
    giveUp env part disk (ErrorCode.make ErrorCode.errGeneral
      (wide "response: " ++ wide (toString r.statusCode.toNat) ++
        wide " status: " ++ r.statusText))
  else if r.statusCode ≠ 206 then
    match part.truncated env disk with
    | (.error ec, disk) => giveUp env part disk ec
    | (.ok part, disk) =>
        (.ok { destination, part, totalSize, partSupport }, disk)
  else
    (.ok { destination, part, totalSize := totalSize + part.currentBytes
           partSupport }, disk)

/-- Send the request and choose the destination. -/
def request (env : DiskEnv) (opts : DownloadOptions) (x : Exchange)
    (destination : WinPath) (part : FilePart) (disk : Disk) :
    Except ErrorCode Transfer × Disk :=
  match x.headers, x.body, x.response with
  | some ec, _, _ => giveUp env part disk ec
  | none, some ec, _ => giveUp env part disk ec
  | none, none, .error ec => giveUp env part disk ec
  | none, none, .ok r =>
      match makeDestinationDecorous env
          (answeredDestination opts x r destination) opts.overwriteExists
          disk with
      | .error ec => giveUp env part disk ec
      | .ok destination => accept env opts r destination part disk

/-- `WinGet` up to the receive loop. -/
def prepare (env : DiskEnv) (opts : DownloadOptions) (x : Exchange)
    (disk : Disk) : Except ErrorCode Transfer × Disk :=
  match x.filename with
  | .error ec => (.error ec, disk)
  | .ok filename =>
      let destination := makeDestination opts filename
      match FilePart.makeFilePart env destination opts.hashValue disk with
      | (.error ec, disk) => (.error ec, disk)
      | (.ok part, disk) => request env opts x destination part disk

/-! ## The receive loop -/

/-- The state in which the receive loop ends, and the error that ended it. -/
structure Received where
  error : Option ErrorCode
  currentBytes : Int64
  part : FilePart
  disk : Disk

/-- The receive loop.  The result of the write is ignored, and what counts is
the announced size.  It is `none` if the rounds are not enough. -/
def receive (env : DiskEnv) : List Round → Int64 → FilePart → Disk →
    Option Received
  | [], _, _, _ => none
  | .unavailable e :: _, currentBytes, part, disk =>
      some { error := some (e.toErrorCode []), currentBytes, part, disk }
  | .unread _ e :: _, currentBytes, part, disk =>
      some { error := some (e.toErrorCode []), currentBytes, part, disk }
  | .received announced bytes _ :: rounds, currentBytes, part, disk =>
      let (_, part, disk) := part.writeFull env bytes disk
      let currentBytes := currentBytes + Int64.ofNat announced.toNat
      if 0 < announced then receive env rounds currentBytes part disk
      else some { error := none, currentBytes, part, disk }

/-- `save_part_overlay`, and the return without a result. -/
def Transfer.breakOff (env : DiskEnv) (hashValue : WString) (t : Transfer)
    (got : Received) (ec : ErrorCode) : Except ErrorCode WinPath × Disk :=
  if t.partSupport then
    let saved := got.part.saveOverlayData env hashValue t.totalSize
      got.currentBytes got.disk
    (.error ec, saved.2.1.fileDiscard env saved.2.2)
  else (.error ec, got.part.fileDiscard env got.disk)

/-- `WinGet` from the receive loop on.  The result of the rename is ignored. -/
def Transfer.run (env : DiskEnv) (hashValue : WString) (rounds : List Round)
    (t : Transfer) (disk : Disk) : Option (Except ErrorCode WinPath × Disk) :=
  match receive env rounds t.part.currentBytes t.part disk with
  | none => none
  | some got =>
      match got.error with
      | some ec => some (t.breakOff env hashValue got ec)
      | none =>
          if t.totalSize ≠ 0 ∧ got.currentBytes < t.totalSize then
            some (t.breakOff env hashValue got (ErrorCode.make
              ErrorCode.errGeneral (wide "connection has been disconnected")))
          else
            let solid := got.part.solidified env got.disk
            some (.ok t.destination, solid.2.1.fileDiscard env solid.2.2)

/-- `HttpClient::WinGet`. -/
def winGet (env : DiskEnv) (opts : DownloadOptions) (x : Exchange)
    (disk : Disk) : Option (Except ErrorCode WinPath × Disk) :=
  match prepare env opts x disk with
  | (.error ec, disk) => some (.error ec, disk)
  | (.ok t, disk) => t.run env opts.hashValue x.rounds disk

end Baulk.Net
