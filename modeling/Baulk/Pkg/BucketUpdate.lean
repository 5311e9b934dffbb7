import Baulk.Archive.Contents
import Baulk.Pkg.Package

/-!
# Updating a bucket

`BucketUpdate` downloads the archive of a bucket, extracts it to a folder of the
temporary directory, flattens that folder, deletes the bucket and moves the folder
to its place.  The folder has a fixed name and is not emptied before.
-/

namespace Baulk.Pkg

open Archive Fs Support

/-! ## The steps -/

/-- A downloaded archive, as `extract_zip` finds it. -/
structure BucketArchive where
  openFails : Bool := false
  isZip : Bool := true
  initializeFails : Bool := false
  /-- What `ZipExtractor::Extract` does. -/
  extracted : Extracted
  /-- What it leaves at the destination if it fails. -/
  left : Entry Leaf := none

/-- The folders that an update works on. -/
structure BucketDisk where
  /-- `<temp>\<name>`. -/
  bucketTemp : Entry Leaf
  /-- `<temp>\<name>.<process>.new`, which `MakeFlattened` uses. -/
  tempNew : Entry Leaf
  /-- `<buckets>\<name>`. -/
  bucketReal : Entry Leaf

structure UpdateRun where
  result : Bool
  disk : BucketDisk

/-- What an update gets from its environment. -/
structure UpdateHost where
  appTemp : WString
  processId : WString
  makeDirectoriesFails : Bool := false
  /-- The calls of `WinGet` for an address. -/
  winGet : WString → Nat → Option BucketArchive
  flatten : FlattenFaults := {}
  /-- `PathExists` fails for the bucket. -/
  existsFails : Bool := false
  /-- `ForceDeleteFolders` fails. -/
  remove : Option (List FileName → Bool) := none
  moveFails : Bool := false
  /-- `BucketRepoUpdate`, for a bucket that is a repository. -/
  repoUpdate : BucketDisk → UpdateRun

def bucketTempPath (host : UpdateHost) (bucket : Bucket) : WinPath :=
  WinPath.ofText (host.appTemp ++ wide "\\" ++ bucket.name)

def folderAt : Entry Leaf → Directory Leaf
  | some (.folder folder) => folder
  | _ => .nil

/-- The temporary folder after the extraction. -/
def extractedSite (host : UpdateHost) (bucket : Bucket) (archive : BucketArchive)
    (disk : BucketDisk) : FlattenSite Leaf where
  path := bucketTempPath host bucket
  processId := host.processId
  name := .ofText bucket.name
  inner := .ofText (bucketTempPath host bucket).parentPath.filename
  d := some (.folder (contents (bucketTempPath host bucket)
    archive.extracted.log (folderAt disk.bucketTemp)))
  newPath := disk.tempNew

def extractZip (host : UpdateHost) (bucket : Bucket) (archive : BucketArchive)
    (disk : BucketDisk) : Bool × BucketDisk :=
  if archive.openFails || !archive.isZip || archive.initializeFails then
    (false, disk)
  else if !archive.extracted.ok then
    (false, { disk with bucketTemp := archive.left })
  else
    let run := makeFlattened host.flatten
      (extractedSite host bucket archive disk)
    (run.error.isNone,
      { disk with bucketTemp := run.site.d, tempNew := run.site.newPath })

/-- The four attempts to download the archive. -/
def download (host : UpdateHost) (bucket : Bucket) (id : WString) :
    Option BucketArchive :=
  (List.range 4).findSome?
    (host.winGet (bucket.url ++ wide "/archive/" ++ id ++ wide ".zip"))

/-- The bucket after `ForceDeleteFolders`. -/
def cleared (host : UpdateHost) (bucketReal : Entry Leaf) : Entry Leaf :=
  if !host.existsFails && bucketReal.isSome then
    (removeAll host.remove bucketReal).2
  else bucketReal

/-- The end of `BucketUpdate`: the bucket is deleted, and `MoveFileW` moves the
temporary folder to its place. -/
def replaceBucket (host : UpdateHost) (disk : BucketDisk) : UpdateRun :=
  match host.moveFails, cleared host disk.bucketReal, disk.bucketTemp with
  | false, none, some item =>
      ⟨true, { disk with bucketTemp := none, bucketReal := some item }⟩
  | _, bucketReal, _ => ⟨false, { disk with bucketReal }⟩

def bucketUpdate (host : UpdateHost) (bucket : Bucket) (id : WString)
    (disk : BucketDisk) : UpdateRun :=
  match bucket.mode with
  | .git => host.repoUpdate disk
  | .other _ => ⟨false, disk⟩
  | .github =>
      if host.makeDirectoriesFails then ⟨false, disk⟩
      else
        match download host bucket id with
        | none => ⟨false, disk⟩
        | some archive =>
            let (extracted, disk) := extractZip host bucket archive disk
            if extracted then replaceBucket host disk else ⟨false, disk⟩

/-! ## What an update is for -/

section Updating

variable {host : UpdateHost} {bucket : Bucket} {id : WString}
  {disk : BucketDisk} {archive : BucketArchive}

end Updating

end Baulk.Pkg
