import Baulk.Archive.Extraction
import Baulk.Zip.Decompress

/-!
# Extracting a zip archive

`zip::Extractor` goes through the entries of the central directory.  An entry
that fails ends the extraction, unless errors are ignored; the code
`ErrCanceled` ends it in any case.
-/

namespace Baulk.Zip

open Archive

namespace File

def isFileNameUTF8 (file : File) : Bool :=
  file.flags &&& 0x800 != 0

def isDir (file : File) : Bool :=
  file.mode &&& 0x80000000 != 0

def isSymlink (file : File) : Bool :=
  file.mode &&& 0x08000000 != 0

end File

/-- `zip::Extractor` with its open reader, and the arguments of `Extract`. -/
structure Extractor where
  content : FileBytes
  /-- Which calls of the system fail while an entry is decompressed. -/
  fault : Nat → Nat → Option SystemError
  codecs : Codecs
  baseOffset : UInt64
  files : List File
  filter : File → WString → Bool
  host : Host

namespace Extractor

/-- `Reader::Decompress` of an entry into a writer. -/
def decompress (x : Extractor) (writer : List Bytes → Bool) (index : Nat)
    (file : File) (fuel : Nat) : Option Outcome :=
  Zip.decompress ⟨x.content, x.fault index, writer⟩ x.codecs x.baseOffset file
    fuel

/-- `Reader::ResolveLinkName`. -/
def resolveLinkName (x : Extractor) (fuel index : Nat) (file : File)
    (ec : ErrorCode) : Option (Bytes × ErrorCode) :=
  if !file.linkname.isEmpty then some (file.linkname, ec)
  else
    match x.decompress (fun _ => true) index file fuel with
    | none => none
    | some o => some (if o.ok then o.session.written else [], o.ec.getD ec)

/-- The writer in `extract_entry`, for the chunks of a file. -/
def writer (x : Extractor) (log : Log) (chunks : List Bytes) : Bool :=
  match x.host.verdict log chunks with
  | .accepted => true
  -- The error of `WriteFull` goes to a variable that nothing reads.
  | .canceled | .failed _ => false

/-- The end of `extract_entry`: the data of a file. -/
def extractData (x : Extractor) (fuel index : Nat) (file : File)
    (ec : ErrorCode) (log : Log) : Option Extracted :=
  match x.decompress (x.writer log) index file fuel with
  | none => none
  | some o =>
      some ⟨o.ok, o.ec.getD ec,
        x.host.consumeAll log (Session.chunks o.session.trace)⟩

def extractEntry (x : Extractor) (fuel index : Nat) (file : File)
    (ec : ErrorCode) (log : Log) : Option Extracted :=
  let log := log ++ [.entry index]
  match joinSanitizeFsPath (x.host.encodeToNativePath file.isFileNameUTF8)
      x.host.destination file.name with
  | none =>
      some ⟨false, ErrorCode.make ErrorCode.errGeneral
        (wide "harmful path <s>: " ++ x.host.encodeToNativePath true file.name),
        log⟩
  | some (out, encodedPath) =>
      if !x.filter file encodedPath then
        some ⟨false, ErrorCode.make ErrorCode.errCanceled (wide "canceled"),
          log⟩
      else if file.isDir then
        some (x.host.perform (.makeDirectories out file.time) ec log)
      else if file.isSymlink then
        match x.resolveLinkName fuel index file ec with
        | none => none
        | some (linkname, ec) =>
            some (x.host.symlink (zipCreateSymlink x.host.encodeToNativePath
              file.isFileNameUTF8) out linkname ec log)
      else
        let created := x.host.perform
          (.newFile out file.time x.host.options.overwriteMode) ec log
        if !created.ok then some created
        else x.extractData fuel index file created.ec created.log

/-- The loop over the entries. -/
def extractFiles (x : Extractor) (fuel : Nat) :
    Nat → List File → ErrorCode → Log → Option Extracted
  | _, [], ec, log => some ⟨true, ec, log⟩
  | index, file :: files, ec, log =>
      match x.extractEntry fuel index file ec log with
      | none => none
      | some r =>
          if r.ok then x.extractFiles fuel (index + 1) files r.ec r.log
          else if r.ec.code = ErrorCode.errCanceled ∨
              x.host.options.ignoreError = false then some r
          else x.extractFiles fuel (index + 1) files r.ec r.log

def extract (x : Extractor) (fuel : Nat) (ec : ErrorCode) :
    Option Extracted :=
  let created := x.host.perform (.createDirectories x.host.destination) ec []
  if !created.ok then some created
  else x.extractFiles fuel 0 x.files created.ec created.log

end Extractor

end Baulk.Zip
