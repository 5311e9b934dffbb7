import Baulk.Archive.Extraction
import Baulk.Tar.Reader

/-!
# Extracting a tar archive

`tar::Extractor` calls `Next` until it fails, and decides from the error code
that is left whether the extraction was a success.  The same variable serves
`Next`, the writer and the underlying reader, and nothing clears it in between
except `WriteTo`.
-/

namespace Baulk.Tar

open Archive
open Support (Step loop)

/-- The arguments of `tar::Extractor` and of `Extract`. -/
structure Extractor where
  rt : Runtime
  filter : Header → WString → Bool
  host : Host

namespace Extractor

variable {R : ExtractReader}

/-- The writer of an entry, whose file was created in the state `log`. -/
def writer (x : Extractor) (log : Log) : Writer := fun chunks =>
  match x.host.verdict log chunks with
  | .accepted => .accept
  -- The error code is left as it is.
  | .canceled => .refuse none
  | .failed e => .refuse (some e.toErrorCode)

/-- The end of `extract_entry`: the data of a regular file. -/
def extractData (x : Extractor) (h : Header) (log : Log) (r : Reader R) :
    Option (Extracted × Reader R) :=
  match r.writeTo (x.writer log) h.size with
  | none => none
  | some (result, r) =>
      let log := x.host.consumeAll log result.chunks
      match result.outcome with
      | .ok () => some (⟨true, ErrorCode.cleared, log⟩, r)
      | .error e =>
          some (⟨false, e.getD ErrorCode.cleared, log ++ [.discard]⟩, r)

def extractEntry (x : Extractor) (h : Header) (ec : ErrorCode) (log : Log)
    (r : Reader R) : Option (Extracted × Reader R) :=
  match joinSanitizeFsPath (x.host.encodeToNativePath true)
      x.host.destination h.name with
  | none =>
      some (⟨false, ErrorCode.make ErrorCode.errGeneral
        (wide "harmful path: " ++ x.host.encodeToNativePath true h.name),
        log⟩, r)
  | some (out, encodedPath) =>
      if !x.filter h encodedPath then
        some (⟨false, ErrorCode.make ErrorCode.errCanceled (wide "canceled"),
          log⟩, r)
      else if h.isDir then
        some (x.host.perform (.makeDirectories out h.modTime) ec log, r)
      else if h.isSymlink then
        some (x.host.symlink (tarCreateSymlink x.host.encodeToNativePath) out
          h.linkName ec log, r)
      else if !h.isRegular then some (⟨true, ec, log⟩, r)
      else
        let created := x.host.perform (.newFile out h.modTime true) ec log
        if !created.ok then some (created, r)
        else x.extractData h created.log r

/-- The variables of the loop; `count` is the number of headers so far. -/
structure ExtractLoop (R : ExtractReader) where
  reader : Reader R
  ec : ErrorCode
  log : Log
  count : Nat

/-- What follows the loop. -/
def finish (ec : ErrorCode) (r : Reader R) (log : Log) : Extracted :=
  if r.index = 0 ∧ ec.code = ErrorCode.errNotTarFile then
    ⟨false, ErrorCode.make ErrorCode.errAnotherWay
      (wide "extract another way"), log⟩
  else if ec.isError ∧ ec.code ≠ ErrorCode.errEnded then ⟨false, ec, log⟩
  else ⟨true, ErrorCode.cleared, log⟩

/-- One round of `for (;;)`. -/
def extractBody (x : Extractor) (fuel : Nat) (l : ExtractLoop R) :
    Option (Step (ExtractLoop R) Extracted) :=
  match next x.rt R fuel l.ec l.reader with
  | none => none
  | some ⟨none, ec, r⟩ => some (.done (finish ec r l.log))
  | some ⟨some h, ec, r⟩ =>
      match x.extractEntry h ec (l.log ++ [.entry l.count]) r with
      | none => none
      | some (e, r) =>
          if e.ok then some (.next ⟨r, e.ec, e.log, l.count + 1⟩)
          else if e.ec.code = ErrorCode.errCanceled then
            some (.done ⟨false, e.ec, e.log⟩)
          else if e.ec.code = ErrorCode.errNotTarFile ∨
              e.ec.code = ErrorCode.errExtractGeneral ∨
              x.host.options.ignoreError = false then
            some (.done (finish e.ec r e.log))
          else some (.next ⟨r, e.ec, e.log, l.count + 1⟩)

/-- `Extract`, with an underlying reader in the state `s`. -/
def extract (x : Extractor) (R : ExtractReader) (fuel : Nat) (s : R.State)
    (ec : ErrorCode) : Option Extracted :=
  let created := x.host.perform (.createDirectories x.host.destination) ec []
  if !created.ok then some created
  else
    loop (x.extractBody fuel) fuel
      { reader := { source := s }
        ec := created.ec
        log := created.log
        count := 0 }

end Extractor

end Baulk.Tar
