import Baulk.Core.File
import Baulk.Tar.Cursor

/-!
# Reading a tar stream from a file

`FileReader` is the underlying reader without compression.  Discarding is a
relative seek, which may leave the file behind its end and takes negative
numbers as well.
-/

namespace Baulk.Tar

open Support (Step loop loop_spec)

/-- The position in the file, and how many calls of the system were made. -/
structure FileState where
  pos : Nat
  calls : Nat

/-- A file that is read, and which calls of the system fail. -/
structure SourceFile where
  content : FileBytes
  fault : Nat → Option SystemError := fun _ => none

namespace FileReader

/-- `ReadFile`, whose length is a 32-bit number. -/
def readFile (file : SourceFile) (len : Nat) (s : FileState) :
    Except SystemError Bytes × FileState :=
  match file.fault s.calls with
  | some e => (.error e, { s with calls := s.calls + 1 })
  | none =>
      let got := segment file.content.bytes s.pos (len % 2 ^ 32)
      (.ok got, ⟨s.pos + got.length, s.calls + 1⟩)

def read (file : SourceFile) (len : Nat) (s : FileState) :
    Except Failure Bytes × FileState :=
  match readFile file len s with
  | (.error e, s) => (.error (some (e.toErrorCode (wide "ReadFile: "))), s)
  | (.ok got, s) => (.ok got, s)

/-- `FileReader::Discard`.  A position before the file is refused with
`ERROR_NEGATIVE_SEEK`, and so is one that overflows. -/
def discard (file : SourceFile) (len : Int) (s : FileState) :
    Except Failure Unit × FileState :=
  match file.fault s.calls with
  | some e =>
      (.error (some (e.toErrorCode (wide "SetFilePointerEx: "))),
        { s with calls := s.calls + 1 })
  | none =>
      if (s.pos : Int) + len < 0 ∨ 2 ^ 63 ≤ (s.pos : Int) + len then
        (.error (some (ErrorCode.make 131 (wide "SetFilePointerEx: "))),
          { s with calls := s.calls + 1 })
      else (.ok (), ⟨((s.pos : Int) + len).toNat, s.calls + 1⟩)

def bufferSize : Nat := 8192

/-- State of `while (filesize > 0)`. -/
structure WriteLoop where
  filesize : Int
  extracted : Int := 0
  chunks : List Bytes := []
  state : FileState

/-- One round of `while (filesize > 0)`. -/
def writeBody (file : SourceFile) (w : Writer) (l : WriteLoop) :
    Option (Step WriteLoop (WriteResult × FileState)) :=
  if l.filesize ≤ 0 then
    some (.done (⟨.ok (), l.chunks, l.extracted⟩, l.state))
  else
    let minsize := min bufferSize l.filesize.toNat
    match readFile file minsize l.state with
    | (.error e, s) =>
        some (.done (⟨.error (some (e.toErrorCode (wide "ReadFile: "))),
          l.chunks, l.extracted⟩, s))
    | (.ok got, s) =>
        let l : WriteLoop :=
          { filesize := l.filesize - got.length
            extracted := l.extracted + got.length
            chunks := l.chunks ++ [got]
            state := s }
        match w l.chunks with
        | .accept => some (.next l)
        | .refuse e =>
            some (.done (⟨.error e, l.chunks, l.extracted⟩, l.state))

def writeTo (file : SourceFile) (fuel : Nat) (w : Writer) (filesize : Int)
    (s : FileState) : Option (WriteResult × FileState) :=
  loop (writeBody file w) fuel { filesize := filesize, state := s }

end FileReader

def fileReader (file : SourceFile) (fuel : Nat) : ExtractReader where
  State := FileState
  read len s := some (FileReader.read file len s)
  discard len s := some (FileReader.discard file len s)
  writeTo := FileReader.writeTo file fuel

/-! ## The cursor of a file -/

namespace FileReader

variable {file : SourceFile}

theorem readFile_ok {len : Nat} {s s' : FileState} {got : Bytes}
    (h : readFile file len s = (.ok got, s')) :
    got.length ≤ len ∧ got = segment file.content.bytes s.pos got.length ∧
      s'.pos = s.pos + got.length := by
  unfold readFile at h
  split at h <;> cases h
  have hlength := length_segment file.content.bytes s.pos (len % 2 ^ 32)
  have hmod := Nat.mod_le len (2 ^ 32)
  exact ⟨by omega, (segment_length _ _ _).symm, rfl⟩

theorem readFile_error {len : Nat} {s s' : FileState} {e : SystemError}
    (h : readFile file len s = (.error e, s')) : s'.pos = s.pos := by
  unfold readFile at h
  split at h <;> cases h
  rfl

/-- `WriteTo` hands over the next bytes, never more than `n` of them. -/
theorem writeTo_chunks {fuel : Nat} {w : Writer} {n : Int} {s s' : FileState}
    {result : WriteResult}
    (h : writeTo file fuel w n s = some (result, s')) :
    result.extracted = result.chunks.flatten.length ∧
      (result.extracted ≤ n ∨ result.chunks = []) ∧
      result.chunks.flatten =
        segment file.content.bytes s.pos result.chunks.flatten.length ∧
      s'.pos = s.pos + result.chunks.flatten.length := by
  refine loop_spec
    (I := fun l : WriteLoop =>
      l.extracted = l.chunks.flatten.length ∧
        (l.extracted + l.filesize = n) ∧
        (0 ≤ l.filesize ∨ l.chunks = []) ∧
        l.chunks.flatten =
          segment file.content.bytes s.pos l.chunks.flatten.length ∧
        l.state.pos = s.pos + l.chunks.flatten.length)
    (Q := fun r : WriteResult × FileState =>
      r.1.extracted = r.1.chunks.flatten.length ∧
        (r.1.extracted ≤ n ∨ r.1.chunks = []) ∧
        r.1.chunks.flatten =
          segment file.content.bytes s.pos r.1.chunks.flatten.length ∧
        r.2.pos = s.pos + r.1.chunks.flatten.length) ?_ ?_ h
  · rintro l step ⟨hextracted, hsum, hsize, hflat, hpos⟩ hstep
    unfold writeBody at hstep
    split at hstep
    · cases hstep
      exact ⟨hextracted, hsize.imp (fun h => by dsimp only; omega) id, hflat,
        hpos⟩
    · rename_i hpositive
      dsimp only at hstep
      rcases hread : readFile file (min bufferSize l.filesize.toNat) l.state
        with ⟨e | got, s₁⟩ <;> rw [hread] at hstep
      · cases hstep
        refine ⟨hextracted, .inl ?_, hflat, ?_⟩
        · dsimp only
          omega
        · exact (readFile_error hread).trans hpos
      · obtain ⟨hle, hgot, hpos₁⟩ := readFile_ok hread
        have hlength : (l.chunks ++ [got]).flatten.length =
            l.chunks.flatten.length + got.length := by simp
        have hnext : (l.chunks ++ [got]).flatten =
            segment file.content.bytes s.pos
              (l.chunks ++ [got]).flatten.length := by
          rw [hlength, ← segment_append, ← hflat, ← hpos, ← hgot]
          simp
        dsimp only at hstep
        split at hstep <;> cases hstep
        · exact ⟨by dsimp only; omega, by dsimp only; omega,
            .inl (by dsimp only; omega), hnext, by dsimp only; omega⟩
        · exact ⟨by dsimp only; omega, .inl (by dsimp only; omega), hnext,
            by dsimp only; omega⟩
  · exact ⟨rfl, by simp, .inr rfl, by simp, by simp⟩

/-- A file is a cursor over its content.  Only negative seeks move back. -/
def cursor (file : SourceFile) (fuel : Nat) :
    TotalCursor (fileReader file fuel) file.content.bytes where
  At s p := s.pos = p
  Forward k := 0 ≤ k
  forward_of_nonneg h := h
  read_ok {s s' p n got} hs h := by
    subst hs
    have hread : read file n s = (.ok got, s') := Option.some.inj h
    unfold read at hread
    split at hread <;> cases hread
    rename_i hfile
    exact readFile_ok hfile
  read_error {s s' p n e} hs h := by
    have hread : read file n s = (.error e, s') := Option.some.inj h
    unfold read at hread
    split at hread <;> cases hread
    rename_i hfile
    exact ⟨p, le_refl p, (readFile_error hfile).trans hs⟩
  discard_ok {s s' p k} hs hk h := by
    have hseek : discard file k s = (.ok (), s') := Option.some.inj h
    unfold discard at hseek
    split at hseek
    · cases hseek
    · split at hseek <;> cases hseek
      dsimp only
      omega
  discard_error {s s' p k e} hs hk h := by
    have hseek : discard file k s = (.error e, s') := Option.some.inj h
    unfold discard at hseek
    split at hseek
    · cases hseek
      exact ⟨p, le_refl p, hs⟩
    · split at hseek <;> cases hseek
      exact ⟨p, le_refl p, hs⟩
  writeTo_spec {s s' p w n result} hs h := by
    subst hs
    exact writeTo_chunks h
  read_returns _ n := ⟨_, rfl⟩
  discard_returns _ k _ := ⟨_, rfl⟩

end FileReader

/-! ## Small streams -/

/-- A header block in the oldest dialect. -/
def plainBlock (name : UInt8) (size chksum : Bytes) (flag : UInt8) : Bytes :=
  [name] ++ List.replicate 123 0 ++ size ++ List.replicate 12 0 ++ chksum ++
    [flag] ++ List.replicate 355 0

theorem length_plainBlock (name flag : UInt8) (size chksum : Bytes) :
    (plainBlock name size chksum flag).length =
      492 + size.length + chksum.length := by
  simp only [plainBlock, List.length_append, List.length_replicate,
    List.length_cons, List.length_nil]
  omega

def plainRuntime : Runtime where
  decode := fun text => text.map UInt8.toUInt16
  iterate := id
  iterate_perm := fun records => List.Perm.refl records

end Baulk.Tar
