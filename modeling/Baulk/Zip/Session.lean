import Baulk.Core.File

/-!
# Reading and writing while an entry is decompressed

`Reader::Decompress` works on an open file and a writer.  A `Session` is the
position in the file together with a record of what was read from it, what was
presented to a codec as input and what was handed to the writer.

`ReadFile` on a disk file returns as many bytes as were asked for, or all that
are left, and may fail at any call.
-/

namespace Baulk.Zip

/-- What an entry is decompressed from and to. -/
structure Env where
  content : FileBytes
  /-- Which calls of the operating system fail. -/
  fault : Nat → Option SystemError
  /-- The writer, which sees every chunk so far and accepts the last one or
  not. -/
  writer : List Bytes → Bool

/-- What can be observed of a decompression. -/
inductive IoEvent where
  /-- `ReadFile` at offset `start` returned `bytes`. -/
  | read (start : Nat) (bytes : Bytes)
  /-- A codec was given input for which `read` had been read. -/
  | feed (read given : Bytes)
  /-- The LZMA decoder was given properties from the prefix `read`. -/
  | properties (read given : Bytes)
  | write (chunk : Bytes)

/-- State of the file and record of a decompression. -/
structure Session where
  pos : Nat
  calls : Nat
  trace : List IoEvent

namespace Session

/-- Append an event. -/
def log (s : Session) (event : IoEvent) : Session :=
  { s with trace := s.trace ++ [event] }

def chunks (trace : List IoEvent) : List Bytes :=
  trace.filterMap fun
    | .write chunk => some chunk
    | _ => none

/-- All bytes handed to the writer. -/
def written (s : Session) : Bytes :=
  (chunks s.trace).flatten

def readFile (env : Env) (n : Nat) (s : Session) :
    Except SystemError Bytes × Session :=
  match env.fault s.calls with
  | some e => (.error e, { s with calls := s.calls + 1 })
  | none =>
      let got := (env.content.bytes.drop s.pos).take n
      (.ok got,
        { pos := s.pos + got.length
          calls := s.calls + 1
          trace := s.trace ++ [.read s.pos got] })

/-- Call `ReadFile` until `n` bytes are read or a call returns none.  After a
short read the file is at its end, so a second call is the last one. -/
def readUpTo (env : Env) (n : Nat) (s : Session) :
    Except SystemError Bytes × Session :=
  match s.readFile env n with
  | (.error e, s) => (.error e, s)
  | (.ok got, s) =>
      if got.length = 0 ∨ got.length = n then (.ok got, s)
      else
        match s.readFile env (n - got.length) with
        | (.error e, s) => (.error e, s)
        | (.ok rest, s) => (.ok (got ++ rest), s)

/-- The error of `bela::io::ReadFull` at the end of the file. -/
def endOfFile : ErrorCode :=
  ErrorCode.make ErrorCode.errEOF (wide "Reached the end of the file")

/-- `bela::io::ReadFull`. -/
def readFull (env : Env) (n : Nat) (s : Session) :
    Except ErrorCode Bytes × Session :=
  if n = 0 then (.ok [], s)
  else
    match s.readUpTo env n with
    | (.error e, s) => (.error (e.toErrorCode (wide "ReadFile: ")), s)
    | (.ok got, s) =>
        if got.length = n then (.ok got, s) else (.error endOfFile, s)

def write (env : Env) (chunk : Bytes) (s : Session) : Bool × Session :=
  (env.writer (chunks (s.log (.write chunk)).trace), s.log (.write chunk))

/-! ## What is written -/

@[simp]
theorem chunks_log_write (s : Session) (chunk : Bytes) :
    chunks (s.log (.write chunk)).trace = chunks s.trace ++ [chunk] := by
  simp [log, chunks]

@[simp]
theorem chunks_log_read (s : Session) (start : Nat) (bytes : Bytes) :
    chunks (s.log (.read start bytes)).trace = chunks s.trace := by
  simp [log, chunks]

@[simp]
theorem chunks_log_feed (s : Session) (read given : Bytes) :
    chunks (s.log (.feed read given)).trace = chunks s.trace := by
  simp [log, chunks]

@[simp]
theorem chunks_log_properties (s : Session) (read given : Bytes) :
    chunks (s.log (.properties read given)).trace = chunks s.trace := by
  simp [log, chunks]

@[simp]
theorem chunks_readFile (env : Env) (n : Nat) (s : Session) :
    chunks (s.readFile env n).2.trace = chunks s.trace := by
  unfold readFile
  split
  · rfl
  · exact chunks_log_read s _ _

@[simp]
theorem chunks_readUpTo (env : Env) (n : Nat) (s : Session) :
    chunks (s.readUpTo env n).2.trace = chunks s.trace := by
  have hfirst := chunks_readFile env n s
  unfold readUpTo
  rcases h : s.readFile env n with ⟨e | got, s'⟩ <;> rw [h] at hfirst
  · exact hfirst
  · dsimp only
    split
    · exact hfirst
    · have hsecond := chunks_readFile env (n - got.length) s'
      rcases h' : s'.readFile env (n - got.length) with ⟨e | rest, s''⟩ <;>
        rw [h'] at hsecond <;> exact hsecond.trans hfirst

@[simp]
theorem chunks_readFull (env : Env) (n : Nat) (s : Session) :
    chunks (s.readFull env n).2.trace = chunks s.trace := by
  have hread := chunks_readUpTo env n s
  unfold readFull
  split
  · rfl
  · rcases h : s.readUpTo env n with ⟨e | got, s'⟩ <;> rw [h] at hread
    · exact hread
    · dsimp only
      split <;> exact hread

@[simp]
theorem written_write (env : Env) (chunk : Bytes) (s : Session) :
    (s.write env chunk).2.written = s.written ++ chunk := by
  simp [write, written]

/-! ## What is read -/

/-- The bytes from the current position on, at most `n` of them. -/
def ahead (env : Env) (n : Nat) (s : Session) : Bytes :=
  (env.content.bytes.drop s.pos).take n

theorem length_ahead (env : Env) (n : Nat) (s : Session) :
    (s.ahead env n).length = min n (env.content.bytes.length - s.pos) := by
  rw [ahead, List.length_take, List.length_drop]

/-- The event is a read of `bytes` at `start`, or of nothing. -/
def IsRead (start : Nat) (bytes : Bytes) (event : IoEvent) : Prop :=
  event = .read start bytes ∨ ∃ p, event = .read p []

theorem readFile_ok {env : Env} {n : Nat} {s s' : Session} {got : Bytes}
    (h : s.readFile env n = (.ok got, s')) :
    got = s.ahead env n ∧ s'.pos = s.pos + got.length ∧
      s'.trace = s.trace ++ [.read s.pos got] := by
  unfold readFile at h
  split at h <;> cases h
  exact ⟨rfl, rfl, rfl⟩

theorem readFile_error {env : Env} {n : Nat} {s s' : Session}
    {e : SystemError} (h : s.readFile env n = (.error e, s')) :
    s'.pos = s.pos ∧ s'.trace = s.trace := by
  unfold readFile at h
  split at h <;> cases h
  exact ⟨rfl, rfl⟩

/-- Either all that is ahead is read, or a call fails; a failing second call
leaves the file at its end. -/
theorem readUpTo_spec (env : Env) (n : Nat) (s : Session) :
    (∃ events, (s.readUpTo env n).2.trace = s.trace ++ events ∧
        ∀ event ∈ events, IsRead s.pos (s.ahead env n) event) ∧
      ((s.readUpTo env n).1 = .ok (s.ahead env n) ∧
          (s.readUpTo env n).2.pos = s.pos + (s.ahead env n).length ∨
        (∃ e, (s.readUpTo env n).1 = .error e) ∧
          ((s.readUpTo env n).2.pos = s.pos ∨
            (s.readUpTo env n).2.pos = s.pos + (s.ahead env n).length ∧
              (s.ahead env n).length < n)) := by
  have hlength := s.length_ahead env n
  unfold readUpTo
  rcases h : s.readFile env n with ⟨e | got, s₁⟩
  · obtain ⟨hpos, htrace⟩ := readFile_error h
    exact ⟨⟨[], by simp [htrace], by simp⟩, .inr ⟨⟨e, rfl⟩, .inl hpos⟩⟩
  · obtain ⟨hgot, hpos, htrace⟩ := readFile_ok h
    dsimp only
    rw [← hgot] at hlength ⊢
    split
    · exact ⟨⟨[_], htrace, by simp [IsRead]⟩, .inl ⟨rfl, hpos⟩⟩
    · rename_i hshort
      have hrest : s₁.ahead env (n - got.length) = [] := by
        rw [← List.length_eq_zero_iff, length_ahead]
        omega
      rcases h' : s₁.readFile env (n - got.length) with ⟨e | rest, s₂⟩
      · obtain ⟨hpos', htrace'⟩ := readFile_error h'
        refine ⟨⟨[_], htrace'.trans htrace, by simp [IsRead]⟩,
          .inr ⟨⟨e, rfl⟩, .inr ⟨hpos'.trans hpos, by omega⟩⟩⟩
      · obtain ⟨hgot', hpos', htrace'⟩ := readFile_ok h'
        rw [hrest] at hgot'
        subst hgot'
        refine ⟨⟨[.read s.pos got, .read s₁.pos []], ?_, ?_⟩, .inl ⟨?_, ?_⟩⟩
        · rw [htrace', htrace]
          simp
        · simp [IsRead]
        · simp
        · rw [hpos', hpos]
          simp

/-- `ReadFull` returns the bytes it was asked for, or an error. -/
theorem readFull_spec (env : Env) (n : Nat) (s : Session) :
    (∃ events, (s.readFull env n).2.trace = s.trace ++ events ∧
        ∀ event ∈ events, IsRead s.pos (s.ahead env n) event) ∧
      ((s.readFull env n).1 = .ok (s.ahead env n) ∧
          (s.readFull env n).2.pos = s.pos + n ∧
          (s.ahead env n).length = n ∨
        ∃ ec, (s.readFull env n).1 = .error ec) := by
  unfold readFull
  split
  · rename_i hzero
    subst hzero
    exact ⟨⟨[], by simp, by simp⟩, .inl ⟨by simp [ahead], rfl, by simp [ahead]⟩⟩
  · obtain ⟨htrace, hcase⟩ := readUpTo_spec env n s
    rcases h : s.readUpTo env n with ⟨e | got, s₁⟩ <;>
      rw [h] at htrace hcase
    · exact ⟨htrace, .inr ⟨_, rfl⟩⟩
    · obtain ⟨hgot, hpos⟩ | ⟨⟨e, herror⟩, -⟩ := hcase
      · cases hgot
        dsimp only at htrace hpos ⊢
        split
        · rename_i hfull
          exact ⟨htrace, .inl ⟨rfl, by rw [hpos, hfull], hfull⟩⟩
        · exact ⟨htrace, .inr ⟨_, rfl⟩⟩
      · contradiction

theorem readFull_ok {env : Env} {n : Nat} {s s' : Session} {got : Bytes}
    (h : s.readFull env n = (.ok got, s')) :
    got = s.ahead env n ∧ s'.pos = s.pos + n ∧ got.length = n := by
  obtain ⟨-, ⟨hgot, hpos, hfull⟩ | ⟨ec, herror⟩⟩ := readFull_spec env n s
  · rw [h] at hgot hpos
    cases hgot
    exact ⟨rfl, hpos, hfull⟩
  · rw [h] at herror
    contradiction

end Session

/-- The content of a buffer after `bytes` were stored at its start. -/
def overwrite (buffer bytes : Bytes) : Bytes :=
  bytes ++ buffer.drop bytes.length

end Baulk.Zip
