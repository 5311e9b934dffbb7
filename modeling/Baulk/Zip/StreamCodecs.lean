import Baulk.Archive.Crc32
import Baulk.Support.Loop
import Baulk.Zip.DirectoryHeader
import Baulk.Zip.Session

/-!
# Decompression loops around stream codecs

The codecs themselves are abstract: a stream codec is any machine that takes
input, produces output and returns a status, within the bounds of the buffers
it is given.  This module holds the loops that feed them and pass on what they
produce, for DEFLATE, bzip2, zstd, Brotli, XZ and LZMA.

Every method ends in an `Outcome`: the returned value, the error code if one
was assigned, and the record of the session.
-/

namespace Baulk.Zip

open Archive (Summator)
open Support (Step loop)

/-- How a decompression ends.  `ec` is `none` when the function returns without
assigning an error code. -/
structure Outcome where
  ok : Bool
  ec : Option ErrorCode
  session : Session

namespace Outcome

/-- `return false` after assigning `ec`. -/
def fail (ec : ErrorCode) (s : Session) : Outcome :=
  ⟨false, some ec, s⟩

/-- `return false` after the writer has refused a chunk. -/
def canceled (s : Session) : Outcome :=
  fail (ErrorCode.make ErrorCode.errCanceled (wide "canceled")) s

/-- The end of every checked method: the checksum decides. -/
def finish (sum : Summator) (s : Session) : Outcome :=
  if sum.valid then ⟨true, none, s⟩
  else
    fail (ErrorCode.make ErrorCode.errGeneral
      (wide "crc32 want " ++ wide (toString sum.target.toNat) ++
        wide " got " ++ wide (toString sum.current.toNat) ++
        wide " not match")) s

end Outcome

/-- Update the checksum and call the writer, as every checked method does. -/
def deliver (env : Env) (sum : Summator) (chunk : Bytes) (s : Session) :
    Bool × Summator × Session :=
  let r := s.write env chunk
  (r.1, sum.update chunk, r.2)

/-! ## Input -/

/-- The input buffer of a method and the compressed bytes still to be read. -/
structure Input where
  csize : Nat
  buffer : Bytes

/-- Read the next chunk of at most `size` bytes and present it to the codec. -/
def fetch (env : Env) (size : Nat) (input : Input) (s : Session) :
    Except ErrorCode (Bytes × Input) × Session :=
  let minsize := min input.csize size
  match s.readFull env minsize with
  | (.error ec, s) => (.error ec, s)
  | (.ok got, s) =>
      let buffer := overwrite input.buffer got
      let given := buffer.take minsize
      (.ok (given, ⟨input.csize - minsize, buffer⟩), s.log (.feed got given))

/-! ## Stream codecs -/

/-- What one call of a codec on `input`, with `room` bytes for output, does. -/
structure CodecStep (σ : Type) (input : Bytes) (room : Nat) where
  state : σ
  ret : Int
  consumed : Nat
  output : Bytes
  consumed_le : consumed ≤ input.length
  output_le : output.length ≤ room

/-- A codec that is called with input and room for output. -/
structure StreamCodec where
  State : Type
  init : State
  /-- The second argument is the action, for codecs that have one. -/
  run : State → Int → (input : Bytes) → (room : Nat) →
    CodecStep State input room

/-- State of the loop that drains a codec after each chunk of input. -/
structure Drain (σ : Type) where
  state : σ
  input : Bytes
  sum : Summator
  session : Session

/-- State of `while (csize != 0)`. -/
structure ChunkLoop (σ : Type) where
  input : Input
  state : σ
  sum : Summator
  session : Session

/-- One round of `while (csize != 0)`, which DEFLATE, bzip2, zstd and Brotli
share: read a chunk of at most `size` bytes and drain the codec.  The drain
loop reports whether the stream has ended. -/
def chunkBody (env : Env) (size : Nat) {σ : Type}
    (drain : Drain σ → Option (Except Outcome (Bool × Drain σ)))
    (l : ChunkLoop σ) : Option (Step (ChunkLoop σ) Outcome) :=
  if l.input.csize = 0 then some (.done (.finish l.sum l.session))
  else
    match fetch env size l.input l.session with
    | (.error ec, s) => some (.done (.fail ec s))
    | (.ok (given, input), s) =>
        match drain ⟨l.state, given, l.sum, s⟩ with
        | none => none
        | some (.error outcome) => some (.done outcome)
        | some (.ok (ended, d)) =>
            if ended then some (.done (.finish d.sum d.session))
            else some (.next ⟨input, d.state, d.sum, d.session⟩)

/-- The whole loop, from the start of the entry's data. -/
def decompressChunks (env : Env) (size : Nat) {σ : Type} (init : σ)
    (drain : Drain σ → Option (Except Outcome (Bool × Drain σ)))
    (file : File) (buffer : Bytes) (fuel : Nat) (s : Session) :
    Option Outcome :=
  loop (chunkBody env size drain) fuel
    ⟨⟨file.compressedSize.toNat, buffer⟩, init,
      { target := file.crc32Value.toBitVec }, s⟩

/-! ## DEFLATE and bzip2 -/

def outsize : Nat := 64 * 1024
def insize : Nat := 16 * 1024

/-- One round of `do { ... } while (avail_out == 0)`, for a codec with the
given status at the end of the stream and the given fatal errors. -/
def blockDrainBody (env : Env) (codec : StreamCodec) (streamEnd : Int)
    (fatal : Int → Option ErrorCode) (d : Drain codec.State) :
    Option (Step (Drain codec.State)
      (Except Outcome (Bool × Drain codec.State))) :=
  let step := codec.run d.state 0 d.input outsize
  match fatal step.ret with
  | some ec => some (.done (.error (.fail ec d.session)))
  | none =>
      let r := deliver env d.sum step.output d.session
      let d' := ⟨step.state, d.input.drop step.consumed, r.2.1, r.2.2⟩
      if !r.1 then some (.done (.error (.canceled r.2.2)))
      else if step.output.length = outsize then some (.next d')
      else some (.done (.ok (step.ret == streamEnd, d')))

/-- zlib's decoder: the status of `zng_inflateInit2`, the texts of its errors
and `zng_inflate`. -/
structure DeflateCodec where
  initRet : Int
  zError : Int → WString
  codec : StreamCodec

/-- `Z_NEED_DICT` counts as `Z_DATA_ERROR`, and `Z_MEM_ERROR` is an error
too. -/
def deflateFatal (zError : Int → WString) (ret : Int) : Option ErrorCode :=
  if ret = 2 then some (ErrorCode.make (-3) (zError (-3)))
  else if ret = -3 ∨ ret = -4 then some (ErrorCode.make ret (zError ret))
  else none

def decompressDeflate (env : Env) (c : DeflateCodec) (file : File)
    (buffer : Bytes) (fuel : Nat) (s : Session) : Option Outcome :=
  if c.initRet ≠ 0 then
    some (.fail (ErrorCode.make ErrorCode.errGeneral (c.zError c.initRet)) s)
  else
    decompressChunks env insize c.codec.init
      (loop (blockDrainBody env c.codec 1 (deflateFatal c.zError)) fuel)
      file buffer fuel s

/-- libbz2's decoder. -/
structure Bz2Codec where
  initRet : Int
  codec : StreamCodec

/-- `BZ_DATA_ERROR` and `BZ_MEM_ERROR`; other errors do not end the loop. -/
def bz2Fatal (ret : Int) : Option ErrorCode :=
  if ret = -4 ∨ ret = -3 then
    some (ErrorCode.make ret (wide "bzlib error " ++ wide (toString ret)))
  else none

def decompressBz2 (env : Env) (c : Bz2Codec) (file : File)
    (buffer : Bytes) (fuel : Nat) (s : Session) : Option Outcome :=
  if c.initRet ≠ 0 then
    some (.fail (ErrorCode.make c.initRet
      (wide "BZ2_bzDecompressInit error")) s)
  else
    decompressChunks env insize c.codec.init
      (loop (blockDrainBody env c.codec 4 bz2Fatal) fuel)
      file buffer fuel s

/-! ## zstd -/

/-- zstd's decoder; `isError` is `ZSTD_isError`. -/
structure ZstdCodec where
  created : Bool
  isError : Int → Bool
  errorName : Int → WString
  codec : StreamCodec

/-- `ZSTD_DStreamInSize()` and `ZSTD_DStreamOutSize()`. -/
def zstdInSize : Nat := 128 * 1024 + 3
def zstdOutSize : Nat := 128 * 1024

/-- One round of `while (in.pos < in.size)`. -/
def zstdDrainBody (env : Env) (c : ZstdCodec) (d : Drain c.codec.State) :
    Option (Step (Drain c.codec.State)
      (Except Outcome (Bool × Drain c.codec.State))) :=
  if d.input.length = 0 then some (.done (.ok (false, d)))
  else
    let step := c.codec.run d.state 0 d.input zstdOutSize
    if c.isError step.ret then
      some (.done (.error (.fail (ErrorCode.make ErrorCode.errGeneral
        (wide "ZSTD_decompressStream: " ++ c.errorName step.ret))
          d.session)))
    else
      let r := deliver env d.sum step.output d.session
      if !r.1 then some (.done (.error (.canceled r.2.2)))
      else
        some (.next ⟨step.state, d.input.drop step.consumed, r.2.1, r.2.2⟩)

def decompressZstd (env : Env) (c : ZstdCodec) (file : File)
    (buffer : Bytes) (fuel : Nat) (s : Session) : Option Outcome :=
  if !c.created then
    some (.fail (ErrorCode.general
      (wide "ZSTD_createDStream() out of memory")) s)
  else
    decompressChunks env zstdInSize c.codec.init
      (loop (zstdDrainBody env c) fuel) file buffer fuel s

/-! ## Brotli -/

/-- Brotli's decoder.  Its results are `ERROR` 0, `SUCCESS` 1,
`NEEDS_MORE_INPUT` 2 and `NEEDS_MORE_OUTPUT` 3. -/
structure BrotliCodec where
  created : Bool
  codec : StreamCodec

/-- One round of the inner `for (;;)`. -/
def brotliDrainBody (env : Env) (c : BrotliCodec) (d : Drain c.codec.State) :
    Option (Step (Drain c.codec.State)
      (Except Outcome (Bool × Drain c.codec.State))) :=
  let step := c.codec.run d.state 0 d.input outsize
  let r :=
    if step.output.length = 0 then (true, d.sum, d.session)
    else deliver env d.sum step.output d.session
  let d' := ⟨step.state, d.input.drop step.consumed, r.2.1, r.2.2⟩
  if !r.1 then some (.done (.error (.canceled r.2.2)))
  else if step.ret = 2 then some (.done (.ok (false, d')))
  else if step.ret = 0 then
    some (.done (.error (.fail (ErrorCode.make ErrorCode.errGeneral
      (wide "BrotliDecoderDecompressStream error")) r.2.2)))
  else if step.ret = 1 then some (.done (.ok (true, d')))
  else some (.next d')

def decompressBrotli (env : Env) (c : BrotliCodec) (file : File)
    (buffer : Bytes) (fuel : Nat) (s : Session) : Option Outcome :=
  if !c.created then
    some (.fail (ErrorCode.general
      (wide "BrotliDecoderCreateInstance failed")) s)
  else
    decompressChunks env insize c.codec.init
      (loop (brotliDrainBody env c) fuel) file buffer fuel s

/-! ## XZ and LZMA -/

/-- liblzma's decoder: the status of its initialisation and `lzma_code`. -/
structure LzmaCodec where
  initRet : Int
  codec : StreamCodec

def xzoutsize : Nat := 256 * 1024
def xzinsize : Nat := 128 * 1024

/-- `LZMA_RUN` and `LZMA_FINISH`. -/
def lzmaRun : Int := 0
def lzmaFinish : Int := 3

/-- The errors of `lzma_code`. -/
def lzmaError (ret : Int) : ErrorCode :=
  ErrorCode.general <|
    if ret = 5 then wide "memory error"
    else if ret = 7 then wide "File format not recognized"
    else if ret = 8 then wide "Unsupported compression options"
    else if ret = 9 then wide "File is corrupt"
    else if ret = 10 then wide "Unexpected end of input"
    else wide "Internal error (bug)"

/-- State of the loop around `lzma_code`; `pending` is the output which the
buffer holds. -/
structure LzmaLoop (codec : StreamCodec) where
  source : Input
  state : codec.State
  input : Bytes
  pending : Bytes
  action : Int
  sum : Summator
  session : Session

/-- Refill the input when it is used up and the entry is not. -/
def lzmaRefill (env : Env) {codec : StreamCodec} (l : LzmaLoop codec) :
    Except Outcome (LzmaLoop codec) :=
  if l.input.length = 0 ∧ l.source.csize ≠ 0 then
    match fetch env xzinsize l.source l.session with
    | (.error ec, s) => .error (.fail ec s)
    | (.ok (given, source), s) =>
        .ok { l with
          source := source
          input := given
          action := if source.csize = 0 then lzmaFinish else l.action
          session := s }
  else .ok l

def lzmaBody (env : Env) (codec : StreamCodec) (l : LzmaLoop codec) :
    Option (Step (LzmaLoop codec) Outcome) :=
  match lzmaRefill env l with
  | .error outcome => some (.done outcome)
  | .ok l =>
      let step := codec.run l.state l.action l.input
        (xzoutsize - l.pending.length)
      let pending := l.pending ++ step.output
      let l := { l with
        state := step.state
        input := l.input.drop step.consumed
        pending := pending }
      -- The output buffer is handed over when it is full or at the end.
      let r :=
        if pending.length = xzoutsize ∨ step.ret = 1 then
          deliver env l.sum pending l.session
        else (true, l.sum, l.session)
      if !r.1 then some (.done (.canceled r.2.2))
      else if step.ret = 1 then some (.done (.finish r.2.1 r.2.2))
      else if step.ret ≠ 0 then some (.done (.fail (lzmaError step.ret) r.2.2))
      else
        some (.next { l with
          pending := if pending.length = xzoutsize then [] else pending
          sum := r.2.1
          session := r.2.2 })

def lzmaStreamError (ret : Int) : ErrorCode :=
  ErrorCode.make ret (wide "lzma_stream_decoder error " ++ wide (toString ret))

def decompressXz (env : Env) (c : LzmaCodec) (file : File)
    (buffer : Bytes) (fuel : Nat) (s : Session) : Option Outcome :=
  if c.initRet ≠ 0 then some (.fail (lzmaStreamError c.initRet) s)
  else
    loop (lzmaBody env c.codec) fuel
      { source := ⟨file.compressedSize.toNat, buffer⟩
        state := c.codec.init
        input := []
        pending := []
        action := lzmaRun
        sum := { target := file.crc32Value.toBitVec }
        session := s }

/-- `decompressLZMA`.  The zip prefix of nine bytes is replaced by the header
of a stand-alone LZMA file, and nine is subtracted from the size. -/
def decompressLZMA (env : Env) (c : LzmaCodec) (file : File)
    (buffer : Bytes) (fuel : Nat) (s : Session) : Option Outcome :=
  if c.initRet ≠ 0 then some (.fail (lzmaStreamError c.initRet) s)
  else
    match s.readFull env 9 with
    | (.error ec, s) => some (.fail ec s)
    | (.ok got, s) =>
        let d := overwrite (List.replicate 16 0) got
        if d.getD 2 0 ≠ 0x05 ∨ d.getD 3 0 ≠ 0x00 then
          some (.fail (ErrorCode.make ErrorCode.errGeneral
            (wide "Invalid LZMA data")) s)
        else
          let props := (d.drop 4).take 5
          let s := s.log (.properties got props)
          let header := props ++ List.replicate 8 0xFF
          let step := c.codec.run c.codec.init lzmaRun header xzoutsize
          if step.ret ≠ 0 then
            some (.fail (ErrorCode.general
              (wide "LZMA stream initialization error")) s)
          else
            loop (lzmaBody env c.codec) fuel
              { source := ⟨(file.compressedSize - 9).toNat, buffer⟩
                state := step.state
                input := header.drop step.consumed
                pending := step.output
                action := lzmaRun
                sum := { target := file.crc32Value.toBitVec }
                session := s }

end Baulk.Zip
