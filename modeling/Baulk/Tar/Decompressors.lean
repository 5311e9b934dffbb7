import Baulk.Tar.Buffered
import Baulk.Tar.FileReader
import Baulk.Zip.StreamCodecs

/-!
# The decompressors of a tar stream

The functions `decompress` of the five readers: each feeds an abstract codec
with blocks of the file until there is output.  They differ in when they read
the next block, in what they take for an error, and in what they do at the end
of the compressed data.
-/

namespace Baulk.Tar

open Support (Step loop)
open Zip (StreamCodec CodecStep)

def outsize : Nat := 64 * 1024
def insize : Nat := 32 * 1024

/-- `bela::make_error_code(ErrExtractGeneral, ...)`. -/
def extractGeneral (message : WString) : ErrorCode :=
  ErrorCode.make ErrorCode.errExtractGeneral message

/-! ## gzip and bzip2 -/

/-- The stream of zlib and that of libbz2, with the members around them. -/
structure BlockStream (codec : StreamCodec) where
  file : FileState
  codec : codec.State
  /-- `next_in` and `avail_in`. -/
  input : Bytes := []
  availOut : Nat := 0
  pickBytes : Nat := 0
  ret : Int := 0

namespace BlockStream

variable {codec : StreamCodec}

/-- Call the codec, whose fatal errors are given. -/
def step (fatal : Int → Option ErrorCode) (s : BlockStream codec) :
    Step (BlockStream codec) (Except Failure Bytes × BlockStream codec) :=
  let r := codec.run s.codec 0 s.input outsize
  let s := { s with
    codec := r.state
    input := s.input.drop r.consumed
    availOut := outsize - r.output.length
    ret := r.ret }
  match fatal r.ret with
  | some ec => .done (.error (some ec), s)
  | none => if r.output.isEmpty then .next s else .done (.ok r.output, s)

/-- One round of `for (;;)`.  A new block replaces the one before, whether that
is used up or not. -/
def body (file : SourceFile) (fatal : Int → Option ErrorCode)
    (s : BlockStream codec) :
    Option (Step (BlockStream codec)
      (Except Failure Bytes × BlockStream codec)) :=
  if s.availOut ≠ 0 ∨ s.pickBytes = 0 then
    match FileReader.read file insize s.file with
    | (.error e, f) => some (.done (.error e, { s with file := f }))
    | (.ok got, f) =>
        if got.isEmpty then some (.done (.error none, { s with file := f }))
        else
          some (step fatal { s with
            file := f
            input := got
            pickBytes := s.pickBytes + got.length })
  else some (step fatal s)

end BlockStream

/-- `Z_NEED_DICT` counts as `Z_DATA_ERROR`, and `Z_MEM_ERROR` is an error
too. -/
def gzipFatal (zError : Int → WString) (ret : Int) : Option ErrorCode :=
  if ret = 2 then some (extractGeneral (zError (-3)))
  else if ret = -3 ∨ ret = -4 then some (extractGeneral (zError ret))
  else none

/-- `gzip::Reader::decompress`. -/
def gzipDecompressor (file : SourceFile) (zError : Int → WString)
    (codec : StreamCodec) (fuel : Nat) : Decompressor where
  State := BlockStream codec
  decompress := loop (BlockStream.body file (gzipFatal zError)) fuel

/-- `BZ_DATA_ERROR` and `BZ_MEM_ERROR`. -/
def bzipFatal (ret : Int) : Option ErrorCode :=
  if ret = -4 ∨ ret = -3 then
    some (extractGeneral (wide "bzlib error " ++ wide (toString ret)))
  else none

def bzStreamEnd : Int := 4

def bzipEnd : ErrorCode :=
  ErrorCode.make ErrorCode.errEnded (wide "bzip stream end")

/-- `bzip::Reader::decompress`. -/
def bzipDecompressor (file : SourceFile) (codec : StreamCodec) (fuel : Nat) :
    Decompressor where
  State := BlockStream codec
  decompress s :=
    if s.ret = bzStreamEnd then some (.error (some bzipEnd), s)
    else loop (BlockStream.body file bzipFatal) fuel s

/-! ## zstd -/

structure ZstdStream (codec : StreamCodec) where
  file : FileState
  codec : codec.State
  /-- What is left of `in`. -/
  input : Bytes := []

namespace ZstdStream

variable (c : Zip.ZstdCodec)

def step (s : ZstdStream c.codec) :
    Step (ZstdStream c.codec) (Except Failure Bytes × ZstdStream c.codec) :=
  let r := c.codec.run s.codec 0 s.input Zip.zstdOutSize
  let s := { s with codec := r.state, input := s.input.drop r.consumed }
  if c.isError r.ret then
    .done (.error (some (extractGeneral
      (wide "ZSTD_decompressStream: " ++ c.errorName r.ret))), s)
  else if r.output.isEmpty then .next s
  else .done (.ok r.output, s)

/-- One round of `for (;;)`.  A block is read as soon as the one before is used
up, whether the codec has more output or not. -/
def body (file : SourceFile) (s : ZstdStream c.codec) :
    Option (Step (ZstdStream c.codec)
      (Except Failure Bytes × ZstdStream c.codec)) :=
  if s.input.isEmpty then
    match FileReader.read file Zip.zstdInSize s.file with
    | (.error e, f) => some (.done (.error e, { s with file := f }))
    | (.ok got, f) =>
        if got.isEmpty then some (.done (.error none, { s with file := f }))
        else some (step c { s with file := f, input := got })
  else some (step c s)

end ZstdStream

/-- `zstd::Reader::decompress`. -/
def zstdDecompressor (file : SourceFile) (c : Zip.ZstdCodec) (fuel : Nat) :
    Decompressor where
  State := ZstdStream c.codec
  decompress := loop (ZstdStream.body c file) fuel

/-! ## xz -/

def xzoutsize : Nat := 256 * 1024
def xzinsize : Nat := 256 * 1024

def lzmaStreamEnd : Int := 1

structure XzStream (codec : StreamCodec) where
  file : FileState
  codec : codec.State
  input : Bytes := []
  totalIn : Nat := 0
  /-- The output that the buffer holds but `out.size()` does not count yet. -/
  pending : Bytes := []
  ret : Int := 0

def xzErrorCode (ret : Int) : ErrorCode :=
  extractGeneral <|
    if ret = 5 then wide "memory error"
    else if ret = 7 then wide "File format not recognized"
    else if ret = 8 then wide "Unsupported compression options"
    else if ret = 9 then wide "File is corrupt"
    else if ret = 10 then wide "Unexpected end of input"
    else wide "Internal error (bug) ret=" ++ wide (toString ret)

namespace XzStream

variable {codec : StreamCodec}

/-- Call `lzma_code`; the output is handed over when the buffer is full and at
the end of the stream. -/
def step (s : XzStream codec) :
    Step (XzStream codec) (Except Failure Bytes × XzStream codec) :=
  let r := codec.run s.codec
    (if s.input.isEmpty then Zip.lzmaFinish else Zip.lzmaRun) s.input
    (xzoutsize - s.pending.length)
  let out := s.pending ++ r.output
  let s := { s with
    codec := r.state
    input := s.input.drop r.consumed
    totalIn := s.totalIn + r.consumed
    ret := r.ret }
  if out.length = xzoutsize ∨ r.ret = lzmaStreamEnd then
    .done (.ok out, { s with pending := [] })
  else
    let s := { s with pending := out }
    if r.ret ≠ 0 then .done (.error (some (xzErrorCode r.ret)), s)
    else .next s

/-- One round of `for (;;)`.  The end of the file is not an error here. -/
def body (file : SourceFile) (s : XzStream codec) :
    Option (Step (XzStream codec)
      (Except Failure Bytes × XzStream codec)) :=
  if s.input.isEmpty ∨ s.totalIn = 0 then
    match FileReader.read file xzinsize s.file with
    | (.error e, f) => some (.done (.error e, { s with file := f }))
    | (.ok got, f) => some (step { s with file := f, input := got })
  else some (step s)

end XzStream

/-- `xz::Reader::decompress`. -/
def xzDecompressor (file : SourceFile) (codec : StreamCodec) (fuel : Nat) :
    Decompressor where
  State := XzStream codec
  decompress s :=
    if s.ret = lzmaStreamEnd then
      some (.error (some (extractGeneral (wide "xz stream end"))), s)
    else loop (XzStream.body file) fuel s

/-! ## Brotli -/

structure BrotliStream (codec : StreamCodec) where
  file : FileState
  codec : codec.State
  input : Bytes := []
  pickBytes : Nat := 0
  /-- `BrotliDecoderResult result{}`, where 0 is `ERROR`. -/
  result : Int := 0

namespace BrotliStream

variable {codec : StreamCodec}

def step (s : BrotliStream codec) :
    Step (BrotliStream codec) (Except Failure Bytes × BrotliStream codec) :=
  let r := codec.run s.codec 0 s.input outsize
  let s := { s with
    codec := r.state
    input := s.input.drop r.consumed
    result := r.ret }
  if r.output.isEmpty then .next s else .done (.ok r.output, s)

/-- One round of `for (;;)`; 2 is `NEEDS_MORE_INPUT`. -/
def body (file : SourceFile) (s : BrotliStream codec) :
    Option (Step (BrotliStream codec)
      (Except Failure Bytes × BrotliStream codec)) :=
  if s.result = 2 ∨ s.pickBytes = 0 then
    match FileReader.read file insize s.file with
    | (.error e, f) => some (.done (.error e, { s with file := f }))
    | (.ok got, f) =>
        if got.isEmpty then some (.done (.error none, { s with file := f }))
        else
          some (step { s with
            file := f
            input := got
            pickBytes := s.pickBytes + got.length })
  else some (step s)

end BrotliStream

def brotliError : ErrorCode :=
  extractGeneral (wide "BrotliDecoderDecompressStream error")

/-- `brotli::Reader::decompress`. -/
def brotliDecompressor (file : SourceFile) (codec : StreamCodec) (fuel : Nat) :
    Decompressor where
  State := BrotliStream codec
  decompress s :=
    if s.result = 0 then some (.error (some brotliError), s)
    else loop (BrotliStream.body file) fuel s

/-- One round of `while (filesize > 0)` in `brotli::Reader::WriteTo`, where
`filesize` stays as it is. -/
def brotliWriteBody (dec : Decompressor) (w : Writer)
    (l : Decompressor.WriteLoop dec) :
    Option (Step (Decompressor.WriteLoop dec)
      (WriteResult × Buffered dec)) :=
  if l.filesize ≤ 0 then
    some (.done (⟨.ok (), l.chunks, l.extracted⟩, l.buffer))
  else
    match dec.refill l.buffer with
    | none => none
    | some (.error e, b) =>
        some (.done (⟨.error e, l.chunks, l.extracted⟩, b))
    | some (.ok (), b) =>
        let minsize := min l.filesize.toNat b.out.length
        some (Decompressor.writeChunk w l l.filesize b minsize)

/-! ## Readers -/

/-- `gzip::Reader`. -/
def gzipReader (file : SourceFile) (zError : Int → WString)
    (codec : StreamCodec) (fuel : Nat) : ExtractReader :=
  (gzipDecompressor file zError codec fuel).reader fuel

/-- `bzip::Reader`. -/
def bzipReader (file : SourceFile) (codec : StreamCodec) (fuel : Nat) :
    ExtractReader :=
  (bzipDecompressor file codec fuel).reader fuel

/-- `zstd::Reader`. -/
def zstdReader (file : SourceFile) (c : Zip.ZstdCodec) (fuel : Nat) :
    ExtractReader :=
  (zstdDecompressor file c fuel).reader fuel

/-- `xz::Reader`. -/
def xzReader (file : SourceFile) (codec : StreamCodec) (fuel : Nat) :
    ExtractReader :=
  (xzDecompressor file codec fuel).reader fuel

/-- `brotli::Reader`. -/
def brotliReader (file : SourceFile) (codec : StreamCodec) (fuel : Nat) :
    ExtractReader :=
  let dec := brotliDecompressor file codec fuel
  { State := Buffered dec
    read := dec.read
    discard := dec.discard fuel
    writeTo := fun w filesize b =>
      loop (brotliWriteBody dec w) fuel { filesize := filesize, buffer := b } }

end Baulk.Tar
