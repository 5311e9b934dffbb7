import Baulk.Zip.StreamCodecs

/-!
# Decompressing a zip entry

`Reader::Decompress` finds the data of an entry behind its local header and
runs the loop of the entry's compression method.  Besides the stream codecs
there are stored entries, which have none, and two codecs which ask for their
input through a callback: Deflate64 and PPMd.
-/

namespace Baulk.Zip

open Archive (Summator)
open Support (Step loop)

/-! ## Stored entries -/

def storeBufferSize : Nat := 4096

/-- One round of `while (csize != 0)` for `ZIP_STORE`. -/
def storeBody (env : Env) (l : Nat × Session) :
    Option (Step (Nat × Session) Outcome) :=
  if l.1 = 0 then some (.done ⟨true, none, l.2⟩)
  else
    let minsize := min l.1 storeBufferSize
    match l.2.readFull env minsize with
    | (.error ec, s) => some (.done (.fail ec s))
    | (.ok got, s) =>
        let r := s.write env got
        if !r.1 then some (.done ⟨false, none, r.2⟩)
        else some (.next (l.1 - minsize, r.2))

def decompressStore (env : Env) (file : File) (fuel : Nat) (s : Session) :
    Option Outcome :=
  loop (storeBody env) fuel (file.compressedSize.toNat, s)

/-! ## Deflate64 -/

/-- What `inflateBack9` does next: ask for input, hand over output or
return. -/
inductive BackRequest (σ : Type) where
  | get (continue' : Bytes → σ)
  | put (chunk : Bytes) (continue' : Int → σ)
  | finish (ret : Int)

/-- The Deflate64 decoder. -/
structure Deflate64Codec where
  initRet : Int
  State : Type
  init : State
  request : State → BackRequest State

/-- `CHUNK`. -/
def chunkSize : Nat := 131072

structure Inflate64Reader where
  buffer : Bytes
  offset : Nat
  size : Nat

/-- How much `get` asks for: the rest of the entry is truncated to 32 bits. -/
def Inflate64Reader.want (r : Inflate64Reader) : Nat :=
  min chunkSize (((r.size : Int) - r.offset) % 2 ^ 32).toNat

/-- `get`: the input callback.  The length it reports is `CHUNK` minus the part
of `want` that was not read. -/
def Inflate64Reader.get (env : Env) (r : Inflate64Reader) (s : Session) :
    Bytes × Inflate64Reader × Session :=
  if r.want = 0 then ([], r, s)
  else
    match s.readUpTo env r.want with
    | (.error _, s) => ([], r, s)
    | (.ok got, s) =>
        let buffer := overwrite r.buffer got
        let len := chunkSize - (r.want - got.length)
        let given := buffer.take len
        (given, { r with buffer := buffer, offset := r.offset + len },
          s.log (.feed got given))

/-- State of `inflateBack9` with its two descriptors. -/
structure Deflate64Loop (c : Deflate64Codec) where
  state : c.State
  reader : Inflate64Reader
  sum : Summator
  canceled : Bool
  session : Session

/-- One request of the decoder.  The second callback is `put`. -/
def deflate64Body (env : Env) (c : Deflate64Codec) (l : Deflate64Loop c) :
    Option (Step (Deflate64Loop c) (Int × Deflate64Loop c)) :=
  match c.request l.state with
  | .get k =>
      let r := l.reader.get env l.session
      some (.next { l with
        state := k r.1, reader := r.2.1, session := r.2.2 })
  | .put chunk k =>
      let r := deliver env l.sum chunk l.session
      some (.next { l with
        state := k (if r.1 then 0 else 1)
        sum := r.2.1
        canceled := if r.1 then l.canceled else true
        session := r.2.2 })
  | .finish ret => some (.done (ret, l))

def decompressDeflate64 (env : Env) (c : Deflate64Codec) (file : File)
    (buffer : Bytes) (fuel : Nat) (s : Session) : Option Outcome :=
  if c.initRet ≠ 0 then
    some (.fail (ErrorCode.general
      (if c.initRet = -4 then wide "not enough memory (!)"
        else wide "internal error")) s)
  else
    match loop (deflate64Body env c) fuel
        { state := c.init
          reader := ⟨buffer, 0, file.compressedSize.toNat⟩
          sum := { target := file.crc32Value.toBitVec }
          canceled := false
          session := s } with
    | none => none
    | some (ret, l) =>
        if l.canceled then some (.canceled l.session)
        else if ret ≠ 1 then
          some (.fail (ErrorCode.general
            (wide "deflate64 compressed data corrupted")) l.session)
        else some (.finish l.sum l.session)

/-! ## PPMd -/

/-- `SectionReader`: a buffer over the `size` bytes of the entry, of which
`offset` have been requested; `r` and `w` delimit the buffered ones. -/
structure SectionReader where
  cacheb : Bytes
  size : Int
  offset : Int := 0
  r : Nat := 0
  w : Nat := 0

namespace SectionReader

/-- The capacity of `cacheb`. -/
def capacity : Nat := 32 * 1024

/-- `Buffered` and `AvailableBytes`. -/
def buffered (sr : SectionReader) : Nat := sr.w - sr.r

def availableBytes (sr : SectionReader) : Int := sr.size - sr.offset

/-- How much the buffer is refilled with: the rest of the section is converted
to an unsigned number first. -/
def refill (sr : SectionReader) : Nat :=
  min capacity (sr.availableBytes % 2 ^ 64).toNat

/-- The error at the end of the section. -/
def unexpectedEOF : ErrorCode :=
  ErrorCode.make ErrorCode.errEOF (wide "unexpected EOF")

/-- The end of `Read`: take what is buffered. -/
def takeBuffered (len : Nat) (sr : SectionReader) : Bytes × SectionReader :=
  let n := min (sr.w - sr.r) len
  ((sr.cacheb.drop sr.r).take n, { sr with r := sr.r + n })

/-- `Read` of at most `len` bytes, for a `len` below the capacity.  `fsread`
takes the number of bytes it asked for as the number of bytes it got. -/
def read (env : Env) (len : Nat) (sr : SectionReader) (s : Session) :
    Except ErrorCode Bytes × SectionReader × Session :=
  if sr.r = sr.w then
    let sr := { sr with r := 0, w := 0 }
    if sr.refill = 0 then (.error unexpectedEOF, sr, s)
    else
      match s.readFile env sr.refill with
      | (.error e, s) => (.error (e.toErrorCode (wide "ReadFile: ")), sr, s)
      | (.ok got, s) =>
          let cacheb := overwrite sr.cacheb got
          let s := s.log (.feed got (cacheb.take sr.refill))
          let r := takeBuffered len { sr with
            cacheb := cacheb
            offset := sr.offset + sr.refill
            w := sr.refill }
          (.ok r.1, r.2, s)
  else
    let r := takeBuffered len sr
    (.ok r.1, r.2, s)

/-- `ReadFull`; the first argument counts the calls of `Read`, of which each
returns at least one byte. -/
def readFull (env : Env) : Nat → Nat → SectionReader → Session →
    Except ErrorCode Bytes × SectionReader × Session
  | 0, _, sr, s => (.ok [], sr, s)
  | calls + 1, len, sr, s =>
      if len = 0 then (.ok [], sr, s)
      else
        match sr.read env len s with
        | (.error ec, sr, s) => (.error ec, sr, s)
        | (.ok got, sr, s) =>
            match readFull env calls (len - got.length) sr s with
            | (.error ec, sr, s) => (.error ec, sr, s)
            | (.ok rest, sr, s) => (.ok (got ++ rest), sr, s)

end SectionReader

/-- What the PPMd decoder does next: ask for a byte, or end the operation that
it is in with a value. -/
inductive PpmdRequest (σ : Type) where
  | byte (continue' : UInt8 → σ)
  | result (value : Int) (state : σ)

/-- The PPMd decoder for an order, a memory size and a restoration method. -/
structure PpmdCodec where
  allocated : Bool
  State : Type
  start : Nat → Nat → Nat → State
  request : State → PpmdRequest State

/-- State of the PPMd decoder with its section reader. -/
structure PpmdState (c : PpmdCodec) where
  state : c.State
  reader : SectionReader
  session : Session

/-- `ppmd_read`, which returns zero on failure. -/
def ppmdRead : Except ErrorCode Bytes → UInt8
  | .error _ => 0
  | .ok buf => buf.headD 0

def ppmdRequestBody (env : Env) (c : PpmdCodec) (p : PpmdState c) :
    Option (Step (PpmdState c) (Int × PpmdState c)) :=
  match c.request p.state with
  | .byte k =>
      let r := p.reader.readFull env 1 1 p.session
      some (.next ⟨k (ppmdRead r.1), r.2.1, r.2.2⟩)
  | .result value state => some (.done (value, { p with state := state }))

/-- One call of `Ppmd8_Init_RangeDec` or `Ppmd8_DecodeSymbol`. -/
def ppmdCall (env : Env) (c : PpmdCodec) (fuel : Nat) (p : PpmdState c) :
    Option (Int × PpmdState c) :=
  loop (ppmdRequestBody env c) fuel p

/-- The size of the output buffer, `BufferSize`. -/
def ppmdBufferSize : Nat := 2 ^ 20

/-- One round of `do { ... } while (i != size)`. -/
def ppmdFillBody (env : Env) (c : PpmdCodec) (fuel : Nat)
    (l : Bytes × PpmdState c) :
    Option (Step (Bytes × PpmdState c) (Bytes × PpmdState c)) :=
  match ppmdCall env c fuel l.2 with
  | none => none
  | some (sym, p) =>
      if sym < 0 then some (.done (l.1, p))
      else
        let out := l.1 ++ [UInt8.ofInt sym]
        if out.length = ppmdBufferSize then some (.done (out, p))
        else some (.next (out, p))

/-- One round of the outer `for (;;)`. -/
def ppmdBody (env : Env) (c : PpmdCodec) (fuel : Nat)
    (l : Summator × PpmdState c) :
    Option (Step (Summator × PpmdState c) Outcome) :=
  match loop (ppmdFillBody env c fuel) fuel ([], l.2) with
  | none => none
  | some (out, p) =>
      if out.length = 0 then some (.done (.finish l.1 p.session))
      else
        let r := deliver env l.1 out p.session
        if !r.1 then some (.done (.canceled r.2.2))
        else if p.reader.availableBytes = 0 ∧ p.reader.buffered = 0 then
          some (.done (.finish r.2.1 r.2.2))
        else some (.next (r.2.1, { p with session := r.2.2 }))

/-- The parameters in the first two bytes of PPMd data are invalid: the order
is below two or the restoration method above two. -/
def ppmdParametersInvalid (val : Nat) : Bool :=
  val % 16 + 1 < 2 || 2 < val / 4096

def decompressPpmd (env : Env) (c : PpmdCodec) (file : File)
    (cache : Bytes) (fuel : Nat) (s : Session) : Option Outcome :=
  let sr : SectionReader :=
    { cacheb := cache, size := file.compressedSize.toInt64.toInt }
  match sr.readFull env 2 2 s with
  | (.error ec, _, s) => some (.fail ec s)
  | (.ok buf, sr, s) =>
      let val := (buf.getD 0 0).toNat + 256 * (buf.getD 1 0).toNat
      if ppmdParametersInvalid val then
        some (.fail (ErrorCode.general
          (wide "PPMd compressed data corrupted")) s)
      else if !c.allocated then
        some (.fail (ErrorCode.general (wide "Allocate Memory Failed")) s)
      else
        let state := c.start (val % 16 + 1) (val / 16 % 256 + 1) (val / 4096)
        match ppmdCall env c fuel ⟨state, sr, s⟩ with
        | none => none
        | some (ready, p) =>
            if ready = 0 then
              some (.fail (ErrorCode.general (wide "Ppmd8_RangeDec_Init"))
                p.session)
            else
              loop (ppmdBody env c fuel) fuel
                ({ target := file.crc32Value.toBitVec }, p)

/-! ## The whole function -/

/-- The codecs of all methods, and what is in memory where their buffers are
allocated. -/
structure Codecs where
  deflate : DeflateCodec
  deflate64 : Deflate64Codec
  zstd : ZstdCodec
  lzma : LzmaCodec
  xz : LzmaCodec
  bz2 : Bz2Codec
  ppmd : PpmdCodec
  brotli : BrotliCodec
  fresh : Nat → UInt8

/-- `Buffer(size)`, which is not initialised. -/
def Codecs.buffer (codecs : Codecs) (size : Nat) : Bytes :=
  (List.range size).map codecs.fresh

def zipStore : UInt16 := 0
def zipDeflate : UInt16 := 8
def zipDeflate64 : UInt16 := 9
def zipBzip2 : UInt16 := 12
def zipLZMA : UInt16 := 14
def zipZstdOld : UInt16 := 20
def zipZstd : UInt16 := 93
def zipXz : UInt16 := 95
def zipPPMd : UInt16 := 98
def zipBrotli : UInt16 := 121

def fileHeaderSignature : Nat := 0x04034b50
def fileHeaderLen : Nat := 30

/-- The little-endian number in the first bytes of a list. -/
def leValue (bytes : Bytes) : Nat :=
  bytes.foldr (fun b n => b.toNat + 256 * n) 0

/-- `Seek` from the start of the file: offsets are signed, and a negative one
is refused with `ERROR_NEGATIVE_SEEK`. -/
def seek (env : Env) (offset : UInt64) (s : Session) :
    Except ErrorCode Session :=
  match env.fault s.calls with
  | some e => .error (e.toErrorCode (wide "SetFilePointerEx(): "))
  | none =>
      if 2 ^ 63 ≤ offset.toNat then
        .error (ErrorCode.make 131 (wide "SetFilePointerEx(): "))
      else .ok { s with pos := offset.toNat, calls := s.calls + 1 }

/-- What the local header of an entry says about where its data starts: `none`
when it is not a local header. -/
def dataOffset (realPosition : UInt64) (header : Bytes) : Option UInt64 :=
  if leValue (header.take 4) ≠ fileHeaderSignature then none
  else
    some (realPosition + UInt64.ofNat fileHeaderLen +
      UInt64.ofNat (leValue ((header.drop 26).take 2)) +
      UInt64.ofNat (leValue ((header.drop 28).take 2)))

theorem seek_ok {env : Env} {offset : UInt64} {s s' : Session}
    (h : seek env offset s = .ok s') :
    offset.toNat < 2 ^ 63 ∧ s'.pos = offset.toNat := by
  unfold seek at h
  split at h
  · contradiction
  · split at h
    · contradiction
    · cases h
      exact ⟨by omega, rfl⟩

theorem leValue_lt (bytes : Bytes) : leValue bytes < 256 ^ bytes.length := by
  induction bytes with
  | nil => decide
  | cons b bytes ih =>
      have hb := b.toNat_lt
      rw [List.length_cons, Nat.pow_succ]
      simp only [leValue, List.foldr_cons] at ih ⊢
      omega

theorem leValue_take_two_lt (bytes : Bytes) :
    leValue (bytes.take 2) < 2 ^ 16 :=
  calc leValue (bytes.take 2) < 256 ^ (bytes.take 2).length := leValue_lt _
    _ ≤ 256 ^ 2 := Nat.pow_le_pow_right (by decide) (by simp)
    _ = 2 ^ 16 := by decide

/-- The data of an entry starts less than 2¹⁷ bytes behind its local header. -/
theorem dataOffset_toNat {realPosition position : UInt64} {header : Bytes}
    (h : dataOffset realPosition header = some position)
    (hroom : realPosition.toNat + 2 ^ 18 < 2 ^ 64) :
    position.toNat = realPosition.toNat + fileHeaderLen +
        leValue ((header.drop 26).take 2) +
        leValue ((header.drop 28).take 2) := by
  have hname := leValue_take_two_lt (header.drop 26)
  have hextra := leValue_take_two_lt (header.drop 28)
  unfold dataOffset at h
  split at h
  · contradiction
  · rw [Option.some.injEq] at h
    rw [← h]
    simp only [UInt64.toNat_add, UInt64.toNat_ofNat', fileHeaderLen] at *
    omega

theorem dataOffset_eq_none_iff {realPosition : UInt64} {header : Bytes} :
    dataOffset realPosition header = none ↔
      leValue (header.take 4) ≠ fileHeaderSignature := by
  unfold dataOffset
  split
  · rename_i h
    simp [h]
  · rename_i h
    simp [not_not.mp h]

/-- The head of `Decompress`: read the local header and go to the data.  The
record of the session starts there. -/
def openEntry (env : Env) (baseOffset : UInt64) (file : File) :
    Except ErrorCode Session :=
  let realPosition := file.position + baseOffset
  match seek env realPosition ⟨0, 0, []⟩ with
  | .error ec => .error ec
  | .ok s =>
      match s.readFull env fileHeaderLen with
      | (.error ec, _) => .error ec
      | (.ok header, s) =>
          match dataOffset realPosition header with
          | none =>
              .error (ErrorCode.general (wide "zip: not a valid zip file"))
          | some position =>
              match seek env position s with
              | .error ec => .error ec
              | .ok s => .ok { s with trace := [] }

/-- The switch over the compression method. -/
def decompressData (env : Env) (codecs : Codecs) (file : File) (fuel : Nat)
    (s : Session) : Option Outcome :=
  if file.method = zipStore then decompressStore env file fuel s
  else if file.method = zipDeflate then
    decompressDeflate env codecs.deflate file (codecs.buffer insize) fuel s
  else if file.method = zipDeflate64 then
    decompressDeflate64 env codecs.deflate64 file (codecs.buffer chunkSize)
      fuel s
  else if file.method = zipZstdOld ∨ file.method = zipZstd then
    decompressZstd env codecs.zstd file (codecs.buffer zstdInSize) fuel s
  else if file.method = zipLZMA then
    decompressLZMA env codecs.lzma file (codecs.buffer xzinsize) fuel s
  else if file.method = zipXz then
    decompressXz env codecs.xz file (codecs.buffer xzinsize) fuel s
  else if file.method = zipBzip2 then
    decompressBz2 env codecs.bz2 file (codecs.buffer insize) fuel s
  else if file.method = zipPPMd then
    decompressPpmd env codecs.ppmd file
      (codecs.buffer SectionReader.capacity) fuel s
  else if file.method = zipBrotli then
    decompressBrotli env codecs.brotli file (codecs.buffer insize) fuel s
  else
    some (.fail (ErrorCode.make ErrorCode.errGeneral
      (wide "unsupport zip method " ++
        wide (toString file.method.toNat))) s)

/-- `Reader::Decompress`. -/
def decompress (env : Env) (codecs : Codecs) (baseOffset : UInt64)
    (file : File) (fuel : Nat) : Option Outcome :=
  match openEntry env baseOffset file with
  | .error ec => some (.fail ec ⟨0, 0, []⟩)
  | .ok s => decompressData env codecs file fuel s

end Baulk.Zip
