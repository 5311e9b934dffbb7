import Baulk.Tar.XzDecoding

/-!
# The readers of compressed streams

`MakeReader` chooses a reader by the format of the file.  For a stream that the
library decodes completely, the readers for gzip, bzip2, xz and zstd deliver
what was decoded; the one for Brotli fails at its first call.
-/

namespace Baulk.Tar

open Zip (StreamCodec)

/-- The formats that `MakeReader` knows. -/
inductive Compression where
  | gz
  | bz2
  | zstd
  | xz
  | brotli
  deriving DecidableEq

/-- The libraries behind the readers. -/
structure Libraries where
  zError : Int → WString
  zlib : StreamCodec
  bzlib : StreamCodec
  zstd : Zip.ZstdCodec
  lzma : StreamCodec
  brotli : StreamCodec

namespace Compression

variable (libs : Libraries) (file : SourceFile) (fuel : Nat)

/-- `decompress` of each reader. -/
def decompressor : Compression → Decompressor
  | gz => gzipDecompressor file libs.zError libs.zlib fuel
  | bz2 => bzipDecompressor file libs.bzlib fuel
  | zstd => zstdDecompressor file libs.zstd fuel
  | xz => xzDecompressor file libs.lzma fuel
  | brotli => brotliDecompressor file libs.brotli fuel

def reader : Compression → ExtractReader
  | gz => gzipReader file libs.zError libs.zlib fuel
  | bz2 => bzipReader file libs.bzlib fuel
  | zstd => zstdReader file libs.zstd fuel
  | xz => xzReader file libs.lzma fuel
  | brotli => brotliReader file libs.brotli fuel

/-- The state of a decompressor after `Initialize`. -/
def init (f₀ : FileState) :
    (k : Compression) → (k.decompressor libs file fuel).State
  | gz => ({ file := f₀, codec := libs.zlib.init } : BlockStream libs.zlib)
  | bz2 => ({ file := f₀, codec := libs.bzlib.init } : BlockStream libs.bzlib)
  | zstd => ({ file := f₀, codec := libs.zstd.codec.init } :
      ZstdStream libs.zstd.codec)
  | xz => ({ file := f₀, codec := libs.lzma.init } : XzStream libs.lzma)
  | brotli => ({ file := f₀, codec := libs.brotli.init } :
      BrotliStream libs.brotli)

/-- A reader that `MakeReader` has just made. -/
def start (f₀ : FileState) :
    (k : Compression) → (k.reader libs file fuel).State
  | gz => (⟨[], gz.init libs file fuel f₀⟩ : Buffered _)
  | bz2 => (⟨[], bz2.init libs file fuel f₀⟩ : Buffered _)
  | zstd => (⟨[], zstd.init libs file fuel f₀⟩ : Buffered _)
  | xz => (⟨[], xz.init libs file fuel f₀⟩ : Buffered _)
  | brotli => (⟨[], brotli.init libs file fuel f₀⟩ : Buffered _)

/-- The library decodes the rest of the file to `D`; nothing is known about a
decoder for Brotli but its output. -/
def Decodes (f₀ : FileState) (D : Bytes) (fate : Fate) : Compression → Prop
  | gz => Nonempty (GzipDecoding file libs.zError libs.zlib f₀ D fate)
  | bz2 => Nonempty (BzipDecoding file libs.bzlib f₀ D fate)
  | zstd => Nonempty (ZstdDecoding file libs.zstd f₀ D fate)
  | xz => Nonempty (XzDecoding file libs.lzma f₀ D fate)
  | brotli => Nonempty (Decoding libs.brotli BlockCall (fun ret => ret = 0)
      (file.unread f₀) D)

/-- The library decodes the rest of the file to `D`, and zstd has no output
left when the input is used up. -/
def DecodesPromptly (f₀ : FileState) (D : Bytes) (fate : Fate) :
    Compression → Prop
  | zstd => ∃ decoding : ZstdDecoding file libs.zstd f₀ D fate,
      decoding.Prompt
  | k => k.Decodes libs file f₀ D fate

end Compression

/-- A decompressor whose failures are accounted for. -/
structure Supply (file : SourceFile) (dec : Decompressor) (init : dec.State)
    (D : Bytes) (fate : Fate) where
  delivers : Delivers dec D
  start : delivers.Ahead init D
  stops : ∀ {s s' rest e}, delivers.Ahead s rest →
    dec.decompress s = some (.error e, s') → Stops file fate rest e
  steady : fate = .complete → ∀ {s s' rest e}, delivers.Ahead s rest →
    dec.decompress s = some (.error e, s') → delivers.Ahead s' rest

/-- Enough rounds for every loop. -/
def EnoughFuel (file : SourceFile) (D : Bytes) (fuel : Nat) : Prop :=
  2 * (file.content.bytes.length + xzoutsize) + 1 < fuel ∧
    2 * D.length + 1 < fuel

variable {libs : Libraries} {file : SourceFile} {fuel : Nat}
  {f₀ : FileState} {D : Bytes} {fate : Fate}

theorem Compression.supply {k : Compression} (hk : k ≠ .brotli)
    (hfuel : EnoughFuel file D fuel)
    (h : k.DecodesPromptly libs file f₀ D fate) :
    Nonempty (Supply file (k.decompressor libs file fuel)
      (k.init libs file fuel f₀) D fate) := by
  have hfile := hfuel.1
  have hroom : 0 < xzoutsize := by decide
  cases k with
  | gz =>
      obtain ⟨decoding⟩ := h
      exact ⟨GzipDecoding.delivers decoding (by omega),
        BlockStream.stands_start (by decide),
        fun hs hfails => (GzipDecoding.stops decoding hs hfails).1,
        fun hfate _ _ _ _ hs hfails =>
          (GzipDecoding.stops decoding hs hfails).2 (by simp [hfate])⟩
  | bz2 =>
      obtain ⟨decoding⟩ := h
      exact ⟨BzipDecoding.delivers decoding (by omega),
        BlockStream.stands_start (by decide),
        fun hs hfails => (BzipDecoding.stops decoding hs hfails).1,
        fun hfate _ _ _ _ hs hfails =>
          (BzipDecoding.stops decoding hs hfails).2 (by simp [hfate])⟩
  | zstd =>
      obtain ⟨decoding, hprompt⟩ := h
      exact ⟨FrameDecoding.delivers decoding (by omega),
        ZstdStream.stands_start,
        fun hs hfails => (FrameDecoding.stops decoding hprompt hs hfails).1,
        fun hfate _ _ _ _ hs hfails =>
          (FrameDecoding.stops decoding hprompt hs hfails).2 (by simp [hfate])⟩
  | xz =>
      obtain ⟨decoding⟩ := h
      exact ⟨LzmaDecoding.delivers decoding (by omega),
        XzStream.stands_start,
        fun hs hfails => (LzmaDecoding.stops decoding hs hfails).1,
        fun hfate _ _ _ _ hs hfails =>
          (LzmaDecoding.stops decoding hs hfails).2 hfate⟩
  | brotli => exact absurd rfl hk

end Baulk.Tar
