import Baulk.Core.ErrorCode
import Baulk.Core.Time

/-!
# Tar header blocks

A tar stream is a sequence of blocks of 512 bytes.  Numbers in a header are
octal texts, or big-endian two's complement numbers when the highest bit of the
field is set; texts end at their first NUL.  The dialect of a header is
recognised from its checksum and magic.
-/

namespace Baulk.Tar

/-! ## Numbers and texts -/

/-- `std::from_chars` for an integer between `lo` and `hi`: an optional minus
sign and the longest run of digits.  Without digits, or out of range, nothing
is stored. -/
def fromChars (base : Nat) (lo hi : Int) (p : Bytes) : Option Int :=
  let negative := p.head? == some 0x2D
  let digits := (if negative then p.drop 1 else p).takeWhile fun c =>
    decide (0x30 ≤ c.toNat ∧ c.toNat < 0x30 + base)
  if digits.isEmpty then none
  else
    let magnitude : Nat :=
      digits.foldl (fun n c => n * base + (c.toNat - 0x30)) 0
    let value : Int := if negative then -magnitude else magnitude
    if lo ≤ value ∧ value ≤ hi then some value else none

def int64Min : Int := -2 ^ 63
def int64Max : Int := 2 ^ 63 - 1

/-- `std::from_chars` for `int64_t`. -/
def fromCharsInt64 (base : Nat) (p : Bytes) : Option Int :=
  fromChars base int64Min int64Max p

/-- `std::from_chars` for `int`. -/
def fromCharsInt (p : Bytes) : Option Int :=
  fromChars 10 (-2 ^ 31) (2 ^ 31 - 1) p

/-- `static_cast<int>` of a 64-bit number. -/
def toInt (n : Int) : Int :=
  n.bmod (2 ^ 32)

def parseNumeric8 (p : Bytes) : Int :=
  (fromCharsInt64 8 p).getD 0

/-- The first loop of `parseNumeric256`: while there are more than eight bytes,
the current byte `c` must be an extension of the sign. -/
def skipSign (neg : UInt8) : Nat → UInt8 → Bytes → Option (UInt8 × Bytes)
  | 0, c, rest => some (c, rest)
  | extra + 1, c, rest =>
      if c ≠ neg then none
      else skipSign neg extra (rest.headD 0) rest.tail

def parseNumeric256 (p : Bytes) : Int :=
  let c := p.headD 0
  let negative := c &&& 0x40 != 0
  let neg : UInt8 := if negative then 0xFF else 0
  let overflow := if negative then int64Min else int64Max
  let first := if negative then c ||| 0x80 else c &&& 0x7F
  match skipSign neg (p.length - 8) first p.tail with
  | none => overflow
  | some (c, rest) =>
      if (c ^^^ neg) &&& 0x80 ≠ 0 then overflow
      else
        let start : UInt64 := if negative then 0xFFFFFFFFFFFFFFFF else 0
        let l := (c :: rest).foldl
          (fun (l : UInt64) b => (l <<< 8) ||| b.toUInt64) start
        l.toInt64.toInt

def parseNumeric (p : Bytes) : Int :=
  if p.headD 0 &&& 0x80 ≠ 0 then parseNumeric256 p else parseNumeric8 p

def parseString (p : Bytes) : Bytes :=
  p.takeWhile (· ≠ 0)

/-! ## Header blocks -/

def blockSize : Nat := 512

/-- A field of a header block. -/
def field (offset length : Nat) (block : Bytes) : Bytes :=
  (block.drop offset).take length

def isZeroBlock (block : Bytes) : Bool :=
  block.all (· == 0)

/-- The fields that all dialects share. -/
def nameField := field 0 100
def modeField := field 100 8
def uidField := field 108 8
def gidField := field 116 8
def sizeField := field 124 12
def mtimeField := field 136 12
def chksumField := field 148 8
def linknameField := field 157 100
def magicField := field 257 6
def versionField := field 263 2
def unameField := field 265 32
def gnameField := field 297 32
def devmajorField := field 329 8
def devminorField := field 337 8

def typeflagField (block : Bytes) : UInt8 :=
  block.getD 156 0

/-- `prefix` of `ustar_header` and of `star_header`. -/
def ustarPrefixField := field 345 155
def starPrefixField := field 345 131

def starAtimeField := field 476 12
def starCtimeField := field 488 12
def starTrailerField := field 500 4
def gnuAtimeField := field 345 12
def gnuCtimeField := field 357 12

/-- The block with its checksum field read as spaces. -/
def checksumBytes (block : Bytes) : Bytes :=
  block.take 148 ++ List.replicate 8 0x20 ++ block.drop 156

/-- `IsChecksumEqual`: the sum of the bytes, taken as unsigned or as signed
numbers. -/
def isChecksumEqual (block : Bytes) : Bool :=
  (chksumField block).all (fun c =>
      c == 0x20 || c == 0 || (decide (0x30 ≤ c) && decide (c ≤ 0x37))) &&
    (let sum := parseNumeric (chksumField block)
     let check : Int := ((checksumBytes block).map fun c => (c.toNat : Int)).sum
     let scheck : Int :=
       ((checksumBytes block).map fun c => c.toInt8.toInt).sum
     check == sum || scheck == sum)

def formatUnknown : Nat := 0
def formatV7 : Nat := 1
def formatUSTAR : Nat := 2
def formatPAX : Nat := 4
def formatGNU : Nat := 8
def formatSTAR : Nat := 16

def getFormat (block : Bytes) : Nat :=
  if !isChecksumEqual block then formatUnknown
  else if magicField block == narrow "ustar" ++ [0] then
    if starTrailerField block == narrow "tar" ++ [0] then formatSTAR
    else formatUSTAR ||| formatPAX
  else if magicField block == narrow "ustar " &&
      versionField block == [0x20, 0] then formatGNU
  else formatV7

def typeReg : UInt8 := 0x30
def typeRegA : UInt8 := 0
def typeLink : UInt8 := 0x31
def typeSymlink : UInt8 := 0x32
def typeChar : UInt8 := 0x33
def typeBlock : UInt8 := 0x34
def typeDir : UInt8 := 0x35
def typeFifo : UInt8 := 0x36
def typeXHeader : UInt8 := 0x78
def typeXGlobalHeader : UInt8 := 0x67
def typeGNULongName : UInt8 := 0x4C
def typeGNULongLink : UInt8 := 0x4B

def isHeaderOnlyType (flag : UInt8) : Bool :=
  flag == typeLink || flag == typeSymlink || flag == typeChar ||
    flag == typeBlock || flag == typeDir || flag == typeFifo

/-- The number of bytes up to the next block edge. -/
def blockPadding (offset : Int) : Int :=
  (-offset) % 512

/-! ## Headers -/

/-- `pax_records_t`, in the order of insertion. -/
abbrev PaxRecords := List (Bytes × Bytes)

/-- `flat_hash_map::emplace`: a key that is there keeps its value. -/
def emplace (records : PaxRecords) (k v : Bytes) : PaxRecords :=
  if records.any (fun r => r.1 == k) then records else records ++ [(k, v)]

structure Header where
  name : Bytes := []
  linkName : Bytes := []
  uname : Bytes := []
  gname : Bytes := []
  size : Int := 0
  mode : Int := 0
  modTime : Time := 0
  accessTime : Time := 0
  changeTime : Time := 0
  devmajor : Int := 0
  devminor : Int := 0
  xattrs : PaxRecords := []
  paxRecords : PaxRecords := []
  uid : Int := 0
  gid : Int := 0
  format : Nat := 0
  typeflag : UInt8 := 0
  deriving DecidableEq

namespace Header

def isDir (h : Header) : Bool := h.typeflag == typeDir

def isRegular (h : Header) : Bool :=
  h.typeflag == typeReg || h.typeflag == typeRegA

def isSymlink (h : Header) : Bool := h.typeflag == typeSymlink

end Header

def invalidHeader : ErrorCode :=
  ErrorCode.make ErrorCode.errNotTarFile (wide "invalid tar header")

/-- The part of `readHeader` behind the zero blocks: the fields of a block. -/
def parseHeader (block : Bytes) : Except ErrorCode Header :=
  let format := getFormat block
  if format = formatUnknown then .error invalidHeader
  else
    let h : Header :=
      { format := format
        typeflag := typeflagField block
        name := parseString (nameField block)
        linkName := parseString (linknameField block)
        size := parseNumeric (sizeField block)
        mode := parseNumeric (modeField block)
        uid := toInt (parseNumeric (uidField block))
        gid := toInt (parseNumeric (gidField block))
        modTime := Time.fromUnix (parseNumeric (mtimeField block)) 0 }
    if format ≤ formatV7 then .ok h
    else
      let h := { h with
        uname := parseString (unameField block)
        gname := parseString (gnameField block)
        devmajor := parseNumeric (devmajorField block)
        devminor := parseNumeric (devminorField block) }
      let (front, h) :=
        if format &&& (formatUSTAR ||| formatPAX) ≠ 0 then
          (parseString (ustarPrefixField block), h)
        else if format &&& formatSTAR ≠ 0 then
          (parseString (starPrefixField block), { h with
            accessTime :=
              Time.fromUnix (parseNumeric (starAtimeField block)) 0
            changeTime :=
              Time.fromUnix (parseNumeric (starCtimeField block)) 0 })
        else if format &&& formatGNU ≠ 0 then
          ([], { h with
            accessTime :=
              if (gnuAtimeField block).headD 0 ≠ 0 then
                Time.fromUnix (parseNumeric (gnuAtimeField block)) 0
              else h.accessTime
            changeTime :=
              if (gnuCtimeField block).headD 0 ≠ 0 then
                Time.fromUnix (parseNumeric (gnuCtimeField block)) 0
              else h.changeTime })
        else ([], h)
      .ok (if front.isEmpty then h
        else { h with name := front ++ [0x2F] ++ h.name })

/-- `handleRegularFile`: the padding behind the data of an entry. -/
def handleRegularFile (h : Header) : Except ErrorCode Int :=
  let nb := if isHeaderOnlyType h.typeflag then 0 else h.size
  if nb < 0 then .error invalidHeader else .ok (blockPadding nb)

end Baulk.Tar
