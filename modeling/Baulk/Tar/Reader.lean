import Baulk.Support.Loop
import Baulk.Tar.Pax

/-!
# The tar reader

`tar::Reader` walks over the entries of a stream that an `ExtractReader`
delivers: a file, or a decompressor on top of one.  Between two headers it
relies on two counters, the unread data of the current entry and the padding
behind it.

An operation that does not return is `none`.
-/

namespace Baulk.Tar

open Support (Step loop)

/-! ## Underlying readers -/

/-- How an operation fails: with a new error code, or leaving the caller's as
it is. -/
abbrev Failure := Option ErrorCode

/-- What a writer says to a chunk. -/
inductive Answer where
  | accept
  | refuse (failure : Failure)

/-- A writer sees every chunk of a call so far and answers to the last one. -/
abbrev Writer := List Bytes → Answer

/-- How `WriteTo` ends, with the chunks that were handed to the writer. -/
structure WriteResult where
  outcome : Except Failure Unit
  chunks : List Bytes
  extracted : Int

structure ExtractReader where
  State : Type
  read : Nat → State → Option (Except Failure Bytes × State)
  discard : Int → State → Option (Except Failure Unit × State)
  writeTo : Writer → Int → State → Option (WriteResult × State)

structure Reader (R : ExtractReader) where
  source : R.State
  remainingSize : Int := 0
  paddingSize : Int := 0
  index : Nat := 0

/-! ## Blocks -/

def endOfFile : ErrorCode :=
  ErrorCode.make ErrorCode.errEnded (wide "End of file")

/-- `Reader::ReadFull`.  The first number bounds the calls of `Read`, of which
each returns at least one byte. -/
def readFull (R : ExtractReader) : Nat → Nat → R.State →
    Option (Except Failure Bytes × R.State)
  | _, 0, s => some (.ok [], s)
  | 0, _ + 1, s => some (.error (some endOfFile), s)
  | calls + 1, len + 1, s =>
      match R.read (len + 1) s with
      | none => none
      | some (.error e, s) => some (.error e, s)
      | some (.ok got, s) =>
          if got.isEmpty then some (.error (some endOfFile), s)
          else
            match readFull R calls (len + 1 - got.length) s with
            | none => none
            | some (.error e, s) => some (.error e, s)
            | some (.ok rest, s) => some (.ok (got ++ rest), s)

/-- Read exactly `size` bytes. -/
def readBytes (R : ExtractReader) (size : Nat) (s : R.State) :
    Option (Except Failure Bytes × R.State) :=
  readFull R size size s

def streamEnd : ErrorCode :=
  ErrorCode.make ErrorCode.errEnded (wide "tar stream end")

def readHeader (R : ExtractReader) (s : R.State) :
    Option (Except Failure Header × R.State) :=
  match readBytes R blockSize s with
  | none => none
  | some (.error e, s) => some (.error e, s)
  | some (.ok block, s) =>
      if isZeroBlock block then
        match readBytes R blockSize s with
        | none => none
        | some (.error e, s) => some (.error e, s)
        | some (.ok block, s) =>
            if isZeroBlock block then some (.error (some streamEnd), s)
            else some (.error (some invalidHeader), s)
      else
        match parseHeader block with
        | .error ec => some (.error (some ec), s)
        | .ok h => some (.ok h, s)

/-! ## Entries -/

/-- The result of `Next`: the header if there is one, and the error code. -/
structure NextResult (R : ExtractReader) where
  header : Option Header
  ec : ErrorCode
  reader : Reader R

/-- The variables of `Next` that live across the rounds of its loop. -/
structure NextLoop (R : ExtractReader) where
  paxHdrs : PaxRecords := []
  gnuLongName : Bytes := []
  gnuLongLink : Bytes := []
  ec : ErrorCode
  reader : Reader R

/-- `return std::nullopt` after a failure. -/
def NextLoop.fail {R : ExtractReader} (l : NextLoop R) (e : Failure) :
    NextResult R :=
  ⟨none, e.getD l.ec, l.reader⟩

/-- Put the underlying reader into a new state. -/
def NextLoop.withSource {R : ExtractReader} (l : NextLoop R) (s : R.State) :
    NextLoop R :=
  { l with reader := { l.reader with source := s } }

/-- The beginning of a round: skip what is left of the current entry and read a
header. -/
def nextHeader (R : ExtractReader) (l : NextLoop R) :
    Option (Except Failure Header × NextLoop R) :=
  match R.discard l.reader.remainingSize l.reader.source with
  | none => none
  | some (.error e, s) => some (.error e, l.withSource s)
  | some (.ok (), s) =>
      match R.discard l.reader.paddingSize s with
      | none => none
      | some (.error e, s) => some (.error e, l.withSource s)
      | some (.ok (), s) =>
          match readHeader R s with
          | none => none
          | some (.error e, s) => some (.error e, l.withSource s)
          | some (.ok h, s) =>
              match handleRegularFile h with
              | .error ec => some (.error (some ec), l.withSource s)
              | .ok padding =>
                  some (.ok h, { l with
                    reader := { l.reader with
                      source := s, paddingSize := padding } })

def globalHeader (h : Header) : Header :=
  { name := h.name
    xattrs := h.xattrs
    paxRecords := h.paxRecords
    format := h.format
    typeflag := h.typeflag }

/-- The branch for `TypeXHeader` and `TypeXGlobalHeader`. -/
def nextPax (rt : Runtime) (R : ExtractReader) (h : Header)
    (l : NextLoop R) : Option (Step (NextLoop R) (NextResult R)) :=
  let h := { h with format := h.format &&& formatPAX }
  match readBytes R h.size.toNat l.reader.source with
  | none => none
  | some (.error e, s) => some (.done ((l.withSource s).fail e))
  | some (.ok data, s) =>
      match parsePAXData rt data l.paxHdrs with
      | .error ec => some (.done ((l.withSource s).fail (some ec)))
      | .ok records =>
          if h.typeflag = typeXGlobalHeader then
            -- Whether the merge went through is not looked at.
            let merged := mergePAX rt h records l.ec
            some (.done ⟨some (globalHeader merged.2.1), merged.2.2,
              (l.withSource s).reader⟩)
          else some (.next { l.withSource s with paxHdrs := records })

/-- The branch for `TypeGNULongName` and `TypeGNULongLink`. -/
def nextLong (R : ExtractReader) (h : Header) (l : NextLoop R) :
    Option (Step (NextLoop R) (NextResult R)) :=
  match readBytes R h.size.toNat l.reader.source with
  | none => none
  | some (.error e, s) => some (.done ((l.withSource s).fail e))
  | some (.ok data, s) =>
      if h.typeflag = typeGNULongName then
        some (.next { l.withSource s with gnuLongName := parseString data })
      else
        some (.next { l.withSource s with gnuLongLink := parseString data })

def useLongNames (gnuLongName gnuLongLink : Bytes) (h : Header) : Header :=
  { h with
    name := if gnuLongName.isEmpty then h.name else gnuLongName
    linkName := if gnuLongLink.isEmpty then h.linkName else gnuLongLink }

/-- The old flag for regular files also stands for directories. -/
def resolveRegA (h : Header) : Header :=
  { h with
    typeflag :=
      if h.typeflag = typeRegA then
        if h.name.getLast? = some 0x2F then typeDir else typeReg
      else h.typeflag }

/-- The header of an entry, from its block and the metadata in front of it. -/
def completeHeader (rt : Runtime) (paxHdrs : PaxRecords)
    (gnuLongName gnuLongLink : Bytes) (h : Header) (ec : ErrorCode) :
    Bool × Header × ErrorCode :=
  match mergePAX rt h paxHdrs ec with
  | (false, h, ec) => (false, h, ec)
  | (true, h, ec) =>
      (true, resolveRegA (useLongNames gnuLongName gnuLongLink h), ec)

/-- The format that is reported for USTAR and PAX headers. -/
def unifyFormat (h : Header) : Header :=
  if h.format &&& (formatUSTAR ||| formatPAX) ≠ 0 then
    { h with format := formatUSTAR }
  else h

def nextEntry (rt : Runtime) {R : ExtractReader} (h : Header)
    (l : NextLoop R) : NextResult R :=
  match completeHeader rt l.paxHdrs l.gnuLongName l.gnuLongLink h l.ec with
  | (false, _, ec) => ⟨none, ec, l.reader⟩
  | (true, h, ec) =>
      match handleRegularFile h with
      | .error ec => ⟨none, ec, l.reader⟩
      | .ok padding =>
          ⟨some (unifyFormat h), ec, { l.reader with
            paddingSize := padding
            remainingSize := h.size
            index := l.reader.index + 1 }⟩

/-- One round of the `for (;;)` of `Next`. -/
def nextBody (rt : Runtime) (R : ExtractReader) (l : NextLoop R) :
    Option (Step (NextLoop R) (NextResult R)) :=
  match nextHeader R l with
  | none => none
  | some (.error e, l) => some (.done (l.fail e))
  | some (.ok h, l) =>
      if h.typeflag = typeXHeader ∨ h.typeflag = typeXGlobalHeader then
        nextPax rt R h l
      else if h.typeflag = typeGNULongName ∨
          h.typeflag = typeGNULongLink then
        nextLong R h l
      else some (.done (nextEntry rt h l))

def next (rt : Runtime) (R : ExtractReader) (fuel : Nat) (ec : ErrorCode)
    (r : Reader R) : Option (NextResult R) :=
  loop (nextBody rt R) fuel { ec := ec, reader := r }

/-! ## Data -/

def Reader.read {R : ExtractReader} (n : Nat) (r : Reader R) :
    Option (Except Failure Bytes × Reader R) :=
  match R.read n r.source with
  | none => none
  | some (.error e, s) => some (.error e, { r with source := s })
  | some (.ok got, s) =>
      some (.ok got, { r with
        source := s
        remainingSize :=
          if 0 < got.length ∧ 0 < r.remainingSize then
            r.remainingSize - got.length
          else r.remainingSize })

/-- `Reader::WriteTo`, which clears the error code first. -/
def Reader.writeTo {R : ExtractReader} (w : Writer) (filesize : Int)
    (r : Reader R) : Option (WriteResult × Reader R) :=
  match R.writeTo w filesize r.source with
  | none => none
  | some (result, s) =>
      some (result, { r with
        source := s
        remainingSize :=
          if 0 < r.remainingSize then r.remainingSize - result.extracted
          else r.remainingSize })

end Baulk.Tar
