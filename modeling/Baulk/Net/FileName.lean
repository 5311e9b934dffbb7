import Baulk.Core.Codecvt
import Baulk.Core.Numbers
import Baulk.Net.Headers
import Baulk.Net.PartHash
import Baulk.Pkg.Install
import Mathlib.Data.List.DropRight

/-!
# The names of downloads

A download is named by the path of its URL, by that of the location it was
redirected to, or by the header `Content-Disposition`.  The path is split before
its last part is decoded.
-/

namespace Baulk.Net

open Numbers (asciiIsSpace)

/-! ## URLs -/

/-- The loop of `url_decode`.  A couple that is zero or not hexadecimal is left
out. -/
def decodePercent : Bytes → Bytes
  | [] => []
  | ch :: rest =>
      if ch ≠ 0x25 then ch :: decodePercent rest
      else
        match rest with
        | a :: b :: rest =>
            match decodeByteCouple a b with
            | some n => if n > 0 then n :: decodePercent rest else decodePercent rest
            | none => decodePercent rest
        | _ => []

theorem decodePercent_plain {ch : UInt8} (h : ch ≠ 0x25) (rest : Bytes) :
    decodePercent (ch :: rest) = ch :: decodePercent rest := by
  rw [decodePercent.eq_def]
  exact if_pos h

def urlDecode (url : WString) : Bytes :=
  decodePercent (encodeUtf8 url)

def decodedUrlPathName (urlpath : WString) : WString :=
  match (Pkg.splitPath urlpath).getLast? with
  | none => wide "index.html"
  | some name =>
      if (0x25 : WChar) ∉ name then name else encodeUtf16 (urlDecode name)

/-! ## `Content-Disposition` -/

/-- `bela::StripLeadingAsciiWhitespace`; what is only white space stays. -/
def stripLeading (s : WString) : WString :=
  let rest := s.dropWhile asciiIsSpace
  if rest.isEmpty then s else rest

/-- `bela::StripTrailingAsciiWhitespace`; it does not look at the first
character. -/
def stripTrailing (s : WString) : WString :=
  let kept := s.tail.rdropWhile asciiIsSpace
  if kept.isEmpty then s else s.take (kept.length + 1)

/-- `bela::StripAsciiWhitespace`. -/
def stripAsciiWhitespace (s : WString) : WString :=
  stripTrailing (stripLeading s)

/-- `bela::ConsumePrefix` and `bela::ConsumeSuffix`, of a quote. -/
def consumeQuotes (v : WString) : WString :=
  let v := if v.head? = some 0x22 then v.tail else v
  if v.getLast? = some 0x22 then v.dropLast else v

def findTwoQuotes (v : WString) : Option Nat :=
  v.tails.findIdx? fun rest => [0x27, 0x27].isPrefixOf rest

def resolveFilename (es : WString) : Option WString :=
  let s := stripAsciiWhitespace es
  match s.findIdx? (· == 0x3D) with
  | none => none
  | some pos =>
      let field := stripAsciiWhitespace (s.take pos)
      let v := stripAsciiWhitespace (s.drop (pos + 1))
      if field = wide "filename" then some (consumeQuotes v)
      else if field ≠ wide "filename*" then none
      else
        match findTwoQuotes v with
        | none => some (consumeQuotes v)
        | some pos =>
            if equalsIgnoreCase (v.take pos) (wide "UTF-8") then
              some (encodeUtf16 (urlDecode (v.drop (pos + 2))))
            else none

/-- `extract_filename`, from the value of the header. -/
def dispositionFilename (value : WString) : Option WString :=
  ((value.splitOn 0x3B).filter fun e => !e.isEmpty).findSome? resolveFilename

def extractFilename (hkv : Headers) : Option WString :=
  match hkv.find? fun entry =>
      equalsIgnoreCase entry.1 (wide "Content-Disposition") with
  | none => none
  | some entry => dispositionFilename entry.2

end Baulk.Net
