import Baulk.Core.ErrorCode

/-!
# Checking a file against an expected hash

`HashEqual` compares a file's digest with a text of the form `METHOD:digest`
or plain `digest`.  The digests themselves come from `FileHash`, which may
fail to read the file; they are given here as a function of the method.
-/

namespace Baulk.Pkg

/-- `baulk::hash::hash_t`. -/
inductive HashMethod where
  | sha224 | sha256 | sha384 | sha512
  | sha3 | sha3_224 | sha3_256 | sha3_384 | sha3_512
  | blake3
  deriving DecidableEq, Repr

/-- `hnmaps`: the spellings of a method before the colon. -/
def hnmaps : List (WString × HashMethod) :=
  [(wide "BLAKE3", .blake3), (wide "SHA224", .sha224),
    (wide "SHA256", .sha256), (wide "SHA384", .sha384),
    (wide "SHA512", .sha512), (wide "SHA3-224", .sha3_224),
    (wide "SHA3-256", .sha3_256), (wide "SHA3-384", .sha3_384),
    (wide "SHA3-512", .sha3_512), (wide "SHA3", .sha3)]

/-- What `FileHash` reports for one file: the digest in hexadecimal, or why
the file could not be read. -/
abbrev FileHash := HashMethod → Except ErrorCode WString

/-- The comparison at the end of `HashEqual`. -/
def digestEqual (fileHash : FileHash) (m : HashMethod) (value : WString) :
    Except ErrorCode Unit :=
  match fileHash m with
  | .error ec => .error ec
  | .ok digest =>
      if endsWithIgnoreCase digest value then .ok ()
      else
        .error (ErrorCode.make ErrorCode.errGeneral
          (wide "checksum mismatch expected " ++ value ++ wide " actual " ++
            digest))

/-- `HashEqual`; `.ok ()` is the result `true`. -/
def hashEqual (fileHash : FileHash) (hashValue : WString) :
    Except ErrorCode Unit :=
  match hashValue.findIdx? (· == 0x3A) with
  | none => digestEqual fileHash .sha256 hashValue
  | some pos =>
      let name := asciiStrToUpper (hashValue.take pos)
      match hnmaps.lookup name with
      | none =>
          .error (ErrorCode.make ErrorCode.errGeneral
            (wide "unsupported hash method '" ++ name ++ wide "'"))
      | some m => digestEqual fileHash m (hashValue.drop (pos + 1))

/-- The verdict of `HashEqual`. -/
def hashMatches (fileHash : FileHash) (hashValue : WString) : Bool :=
  (hashEqual fileHash hashValue).isOk

end Baulk.Pkg
