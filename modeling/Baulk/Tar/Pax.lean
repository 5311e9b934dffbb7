import Baulk.Tar.Format

/-!
# Extended headers

The data of a PAX header is a sequence of records `length key=value\n`.  They
are collected in a hash map and later override the fields of a header.
-/

namespace Baulk.Tar

/-- What the readers take from libraries: the conversion of UTF-8 texts for
messages, and the order in which a hash map is traversed. -/
structure Runtime where
  decode : Bytes → WString
  iterate : PaxRecords → PaxRecords
  iterate_perm : ∀ records, (iterate records).Perm records

def paxPath : Bytes := narrow "path"
def paxLinkpath : Bytes := narrow "linkpath"
def paxSize : Bytes := narrow "size"
def paxUid : Bytes := narrow "uid"
def paxGid : Bytes := narrow "gid"
def paxUname : Bytes := narrow "uname"
def paxGname : Bytes := narrow "gname"
def paxMtime : Bytes := narrow "mtime"
def paxAtime : Bytes := narrow "atime"
def paxCtime : Bytes := narrow "ctime"
def paxSchilyXattr : Bytes := narrow "SCHILY.xattr."
def paxGNUSparseOffset : Bytes := narrow "GNU.sparse.offset"
def paxGNUSparseNumBytes : Bytes := narrow "GNU.sparse.numbytes"
def paxGNUSparseMap : Bytes := narrow "GNU.sparse.map"

/-! ## Records -/

def validPAXRecord (k v : Bytes) : Bool :=
  if k.isEmpty || k.contains 0x3D then false
  else if k == paxPath || k == paxLinkpath || k == paxUname ||
      k == paxGname then
    !v.contains 0
  else !k.contains 0

def invalidRecord : ErrorCode :=
  ErrorCode.make ErrorCode.errExtractGeneral (wide "invalid pax record")

/-- An `ErrExtractGeneral` about a value. -/
def invalidValue (rt : Runtime) (what : String) (v : Bytes) : ErrorCode :=
  ErrorCode.make ErrorCode.errExtractGeneral
    (wide "invalid " ++ wide what ++ wide " '" ++ rt.decode v ++ wide "'")

/-- `parsePAXRecord`: a key, a value and what is left of the text.  The length
is compared with the size of the text as an unsigned number. -/
def parsePAXRecord (rt : Runtime) (sv : Bytes) :
    Except ErrorCode (Bytes × Bytes × Bytes) :=
  match sv.findIdx? (· == 0x20) with
  | none => .error invalidRecord
  | some pos =>
      match fromCharsInt (sv.take pos) with
      | none => .error (invalidValue rt "number" (sv.take pos))
      | some n =>
          if n < 0 ∨ sv.length < n then
            .error (invalidValue rt "number" (sv.take pos))
          else if n.toNat ≤ pos then .error invalidRecord
          else
            let rec' := (sv.drop (pos + 1)).take (n.toNat - pos - 1)
            if rec'.getLast? ≠ some 0x0A then .error invalidRecord
            else
              let rec' := rec'.dropLast
              match rec'.findIdx? (· == 0x3D) with
              | none => .error invalidRecord
              | some eq =>
                  let k := rec'.take eq
                  let v := rec'.drop (eq + 1)
                  if !validPAXRecord k v then
                    .error (ErrorCode.make ErrorCode.errExtractGeneral
                      (wide "invalid tar pax record"))
                  else .ok (k, v, sv.drop n.toNat)

/-- The loop of `parsePAX`.  Sparse offsets and sizes must alternate and are
collected in a list of their own.  The first argument bounds the number of
records; each has at least one byte. -/
def parseRecords (rt : Runtime) : Nat → Bytes → List Bytes → PaxRecords →
    Except ErrorCode PaxRecords
  | 0, _, sparseMap, records
  | _, [], sparseMap, records =>
      .ok (if sparseMap.isEmpty then records
        else emplace records paxGNUSparseMap
          (List.intercalate [0x2C] sparseMap))
  | count + 1, sv, sparseMap, records =>
      match parsePAXRecord rt sv with
      | .error ec => .error ec
      | .ok (k, v, sv) =>
          if k == paxGNUSparseOffset || k == paxGNUSparseNumBytes then
            if sparseMap.length % 2 == 0 && k != paxGNUSparseOffset ||
                sparseMap.length % 2 == 1 && k != paxGNUSparseNumBytes ||
                v.contains 0x2E then
              .error invalidHeader
            else parseRecords rt count sv (sparseMap ++ [v]) records
          else parseRecords rt count sv sparseMap (emplace records k v)

/-- `parsePAX` on the data of the header, added to the records so far. -/
def parsePAXData (rt : Runtime) (data : Bytes) (records : PaxRecords) :
    Except ErrorCode PaxRecords :=
  parseRecords rt data.length data [] records

/-! ## Merging -/

/-- `parsePAXTime`.  The nanoseconds are read from the seconds again. -/
def parsePAXTime (rt : Runtime) (p : Bytes) : Except ErrorCode Time :=
  let ss := p.takeWhile (· ≠ 0x2E)
  let sn := (p.dropWhile (· ≠ 0x2E)).drop 1
  match fromCharsInt64 10 ss with
  | none => .error (invalidValue rt "seconds" ss)
  | some sec =>
      if sn.isEmpty then .ok (Time.fromUnix sec 0)
      else .ok (Time.fromUnix sec ((fromCharsInt64 10 ss).getD 0))

/-- The records that replace a text. -/
def mergeText (h : Header) (k v : Bytes) : Option Header :=
  if k == paxPath then some { h with name := v }
  else if k == paxLinkpath then some { h with linkName := v }
  else if k == paxUname then some { h with uname := v }
  else if k == paxGname then some { h with gname := v }
  else none

/-- The records that replace a time. -/
def mergeTime (h : Header) (k : Bytes) : Option (Time → Header) :=
  if k == paxAtime then some fun t => { h with accessTime := t }
  else if k == paxMtime then some fun t => { h with modTime := t }
  else if k == paxCtime then some fun t => { h with changeTime := t }
  else none

/-- The records that replace a number, and extended attributes. -/
def mergeNumber (rt : Runtime) (h : Header) (k v : Bytes) :
    Except ErrorCode (Header × Option ErrorCode) :=
  if k == paxUid then
    -- An invalid uid is reported without failing.
    match fromCharsInt64 10 v with
    | none => .ok ({ h with uid := 0 }, some (invalidValue rt "uid" v))
    | some id => .ok ({ h with uid := toInt id }, none)
  else if k == paxGid then
    match fromCharsInt64 10 v with
    | none => .error (invalidValue rt "gid" v)
    | some id => .ok ({ h with gid := toInt id }, none)
  else if k == paxSize then
    match fromCharsInt64 10 v with
    | none => .error (invalidValue rt "size" v)
    | some size => .ok ({ h with size := size }, none)
  else if paxSchilyXattr.isPrefixOf k then
    .ok ({ h with
      xattrs := emplace h.xattrs (k.drop paxSchilyXattr.length) v }, none)
  else .ok (h, none)

/-- Apply one record.  The second component is the error code that is assigned
although the merge goes on. -/
def mergeRecord (rt : Runtime) (h : Header) (k v : Bytes) :
    Except ErrorCode (Header × Option ErrorCode) :=
  if v.isEmpty then .ok (h, none)
  else
    match mergeText h k v with
    | some h => .ok (h, none)
    | none =>
        match mergeTime h k with
        | some set =>
            match parsePAXTime rt v with
            | .error ec => .error ec
            | .ok t => .ok (set t, none)
        | none => mergeNumber rt h k v

/-- The loop of `mergePAX`: whether it went through, the header as far as it
was changed, and the error code. -/
def mergeRecords (rt : Runtime) : PaxRecords → Header → ErrorCode →
    Bool × Header × ErrorCode
  | [], h, ec => (true, h, ec)
  | (k, v) :: records, h, ec =>
      match mergeRecord rt h k v with
      | .error ec => (false, h, ec)
      | .ok (h, assigned) => mergeRecords rt records h (assigned.getD ec)

def mergePAX (rt : Runtime) (h : Header) (records : PaxRecords)
    (ec : ErrorCode) : Bool × Header × ErrorCode :=
  match mergeRecords rt (rt.iterate records) h ec with
  | (false, h, ec) => (false, h, ec)
  | (true, h, ec) => (true, { h with paxRecords := records }, ec)

end Baulk.Tar
