import Baulk.Core.Json

/-!
# Views of JSON values

`baulk::json_view` reads the members of an object.  A member of another type
counts as missing, except inside of arrays, whose elements have to be texts.
-/

namespace Baulk

def fromSlash (s : WString) : WString :=
  s.map fun c => if c = 0x2F then 0x5C else c

namespace Json

def get (json : Json) (key : Bytes) (dv : WString := []) : WString :=
  match json.find key with
  | some (.string raw) => encodeUtf16 raw
  | _ => dv

def texts : List Json → Except ErrorCode (List WString)
  | [] => .ok []
  | o :: rest => do
      let raw ← o.getString
      let rest ← texts rest
      return encodeUtf16 raw :: rest

/-- `json_view::get_strings_checked`: what is appended, if it returns true. -/
def getStringsChecked (json : Json) (name : Bytes) :
    Except ErrorCode (Option (List WString)) :=
  match json.find name with
  | some (.string raw) => .ok (some [encodeUtf16 raw])
  | some (.array elements) => do
      let v ← texts elements
      return some v
  | _ => .ok none

def rawTexts : List Json → Except ErrorCode (List Bytes)
  | [] => .ok []
  | o :: rest => do
      let raw ← o.getString
      let rest ← rawTexts rest
      return raw :: rest

/-- `json_view::get_strings_checked`, for narrow strings. -/
def getNarrowStringsChecked (json : Json) (name : Bytes) :
    Except ErrorCode (Option (List Bytes)) :=
  match json.find name with
  | some (.string raw) => .ok (some [raw])
  | some (.array elements) => do
      let v ← rawTexts elements
      return some v
  | _ => .ok none

/-- `json_view::get_paths_checked`.  Here a member of any type counts. -/
def getPathsChecked (json : Json) (name : Bytes) :
    Except ErrorCode (Option (List WString)) :=
  match json.find name with
  | some (.string raw) => .ok (some [fromSlash (encodeUtf16 raw)])
  | some (.array elements) => do
      let paths ← texts elements
      return some (paths.map fromSlash)
  | some _ => .ok (some [])
  | none => .ok none

/-- `json_view::get_as_integer`, before the conversion to the type of the
result. -/
def getAsInteger (json : Json) (name : Bytes) : Option Int :=
  match json.find name with
  | some (.number (.integer value)) => some value
  | _ => none

/-- A number as an `int`. -/
def toInt (value : Int) : Int :=
  (Int32.ofInt value).toInt

/-- A number as an `uint32_t`. -/
def toUInt32 (value : Int) : UInt32 :=
  UInt32.ofInt value

def subview (json : Json) (name : Bytes) : Option Json :=
  match json.find name with
  | some (.object keys nodup value) => some (.object keys nodup value)
  | _ => none

def subviews (json : Json) (name : Bytes) : List Json :=
  match json.find name with
  | some (.object keys nodup value) => [.object keys nodup value]
  | some (.array elements) => elements
  | _ => []

theorem get_of_find {json : Json} {key raw : Bytes} (dv : WString)
    (h : json.find key = some (.string raw)) :
    json.get key dv = encodeUtf16 raw := by
  rw [get, h]

theorem texts_eq (elements : List Json) :
    texts elements = (rawTexts elements).map (List.map encodeUtf16) := by
  induction elements with
  | nil => rfl
  | cons o rest ih =>
      rw [texts, rawTexts, ih]
      cases o.getString with
      | error ec => rfl
      | ok raw => cases rawTexts rest <;> rfl

theorem getStringsChecked_eq (json : Json) (name : Bytes) :
    json.getStringsChecked name = (json.getNarrowStringsChecked name).map
      (Option.map (List.map encodeUtf16)) := by
  unfold getStringsChecked getNarrowStringsChecked
  cases json.find name with
  | none => rfl
  | some value =>
      cases value with
      | array elements =>
          dsimp only
          rw [texts_eq]
          cases rawTexts elements <;> rfl
      | null => rfl
      | boolean value => rfl
      | number value => rfl
      | string value => rfl
      | object keys nodup value => rfl

theorem rawTexts_map_string (raws : List Bytes) :
    rawTexts (raws.map .string) = .ok raws := by
  induction raws with
  | nil => rfl
  | cons raw raws ih =>
      rw [List.map_cons, rawTexts, ih]
      rfl

theorem paired_get (json : Json) (key : Bytes) {dv : WString}
    (hdv : Paired dv) : Paired (json.get key dv) := by
  unfold get
  split
  · exact paired_encodeUtf16 _
  · exact hdv

theorem subview_of_find {obj sv v : Json} {name key : Bytes}
    (h : obj.find name = some sv) (hkey : sv.find key = some v) :
    obj.subview name = some sv := by
  rw [subview, h]
  cases sv with
  | object keys nodup value => rfl
  | null => cases hkey
  | boolean value => cases hkey
  | number value => cases hkey
  | string value => cases hkey
  | array elements => cases hkey

end Json

end Baulk
