import Baulk.Core.Codecvt
import Baulk.Core.ErrorCode

/-!
# JSON values

The part of `nlohmann::json` that the registries of the package manager use:
lookup and assignment by key, and the two ways of iterating over a value.
Assignment and iteration throw on some values; what they throw is an error
here.
-/

namespace Baulk

theorem bind_eq_ok_iff {ε α β : Type} {x : Except ε α} {f : α → Except ε β}
    {b : β} : (x >>= f) = .ok b ↔ ∃ a, x = .ok a ∧ f a = .ok b := by
  cases x with
  | error e => exact ⟨nofun, fun ⟨a, h, _⟩ => nomatch h⟩
  | ok a =>
      constructor
      · exact fun h => ⟨a, rfl, h⟩
      · rintro ⟨a', ha', h⟩
        cases ha'
        exact h

/-- A number: an integer, or a floating-point number by its literal. -/
inductive JsonNumber where
  | integer (value : Int)
  | float (literal : Bytes)

/-- `nlohmann::json`.  An object is a `std::map`: its keys, in their order, and
a value for each of them. -/
inductive Json where
  | null
  | boolean (value : Bool)
  | number (value : JsonNumber)
  | string (value : Bytes)
  | array (elements : List Json)
  | object (keys : List Bytes) (nodup : keys.Nodup) (value : Bytes → Json)

namespace Json

def typeName : Json → String
  | .null => "null"
  | .boolean _ => "boolean"
  | .number _ => "number"
  | .string _ => "string"
  | .array _ => "array"
  | .object _ _ _ => "object"

/-- `find`; a value that is no object has no keys. -/
def find (key : Bytes) : Json → Option Json
  | .object keys _ value => if key ∈ keys then some (value key) else none
  | _ => none

/-! ## Assignment -/

def addKey (key : Bytes) (keys : List Bytes) : List Bytes :=
  if key ∈ keys then keys
  else
    keys.takeWhile (fun k => decide (k < key)) ++ key ::
      keys.dropWhile fun k => decide (k < key)

theorem addKey_perm {key : Bytes} {keys : List Bytes} (h : key ∉ keys) :
    (addKey key keys).Perm (key :: keys) := by
  rw [addKey, if_neg h]
  refine List.perm_middle.trans ?_
  rw [List.takeWhile_append_dropWhile]

theorem nodup_addKey (key : Bytes) {keys : List Bytes} (h : keys.Nodup) :
    (addKey key keys).Nodup := by
  by_cases hkey : key ∈ keys
  · rwa [addKey, if_pos hkey]
  · rw [(addKey_perm hkey).nodup_iff]
    exact List.nodup_cons.mpr ⟨hkey, h⟩

theorem mem_addKey {key k : Bytes} {keys : List Bytes} :
    k ∈ addKey key keys ↔ k = key ∨ k ∈ keys := by
  by_cases hkey : key ∈ keys
  · rw [addKey, if_pos hkey]
    constructor
    · exact .inr
    · rintro (rfl | hk)
      · exact hkey
      · exact hk
  · rw [(addKey_perm hkey).mem_iff, List.mem_cons]

/-- Assignment to a key of a null value or an object. -/
def setMember (json : Json) (key : Bytes) (v : Json) : Json :=
  match json with
  | .null => .object [key] (by simp) fun _ => v
  | .object keys nodup value =>
      .object (addKey key keys) (nodup_addKey key nodup)
        fun k => if k = key then v else value k
  | json => json

/-- Assignment by `operator[]`: a null value becomes an object. -/
def set (json : Json) (key : Bytes) (v : Json) : Except ErrorCode Json :=
  match json with
  | .null => .ok (json.setMember key v)
  | .object _ _ _ => .ok (json.setMember key v)
  | json =>
      .error (ErrorCode.make ErrorCode.errGeneral
        (wide "[json.exception.type_error.305] cannot use operator[] " ++
          wide "with a string argument with " ++ wide json.typeName))

/-- A value that can be assigned to by key. -/
inductive IsMap : Json → Prop where
  | null : IsMap .null
  | object (keys : List Bytes) (nodup : keys.Nodup) (value : Bytes → Json) :
      IsMap (.object keys nodup value)

theorem IsMap.setMember {json : Json} (h : json.IsMap) (key : Bytes) (v : Json) :
    (json.setMember key v).IsMap := by
  cases h with
  | null => exact .object _ _ _
  | object keys nodup value => exact .object _ _ _

theorem IsMap.find_setMember {json : Json} (h : json.IsMap) (key : Bytes)
    (v : Json) (k : Bytes) :
    (json.setMember key v).find k = if k = key then some v else json.find k := by
  cases h with
  | null => simp [Json.setMember, find]
  | object keys nodup value =>
      simp only [Json.setMember, find, mem_addKey]
      by_cases hk : k = key
      · simp [hk]
      · simp [hk]

theorem set_eq_ok_iff {json json' : Json} {key : Bytes} {v : Json} :
    json.set key v = .ok json' ↔ json.IsMap ∧ json' = json.setMember key v := by
  cases json with
  | null =>
      simp only [set, Except.ok.injEq]
      exact ⟨fun h => ⟨.null, h.symm⟩, fun h => h.2.symm⟩
  | object keys nodup value =>
      simp only [set, Except.ok.injEq]
      exact ⟨fun h => ⟨.object _ _ _, h.symm⟩, fun h => h.2.symm⟩
  | boolean value => exact ⟨nofun, fun h => nomatch h.1⟩
  | number value => exact ⟨nofun, fun h => nomatch h.1⟩
  | string value => exact ⟨nofun, fun h => nomatch h.1⟩
  | array elements => exact ⟨nofun, fun h => nomatch h.1⟩

/-! ## Iteration -/

/-- `items`: the keys of an array are its indices, and the one of any other
value is empty. -/
def items : Json → List (Bytes × Json)
  | .null => []
  | .array elements =>
      elements.zipIdx.map fun element =>
        (narrow (toString element.2), element.1)
  | .object keys _ value => keys.map fun key => (key, value key)
  | json => [([], json)]

/-- `begin` to `end`; `key()` throws on an iterator without a key. -/
def elements : Json → List (Option Bytes × Json)
  | .null => []
  | .array elements => elements.map fun element => (none, element)
  | .object keys _ value => keys.map fun key => (some key, value key)
  | json => [(none, json)]

/-- `get<std::string>`. -/
def getString : Json → Except ErrorCode Bytes
  | .string value => .ok value
  | json =>
      .error (ErrorCode.make ErrorCode.errGeneral
        (wide "[json.exception.type_error.302] type must be string, but is " ++
          wide json.typeName))

/-- `key()` of an iterator. -/
def iteratorKey : Option Bytes → Except ErrorCode Bytes
  | some key => .ok key
  | none =>
      .error (ErrorCode.make ErrorCode.errGeneral
        (wide "[json.exception.invalid_iterator.207] " ++
          wide "cannot use key() for non-object iterators"))

/-- The text at a key. -/
def stringAt (key : Bytes) (json : Json) : Option Bytes :=
  match json.find key with
  | some (.string raw) => some raw
  | _ => none

end Json

end Baulk
