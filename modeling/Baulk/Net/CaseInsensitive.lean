import Baulk.Core.Narrow
import Baulk.Support.HashTable

/-!
# Keys that ignore the case

`headers_t` and the status of the buckets are hash tables whose keys are compared with
`StringCaseInsensitiveEq` and hashed with `StringCaseInsensitiveHash`.  The comparison
folds 16-bit units; the hash goes over the bytes and folds each one by itself.  A
`char` above ASCII is a negative index of the table that it folds with, so it is
replaced by a byte of the memory in front of that table.
-/

namespace Baulk.Net

open Support

def stringCaseInsensitiveEq (wlhs wrhs : WString) : Bool :=
  equalsIgnoreCase wlhs wrhs

/-- `bela::ascii_tolower` for a `char`, with the memory in front of the table.
`memcasecmp` has no result there, since it depends on that byte; a hash is only
compared with one that is computed from the same byte. -/
def asciiToLowerChar (before : UInt8 → UInt8) (c : UInt8) : UInt8 :=
  if c < 0x80 then asciiToLowerNarrow c else before c

/-- `static_cast<size_t>` of a `char`, which is signed. -/
def charToSize (c : UInt8) : UInt64 :=
  c.toInt8.toInt64.toUInt64

def kFNVOffsetBasis : UInt64 := 14695981039346656037

def kFNVPrime : UInt64 := 1099511628211

def unitBytes (c : WChar) : Bytes :=
  [c.toUInt8, (c >>> 8).toUInt8]

def stringCaseInsensitiveHash (before : UInt8 → UInt8) (wsv : WString) : UInt64 :=
  (wsv.flatMap unitBytes).foldl
    (fun val c => (val ^^^ charToSize (asciiToLowerChar before c)) * kFNVPrime) kFNVOffsetBasis

/-! ## Folding bytes and units -/

variable (before : UInt8 → UInt8)

theorem asciiToLowerNarrow_idem (c : UInt8) :
    asciiToLowerNarrow (asciiToLowerNarrow c) = asciiToLowerNarrow c := by
  have hupper : ∀ d : UInt8, (0x41 ≤ d ∧ d ≤ 0x5A) ↔ 0x41 ≤ d.toNat ∧ d.toNat ≤ 0x5A := by
    intro d
    rw [UInt8.le_iff_toNat_le, UInt8.le_iff_toNat_le]
    rfl
  unfold asciiToLowerNarrow
  by_cases hc : 0x41 ≤ c ∧ c ≤ 0x5A
  · rw [if_pos hc, if_neg]
    rw [hupper, UInt8.toNat_add]
    have hc := (hupper c).mp hc
    change ¬(0x41 ≤ (c.toNat + 0x20) % 256 ∧ (c.toNat + 0x20) % 256 ≤ 0x5A)
    omega
  · rw [if_neg hc, if_neg hc]

theorem map_unitBytes (c : WChar) :
    (unitBytes c).map (asciiToLowerChar before) =
      (unitBytes (asciiToLower c)).map (asciiToLowerChar before) := by
  by_cases hc : 0x7F < c
  · rw [asciiToLower_of_lt hc]
  · rw [UInt16.not_lt] at hc
    obtain ⟨hle, hbyte⟩ := asciiToLower_of_le hc
    have hlow : ∀ {d : WChar}, d ≤ 0x7F → d.toUInt8 < 0x80 ∧ (d >>> 8).toUInt8 = 0 := by
      intro d hd
      have hd : d.toNat ≤ 127 := UInt16.le_iff_toNat_le.mp hd
      have hshift : (d >>> 8).toNat = 0 := by
        rw [UInt16.toNat_shiftRight]
        change d.toNat >>> 8 = 0
        rw [Nat.shiftRight_eq_div_pow]
        omega
      refine ⟨?_, ?_⟩
      · rw [UInt8.lt_iff_toNat_lt, UInt16.toNat_toUInt8]
        change d.toNat % 256 < 128
        omega
      · rw [← UInt8.toNat_inj, UInt16.toNat_toUInt8, hshift]
        rfl
    obtain ⟨hsmall, hhigh⟩ := hlow hc
    obtain ⟨hsmall', hhigh'⟩ := hlow hle
    rw [hbyte] at hsmall'
    simp only [unitBytes, List.map_cons, List.map_nil, hhigh, hhigh', hbyte, asciiToLowerChar,
      if_pos hsmall, if_pos hsmall', asciiToLowerNarrow_idem]

theorem map_flatMap_unitBytes (wsv : WString) :
    (wsv.flatMap unitBytes).map (asciiToLowerChar before) =
      ((wsv.map asciiToLower).flatMap unitBytes).map (asciiToLowerChar before) := by
  induction wsv with
  | nil => rfl
  | cons c wsv ih =>
      rw [List.map_cons, List.flatMap_cons, List.flatMap_cons, List.map_append, List.map_append,
        map_unitBytes, ih]

theorem stringCaseInsensitiveHash_eq (wsv : WString) :
    stringCaseInsensitiveHash before wsv =
      ((wsv.flatMap unitBytes).map (asciiToLowerChar before)).foldl
        (fun val c => (val ^^^ charToSize c) * kFNVPrime) kFNVOffsetBasis := by
  rw [stringCaseInsensitiveHash, List.foldl_map]

theorem stringCaseInsensitiveHash_congr {a b : WString}
    (h : stringCaseInsensitiveEq a b = true) :
    stringCaseInsensitiveHash before a = stringCaseInsensitiveHash before b := by
  have hfolded := equalsIgnoreCase_iff.mp h
  rw [stringCaseInsensitiveHash_eq, stringCaseInsensitiveHash_eq, map_flatMap_unitBytes,
    map_flatMap_unitBytes before b, hfolded]

/-! ## The tables -/

/-- The keys of `headers_t` and of `bucket_status_t`. -/
def caseInsensitive : Keying WString UInt64 where
  hash := stringCaseInsensitiveHash before
  eq := stringCaseInsensitiveEq
  refl := equalsIgnoreCase_self
  symm h := by
    rw [stringCaseInsensitiveEq, equalsIgnoreCase_comm]
    exact h
  trans h h' := equalsIgnoreCase_iff.mpr
    ((equalsIgnoreCase_iff.mp h).trans (equalsIgnoreCase_iff.mp h'))
  hash_eq h := stringCaseInsensitiveHash_congr before h

/-- Equal texts have the same hash; after any calls no two keys of a table are equal,
a search finds a key whatever the case of its letters, and each call changes what is
found under its own key only: a value that is inserted is found, one that is erased
is not. -/
theorem caseInsensitive_maps {ν : Type} (before : UInt8 → UInt8) :
    (∀ a b, stringCaseInsensitiveEq a b = true →
      stringCaseInsensitiveHash before a = stringCaseInsensitiveHash before b) ∧
    ∀ calls : List ((caseInsensitive before).Call ν),
      (Keying.run calls).Pairwise
        (fun e e' => stringCaseInsensitiveEq e.1 e'.1 = false) ∧
      (∀ e ∈ Keying.run calls, ∀ (k : WString) (probe : (caseInsensitive before).Probe k),
        stringCaseInsensitiveEq e.1 k = true →
        Keying.find probe (Keying.run calls) = some e) ∧
      ∀ (call : (caseInsensitive before).Call ν) (k : WString)
        (probe : (caseInsensitive before).Probe k),
        Keying.find probe (Keying.run (calls ++ [call])) =
          if stringCaseInsensitiveEq call.key k then
            call.action.leaves call.key (Keying.find probe (Keying.run calls))
          else Keying.find probe (Keying.run calls) := by
  refine ⟨fun a b h => stringCaseInsensitiveHash_congr before h, fun calls => ?_⟩
  have hdistinct : (caseInsensitive before).Distinct (Keying.run calls) :=
    Keying.distinct_run calls
  refine ⟨hdistinct, ?_, fun call k probe => Keying.find_run_concat calls call probe⟩
  intro e he k probe heq
  exact Keying.find_of_mem probe hdistinct he heq

end Baulk.Net
