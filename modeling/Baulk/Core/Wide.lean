import Mathlib.Algebra.Order.Ring.Int
import Mathlib.Data.List.Infix

/-!
# Wide strings

The repository is a Windows program: names, paths and messages are
`std::wstring` values, that is, sequences of arbitrary 16-bit units.  This
module fixes their representation and the handful of `bela` string helpers
which the modelled functions call.
-/

namespace Baulk

/-- `wchar_t` on Windows: one UTF-16 code unit, possibly a lone surrogate. -/
abbrev WChar := UInt16

/-- `std::wstring` and `std::wstring_view`. -/
abbrev WString := List WChar

/-- An `std::string` or a span of `uint8_t`. -/
abbrev Bytes := List UInt8

/-- The wide literal `L"..."` of a text in the basic multilingual plane. -/
def wide (s : String) : WString :=
  s.toList.map fun c => c.toNat.toUInt16

/-- The narrow literal `"..."` of an ASCII text. -/
def narrow (s : String) : Bytes :=
  s.toList.map fun c => c.toNat.toUInt8

theorem digit_of_mem_repr {n : Nat} {c : WChar} (h : c ∈ wide (Nat.repr n)) :
    0x30 ≤ c.toNat ∧ c.toNat ≤ 0x39 := by
  obtain ⟨d, hd, rfl⟩ := List.mem_map.mp h
  rw [Nat.repr_eq_ofList_toDigits, String.toList_ofList] at hd
  have hdigit := Nat.isDigit_of_mem_toDigits (by decide) (by decide) hd
  rw [Char.isDigit_iff_toNat] at hdigit
  have hlow : 48 ≤ d.toNat := hdigit.1
  have hhigh : d.toNat ≤ 57 := hdigit.2
  change 48 ≤ d.toNat % 2 ^ 16 ∧ d.toNat % 2 ^ 16 ≤ 57
  omega

/-- `bela::ascii_tolower`: only `A` to `Z` change. -/
def asciiToLower (c : WChar) : WChar :=
  if 0x41 ≤ c ∧ c ≤ 0x5A then c + 0x20 else c

/-- `bela::ascii_toupper`: only `a` to `z` change. -/
def asciiToUpper (c : WChar) : WChar :=
  if 0x61 ≤ c ∧ c ≤ 0x7A then c - 0x20 else c

/-- `bela::AsciiStrToUpper`. -/
def asciiStrToUpper (s : WString) : WString :=
  s.map asciiToUpper

/-- `bela::EqualsIgnoreCase`. -/
def equalsIgnoreCase (a b : WString) : Bool :=
  a.map asciiToLower == b.map asciiToLower

theorem equalsIgnoreCase_iff {a b : WString} :
    equalsIgnoreCase a b = true ↔ a.map asciiToLower = b.map asciiToLower := by
  rw [equalsIgnoreCase, beq_iff_eq]

theorem equalsIgnoreCase_comm (a b : WString) :
    equalsIgnoreCase a b = equalsIgnoreCase b a := by
  rw [Bool.eq_iff_iff, equalsIgnoreCase_iff, equalsIgnoreCase_iff]
  exact eq_comm

theorem equalsIgnoreCase_congr {a b : WString}
    (h : equalsIgnoreCase a b = true) (c : WString) :
    equalsIgnoreCase c a = equalsIgnoreCase c b := by
  rw [equalsIgnoreCase_iff] at h
  rw [equalsIgnoreCase, equalsIgnoreCase, h]

theorem equalsIgnoreCase_self (a : WString) : equalsIgnoreCase a a = true :=
  equalsIgnoreCase_iff.mpr rfl

/-- `bela::EndsWithIgnoreCase`. -/
def endsWithIgnoreCase (text suffix : WString) : Bool :=
  decide (suffix.length ≤ text.length) &&
    equalsIgnoreCase (text.drop (text.length - suffix.length)) suffix

theorem endsWithIgnoreCase_iff {p e : WString} :
    endsWithIgnoreCase p e = true ↔
      ∃ front ext, p = front ++ ext ∧ equalsIgnoreCase ext e = true := by
  rw [endsWithIgnoreCase, Bool.and_eq_true, decide_eq_true_iff]
  constructor
  · rintro ⟨-, hequal⟩
    exact ⟨_, _, (List.take_append_drop _ p).symm, hequal⟩
  · rintro ⟨front, ext, rfl, hequal⟩
    have hlength := congrArg List.length (equalsIgnoreCase_iff.mp hequal)
    rw [List.length_map, List.length_map] at hlength
    have hfront : (front ++ ext).length - e.length = front.length := by
      rw [List.length_append]
      omega
    rw [hfront, List.drop_left, List.length_append]
    exact ⟨by omega, hequal⟩

/-- `bela::StrContains`: `needle` occurs somewhere in `haystack`. -/
def strContains (haystack needle : WString) : Bool :=
  haystack.tails.any fun rest => needle.isPrefixOf rest

theorem strContains_iff {haystack needle : WString} :
    strContains haystack needle = true ↔ needle <:+: haystack := by
  simp only [strContains, List.any_eq_true, List.mem_tails,
     List.isPrefixOf_iff_prefix]
  constructor
  · rintro ⟨rest, hrest, hneedle⟩
    exact hneedle.isInfix.trans hrest.isInfix
  · rintro ⟨front, back, rfl⟩
    exact ⟨needle ++ back, ⟨front, by simp⟩, List.prefix_append _ _⟩

end Baulk
