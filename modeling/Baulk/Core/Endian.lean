import Baulk.Core.Wide
import Mathlib.Data.Nat.Digits.Defs

/-!
# Reading integers from memory

`bela::endian::Reader` is a pointer with a count of the bytes left.  Nothing
stops it from leaving its bytes, so it is modelled over the whole memory, and
the ranges that are read are recorded by its callers.

`Sub` is the operation whose bookkeeping matters: how many bytes are left after
it is a parameter of the model, and `Reader.subSize` is what the code does.
-/

namespace Baulk

/-- The bytes of the process, by address. -/
abbrev Memory := Nat → UInt8

/-- A range of addresses that was read. -/
structure Span where
  start : Nat
  length : Nat
  deriving DecidableEq, Repr

/-- The span lies in the addresses from `first` up to `last`, exclusively. -/
def Span.Within (span : Span) (first last : Nat) : Prop :=
  first ≤ span.start ∧ span.start + span.length ≤ last

instance (span : Span) (first last : Nat) :
    Decidable (span.Within first last) :=
  inferInstanceAs (Decidable (_ ∧ _))

theorem Span.Within.mono {span : Span} {first last first' last' : Nat}
    (h : span.Within first last)
    (hfirst : first' ≤ first) (hlast : last ≤ last') :
    span.Within first' last' :=
  ⟨hfirst.trans h.1, h.2.trans hlast⟩

/-- The little-endian number in `width` bytes of memory. -/
def loadLe (mem : Memory) (address : Nat) : Nat → Nat
  | 0 => 0
  | width + 1 => (mem address).toNat + 256 * loadLe mem (address + 1) width

/-- The little-endian representation of a number in `width` bytes. -/
def storeLe (n : Nat) : Nat → Bytes
  | 0 => []
  | width + 1 => UInt8.ofNat n :: storeLe (n / 256) width

/-- The little-endian number in some bytes. -/
def valueLe (bytes : Bytes) : Nat :=
  Nat.ofDigits 256 (bytes.map UInt8.toNat)

@[simp]
theorem length_storeLe (n width : Nat) : (storeLe n width).length = width := by
  induction width generalizing n with
  | zero => rfl
  | succ width ih => rw [storeLe, List.length_cons, ih]

theorem valueLe_storeLe {n width : Nat} (h : n < 256 ^ width) :
    valueLe (storeLe n width) = n := by
  induction width generalizing n with
  | zero =>
      rw [Nat.pow_zero] at h
      rw [storeLe, valueLe, List.map_nil, Nat.ofDigits_nil]
      omega
  | succ width ih =>
      rw [Nat.pow_succ] at h
      have hrest := ih (n := n / 256) (by omega)
      rw [valueLe] at hrest
      rw [storeLe, valueLe, List.map_cons, Nat.ofDigits_cons, hrest,
        UInt8.toNat_ofNat']
      omega

/-- The bytes from `address` on, at most `length` of them, that
`bela::cstring_view` keeps: those before the first NUL. -/
def cstringView (mem : Memory) (address length : Nat) : Bytes :=
  ((List.range length).map fun i => mem (address + i)).takeWhile (· != 0)

/-- The bytes `bela::cstring_view` looks at: it stops at the first NUL. -/
def cstringSpan (mem : Memory) (address length : Nat) : Span :=
  ⟨address, min length ((cstringView mem address length).length + 1)⟩

theorem cstringSpan_within (mem : Memory) (address length : Nat) :
    (cstringSpan mem address length).Within address (address + length) := by
  refine ⟨le_rfl, ?_⟩
  simp only [cstringSpan]
  omega

namespace Endian

/-- `bela::endian::LittenEndian`; the null pointer is address zero. -/
structure Reader where
  data : Nat
  size : Nat
  deriving DecidableEq, Repr

namespace Reader

/-- `Read<T>` for an unsigned type of `width` bytes. -/
def read (mem : Memory) (width : Nat) (r : Reader) : Nat × Reader :=
  (loadLe mem r.data width, ⟨r.data + width, r.size - width⟩)

def discard (n : Nat) (r : Reader) : Reader :=
  if r.size ≤ n then ⟨0, 0⟩ else ⟨r.data + n, r.size - n⟩

theorem discard_of_lt {n : Nat} {r : Reader} (h : n < r.size) :
    r.discard n = ⟨r.data + n, r.size - n⟩ := by
  rw [discard, if_neg (by omega)]

theorem discard_of_le {n : Nat} {r : Reader} (h : r.size ≤ n) :
    r.discard n = ⟨0, 0⟩ := by
  rw [discard, if_pos h]

def pick (mem : Memory) (r : Reader) : UInt8 × Reader :=
  (mem r.data, ⟨r.data + 1, r.size - 1⟩)

/-- The number of bytes left after `Sub(n)`: the code adds `n` to it. -/
def subSize (size n : Nat) : Nat :=
  size + n

/-- `Sub`: the reader of the next `n` bytes, and the rest. -/
def sub (rest : Nat → Nat → Nat) (n : Nat) (r : Reader) : Reader × Reader :=
  (⟨r.data, n⟩, ⟨r.data + n, rest r.size n⟩)

end Reader

end Endian

end Baulk
