import Baulk.Core.ErrorCode

/-!
# Files

The content of a file that an archive is read from.
-/

namespace Baulk

/-- The content of a file.  File offsets are signed 64-bit numbers. -/
structure FileBytes where
  bytes : Bytes
  length_lt : bytes.length < 2 ^ 63

theorem FileBytes.length_nil_lt : ([] : Bytes).length < 2 ^ 63 :=
  Nat.two_pow_pos 63

end Baulk
