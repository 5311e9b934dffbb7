import Mathlib.Algebra.Order.Ring.Int

/-!
# Points in time

`bela::Time` as nanoseconds since the Unix epoch, which is also its default
value.  It is stored as seconds and quarters of nanoseconds, the latter in 32
bits.
-/

namespace Baulk

/-- `bela::Time`. -/
abbrev Time := Int

namespace Time

/-- `bela::FromUnix`.  Of the nanoseconds 30 bits are kept. -/
def fromUnix (s ns : Int) : Time :=
  s * 1000000000 + ns % 2 ^ 30

/-- `bela::FromUnixSeconds`. -/
def fromUnixSeconds (s : Int) : Time :=
  fromUnix s 0

/-- `bela::FromWindowsPreciseTime`.  The subtraction is one of unsigned 64-bit
numbers. -/
def fromWindowsPreciseTime (tick : UInt64) : Time :=
  (((tick - 116444736000000000) / 10).toNat : Int) * 1000

/-- `bela::ToUnixSeconds`. -/
def toUnixSeconds (t : Time) : Int :=
  t / 1000000000

/-! ## MS-DOS time stamps -/

def isLeapYear (y : Int) : Bool :=
  y % 4 == 0 && (y % 100 != 0 || y % 400 == 0)

def months : List Int := [31, 28, 31, 30, 31, 30, 31, 31, 30, 31, 30, 31]
def leapMonths : List Int := [31, 29, 31, 30, 31, 30, 31, 31, 30, 31, 30, 31]

/-- `WindowsEpochDays` and `UnixEpochStart`: the days before 1601, and the
seconds from then to 1970. -/
def windowsEpochDays : Int :=
  1600 * 365 + 1600 / 4 - 1600 / 100 + 1600 / 400

def unixEpochStart : Int := 11644473600

def sinceWindowsEpochDays (y : Int) : Int :=
  (y - 1) * 365 + (y - 1) / 4 - (y - 1) / 100 + (y - 1) / 400 -
    windowsEpochDays

/-- `bela::FromDosDateTime`.  A stamp that names no time is the Unix epoch. -/
def fromDosDateTime (dosDate dosTime : Nat) : Time :=
  let year : Int := dosDate / 512 + 1980
  let mon := dosDate / 32 % 16
  let day : Int := (dosDate % 32 : Nat)
  let hour : Int := (dosTime / 2048 : Nat)
  let minute : Int := (dosTime / 32 % 64 : Nat)
  let sec : Int := (dosTime % 32 * 2 : Nat)
  let mondays := if isLeapYear year then leapMonths else months
  if sec > 59 ∨ minute > 59 ∨ hour > 23 ∨ mon < 1 ∨ mon > 12 then 0
  else if day < 1 ∨ day > mondays.getD (mon - 1) 0 then 0
  else
    let leapDay := if mon > 2 ∧ isLeapYear year then 1 else 0
    let days := sinceWindowsEpochDays year + (months.take (mon - 1)).sum +
      leapDay + (day - 1)
    fromUnixSeconds (days * 86400 + hour * 3600 + minute * 60 + sec -
      unixEpochStart)

end Time

end Baulk
