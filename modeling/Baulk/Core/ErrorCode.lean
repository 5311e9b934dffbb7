import Baulk.Core.Wide

/-!
# Error codes

`bela::error_code` is the only channel by which the archive and package code
reports why an operation failed.  A caller frequently decides what to do from
the numeric code alone, so the constants below are those of the sources.
-/

namespace Baulk

/-- `bela::error_code`. -/
structure ErrorCode where
  message : WString := []
  code : Int := 0
  deriving DecidableEq, Repr

namespace ErrorCode

def errNone : Int := 0
def errEOF : Int := 38
def errGeneral : Int := 0x4001
def errEnded : Int := 654320
def errCanceled : Int := 654321
def errUnimplemented : Int := 654322
def errNotTarFile : Int := 754320
def errExtractGeneral : Int := 800000
def errAnotherWay : Int := 800001
def errNoOverlayArchive : Int := 800002

/-- `error_code::clear`. -/
def cleared : ErrorCode := {}

/-- `explicit operator bool`. -/
def isError (ec : ErrorCode) : Bool :=
  ec.code != errNone

/-- `bela::make_error_code(code, ...)` with the message already joined. -/
def make (code : Int) (message : WString) : ErrorCode :=
  { message, code }

/-- `bela::make_error_code(message)`, whose code is `ErrGeneral`. -/
def general (message : WString) : ErrorCode :=
  { message, code := errGeneral }

end ErrorCode

/-- A value of `GetLastError()` after a failed call.  System error codes are
positive and documented to lie below 16000, hence apart from every code the
program makes up itself. -/
structure SystemError where
  value : Nat
  pos : 0 < value
  lt : value < 16000
  deriving DecidableEq, Repr

/-- `ERROR_ACCESS_DENIED`. -/
def SystemError.accessDenied : SystemError :=
  ⟨5, by decide, by decide⟩

/-- `bela::make_system_error_code(prefix)`; the system's own text is not
modelled. -/
def SystemError.toErrorCode (e : SystemError) (label : WString) : ErrorCode :=
  { message := label, code := e.value }

@[simp] theorem SystemError.toErrorCode_isError (e : SystemError)
    (label : WString) : (e.toErrorCode label).isError = true := by
  have hpos := e.pos
  simp only [SystemError.toErrorCode, ErrorCode.isError, ErrorCode.errNone,
    bne_iff_ne, ne_eq]
  omega

end Baulk
