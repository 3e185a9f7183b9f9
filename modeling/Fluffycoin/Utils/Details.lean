import Mathlib.Data.String.Basic

/-!
# `Details`: error tracking through the API layers

Model of `ErrorCode`, `ErrorStatus` and the error half of `Details` (`src/utils/ErrorCode.h`,
`src/utils/ErrorStatus.cpp`, `src/utils/Details.{h,cpp}`). A `Details` carries at most one error:
a code, a field and a text; it is ok exactly when the text is empty (`Details.cpp:16-19`).
`setError` overwrites the error, `extendError` puts more context in front of the text.

The log lines written along the way, the log level and category, and the `AnyMap` the class also
is are left out: nothing modelled so far reads them.
-/

namespace Fluffycoin

/-- `ErrorCode` (`ErrorCode.h`). -/
inductive ErrorCode where
  | none | unknown | internalError
  | argumentMissing | argumentParseError | argumentInvalid | unknownCommand | invalidMessageFormat
  | notLoggedIn | notAuthorized | noPermission | blocked
  | notConnected | resolveError | connectError | connectionError | handshakeError | readError
  | writeError | protocolError
  | databaseError | fileError | deviceError | socketError | notFound | hardwareError | memoryError
  | ipcTimeout | serviceTimeout | socketTimeout
  deriving DecidableEq, Repr

/-- `ErrorStatus`: code, field and text of the last error. -/
structure ErrorStatus where
  errorCode : ErrorCode := .none
  errorField : String := ""
  errorStr : String := ""
  deriving DecidableEq, Repr

/-- `ErrorStatus::set` (`ErrorStatus.cpp:56-67`). -/
def ErrorStatus.set (_e : ErrorStatus) (code : ErrorCode) (field msg : String) : ErrorStatus :=
  { errorCode := code, errorField := field, errorStr := msg }

/-- `ErrorStatus::extend` (`ErrorStatus.cpp:70-97`): a final `.` of the new text becomes `": "`. -/
def ErrorStatus.extend (e : ErrorStatus) (field msg : String) : ErrorStatus :=
  { e with
    errorField := field
    errorStr :=
      if msg = "" then e.errorStr
      else if e.errorStr = "" then msg
      else if msg.back = '.' then (msg.dropEnd 1).toString ++ ": " ++ e.errorStr
      else msg ++ ": " ++ e.errorStr }

/-- `Details`, reduced to its error status. -/
structure Details where
  errorStatus : ErrorStatus := {}
  deriving DecidableEq, Repr

namespace Details

/-- `Details::isOk`. -/
def isOk (d : Details) : Bool := d.errorStatus.errorStr = ""

/-- `Details::setError`, the text already formatted. -/
def setError (d : Details) (code : ErrorCode) (field msg : String) : Details :=
  ⟨d.errorStatus.set code field msg⟩

/-- `Details::extendError`, the text already formatted. -/
def extendError (d : Details) (field msg : String) : Details :=
  ⟨d.errorStatus.extend field msg⟩

theorem isOk_default : isOk {} = true := rfl

theorem isOk_setError (d : Details) (code : ErrorCode) (field msg : String) :
    (d.setError code field msg).isOk = decide (msg = "") := rfl

end Details

end Fluffycoin
