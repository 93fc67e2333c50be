import Mathlib.Data.List.Basic

/-!
# Status codes and exceptions

Every fallible operation of the device model reports a `catena::exception_with_status`.
Operations that can let a C++ exception escape return it as a `Thrown` value.
-/

namespace Catena.Store

/-- The part of `catena::StatusCode` that the device model and its services report. -/
inductive StatusCode where
  | ok
  | cancelled
  | unknown
  | invalidArgument
  | deadlineExceeded
  | notFound
  | alreadyExists
  | permissionDenied
  | unauthenticated
  | resourceExhausted
  | outOfRange
  | unimplemented
  | internal
  | dataLoss
  | noContent
  deriving DecidableEq, Repr

/-- `catena::exception_with_status`: a text and a status code. -/
structure ExceptionWithStatus where
  what : String
  status : StatusCode
  deriving DecidableEq, Repr

namespace ExceptionWithStatus

def isOk (rc : ExceptionWithStatus) : Bool := rc.status = .ok

def ok : ExceptionWithStatus := ⟨"", .ok⟩

@[simp] theorem isOk_ok : ok.isOk = true := rfl

@[simp] theorem isOk_mk (what : String) (status : StatusCode) :
    (ExceptionWithStatus.mk what status).isOk = decide (status = .ok) := rfl

end ExceptionWithStatus

/-- A C++ exception in flight: the library's own, or the `std::out_of_range` that
`std::stoul` raises on a digit string above `ULONG_MAX`. -/
inductive Thrown where
  | withStatus (why : ExceptionWithStatus)
  | outOfRange
  deriving DecidableEq, Repr

end Catena.Store
