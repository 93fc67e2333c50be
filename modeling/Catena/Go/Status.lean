import Mathlib.Data.List.Basic

/-!
# Status results of the Go SDK

A fallible function returns its result beside a `StatusResult`; the result is only looked at
when the code is `StatusCodeOk`, so that the pair is kept as an `Except`.
-/

namespace Catena.Go

/-- The codes of `StatusCode` that the modelled functions return. -/
inductive StatusCode where
  | ok
  | invalidArgument
  | notFound
  | permissionDenied
  | resourceExhausted
  | internal
  | unauthenticated
  deriving DecidableEq, Repr

structure StatusResult where
  code : StatusCode
  error : String
  deriving DecidableEq, Repr

def invalidArgument (error : String) : StatusResult := ⟨.invalidArgument, error⟩

end Catena.Go
