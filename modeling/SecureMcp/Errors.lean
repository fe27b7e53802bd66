import Mathlib.Tactic.Common

set_option autoImplicit false

/-! # Failure codes (`src/errors.ts`) -/

namespace SecureMcp

inductive FailureCode
  | denied
  | invalid_input
  | busy
  | timeout
  | cancelled
  | shutting_down
  | output_too_large
  | not_found
  | upstream_failed
  | audit_unavailable
  | internal
deriving DecidableEq, Repr

/-- A value thrown by JavaScript code: an instance of `RuntimeFailure`, or anything else. -/
inductive Thrown
  | runtimeFailure (code : FailureCode)
  | other (message : String)
deriving DecidableEq, Repr

/-- The list of `failureCode`, in its order. -/
def codes : List FailureCode :=
  [.denied, .invalid_input, .busy, .timeout, .cancelled, .shutting_down, .output_too_large,
    .not_found, .upstream_failed, .audit_unavailable, .internal]

def failureCode : Thrown → FailureCode
  | .runtimeFailure code => if codes.contains code then code else .internal
  | .other _ => .internal

/-- The list is complete, so the test `codes.includes(error.code)` never fails. -/
theorem mem_codes (code : FailureCode) : code ∈ codes := by
  cases code <;> decide

@[simp] theorem failureCode_runtimeFailure (code : FailureCode) :
    failureCode (.runtimeFailure code) = code := by
  simp [failureCode, mem_codes]

@[simp] theorem failureCode_other (message : String) : failureCode (.other message) = .internal :=
  rfl

end SecureMcp
