import SecureMcp.Errors
import SecureMcp.Policy

set_option autoImplicit false

/-! # Audit records (`src/audit.ts`)

The fields of `AuditEvent`, and the two functions that fill them from a call: `auditContext` and the
event `record` builds. -/

namespace SecureMcp

/-- The texts the program writes into `outcome`. -/
inductive Outcome
  | allowed
  | success
  | tool_error
  /-- The code of a failure. -/
  | failure (code : FailureCode)
  | tool_rejected
  | parse_error
  | invalid_request
  | unknown_method
  | invalid_params
  | protocol_error
  | received
  | response
  | completed
  | request_timeout
  | disconnected
deriving DecidableEq, Repr

def FailureCode.text : FailureCode → String
  | .denied => "denied"
  | .invalid_input => "invalid_input"
  | .busy => "busy"
  | .timeout => "timeout"
  | .cancelled => "cancelled"
  | .shutting_down => "shutting_down"
  | .output_too_large => "output_too_large"
  | .not_found => "not_found"
  | .upstream_failed => "upstream_failed"
  | .audit_unavailable => "audit_unavailable"
  | .internal => "internal"

def Outcome.text : Outcome → String
  | .allowed => "allowed"
  | .success => "success"
  | .tool_error => "tool_error"
  | .failure code => code.text
  | .tool_rejected => "tool_rejected"
  | .parse_error => "parse_error"
  | .invalid_request => "invalid_request"
  | .unknown_method => "unknown_method"
  | .invalid_params => "invalid_params"
  | .protocol_error => "protocol_error"
  | .received => "received"
  | .response => "response"
  | .completed => "completed"
  | .request_timeout => "request_timeout"
  | .disconnected => "disconnected"

inductive EventKind
  | tool
  | http
  | protocol
deriving DecidableEq, Repr

inductive Endpoint
  | mcp
  | metrics
deriving DecidableEq, Repr

inductive Method
  | GET
  | POST
  | DELETE
  | OPTIONS
  | other
deriving DecidableEq, Repr

structure AuditEvent where
  schema : Nat := 1
  /-- `new Date(time).toISOString()` is the text of this field. -/
  time : Int
  requestId : JsString
  actor : JsString
  tool : JsString
  outcome : Outcome
  durationMs : Int
  kind : Option EventKind := none
  endpoint : Option Endpoint := none
  method : Option Method := none
  status : Option Nat := none
deriving DecidableEq

/-- What `auditContext` returns. -/
structure AuditContext where
  requestId : JsString
  tool : JsString
  actor : JsString
deriving DecidableEq

/-- `digest('hex')`. -/
def hex (bytes : Bytes) : JsString :=
  bytes.flatMap (fun byte =>
    [hexDigit (byte.toNat / 16), hexDigit (byte.toNat % 16)])
where
  hexDigit (n : Nat) : UInt16 :=
    if n < 10 then UInt16.ofNat (0x30 + n) else UInt16.ofNat (0x61 + (n - 10))

theorem hexDigit_inj {m n : Nat} (hm : m < 16) (hn : n < 16) (h : hex.hexDigit m = hex.hexDigit n) :
    m = n := by
  have hall : ∀ m < 16, ∀ n < 16, hex.hexDigit m = hex.hexDigit n → m = n := by decide
  exact hall m hm n hn h

theorem hex_injective {a b : Bytes} (h : hex a = hex b) : a = b := by
  induction a generalizing b with
  | nil =>
      cases b with
      | nil => rfl
      | cons byte rest => exact absurd h (by simp [hex])
  | cons first rest ih =>
      cases b with
      | nil => exact absurd h (by simp [hex])
      | cons first' rest' =>
          have hfirst := first.toNat_lt
          have hfirst' := first'.toNat_lt
          obtain ⟨hdigits, hrest⟩ := List.append_inj h rfl
          obtain ⟨hhigh, hlow⟩ := List.cons.inj hdigits
          have h1 := hexDigit_inj (by omega) (by omega) hhigh
          have h2 := hexDigit_inj (by omega) (by omega) (List.cons.inj hlow).1
          have hbyte : first = first' := UInt8.toNat_inj.mp (by omega)
          rw [hbyte, ih hrest]

/-- `sha256` stands for the hash of `node:crypto`. -/
def auditContext (sha256 : Bytes → Bytes) (principal : Principal) (tool requestId : JsString) :
    AuditContext :=
  { requestId, tool
    actor := hex (sha256 (principal.issuer.utf8 ++ [0] ++ principal.subject.utf8)) }

/-- The two clocks: `Date.now()` in milliseconds, `performance.now()` in microseconds. -/
structure Clock where
  date : Int := 0
  performance : Int := 0
deriving DecidableEq, Repr

namespace Clock

/-- `Math.round(performance.now() - start)`, in milliseconds. -/
def since (clock : Clock) (start : Int) : Int := (clock.performance - start + 500) / 1000

end Clock

/-- The event that `record` hands to its sink. -/
def recordEvent (context : AuditContext) (kind : EventKind) (outcome : Outcome) (start : Int)
    (clock : Clock) : AuditEvent :=
  { time := clock.date
    requestId := context.requestId
    actor := context.actor
    tool := context.tool
    outcome
    durationMs := max 0 (clock.since start)
    kind := some kind }

end SecureMcp
