import SecureMcp.Lib.Text

set_option autoImplicit false

/-! # Tool policy (`src/policy.ts`)

Instants are whole milliseconds, as `Date.now()` returns them. The source keeps the expiry of a
principal in seconds; here it is rounded up to the next millisecond, which no comparison with a
whole millisecond can tell apart. -/

namespace SecureMcp

structure Principal where
  subject : JsString
  issuer : JsString
  scopes : List JsString
  expiresAt : Option Int := none
deriving DecidableEq

structure ToolPolicy where
  name : JsString
  requiredScopes : List JsString
  readOnly : Bool
deriving DecidableEq

structure PolicyOptions where
  allowedTools : List JsString
  readOnly : Bool
deriving DecidableEq

def mayInvoke (policy : PolicyOptions) (principal : Principal) (tool : ToolPolicy) (now : Int) :
    Bool :=
  !principal.subject.isEmpty &&
  (match principal.expiresAt with
    | none => true
    | some expiresAt => decide (now < expiresAt)) &&
  policy.allowedTools.contains tool.name &&
  (!policy.readOnly || tool.readOnly) &&
  decide (0 < tool.requiredScopes.length) &&
  tool.requiredScopes.all (fun scope => principal.scopes.contains scope)

end SecureMcp
