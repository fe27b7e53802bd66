import SecureMcp.Config
import SecureMcp.Lib.JsonParser

set_option autoImplicit false

/-! # Callers (`src/identity.ts`)

`createTokenVerifier` turns an access token into a principal. The signature, the times and the
claims that are checked with it are the business of `jwtVerify`; it may return any JSON object as
the payload, its strings with or without lone surrogates. Numbers are exact, where the source rounds
each of them to a double. -/

namespace SecureMcp

/-- What `createRemoteJWKSet` returns, with the options it is called with. -/
structure RemoteKeys where
  url : UrlParts
  timeoutDuration : Nat := 3000
  cooldownDuration : Nat := 30000
  cacheMaxAge : Nat := 300000
deriving DecidableEq

/-- The options of `jwtVerify`. -/
structure VerifyOptions where
  issuer : JsString
  audience : JsString
  algorithms : List Algorithm
  requiredClaims : List JsString
  maxTokenAge : Nat
  clockTolerance : Nat
deriving DecidableEq

/-- What `jwtVerify` resolves to. -/
structure VerifiedToken where
  payload : Json
  protectedHeader : Json

/-- Code that is not part of the source. -/
structure IdentityEnv where
  /-- `new URL(text)`; `none` when it throws. -/
  parseUrl : JsString → Option UrlParts
  /-- `jwtVerify(token, keys, options)`; `none` when it rejects. -/
  jwtVerify : JsString → RemoteKeys → VerifyOptions → Option VerifiedToken
  /-- `text.toLowerCase()`. -/
  toLowerCase : JsString → JsString

inductive TokenFailure
  /-- The error of `jwtVerify`. -/
  | unverified
  | invalidAccessToken
  | invalidScopes
deriving DecidableEq, Repr

def TokenFailure.message : TokenFailure → Option JsString
  | .unverified => none
  | .invalidAccessToken => some (js "Invalid access token")
  | .invalidScopes => some (js "Invalid scopes")

section

variable (env : IdentityEnv) (config : HttpConfig)

/-- `at+jwt` or `application/at+jwt`, in either case. -/
def isAccessToken (protectedHeader : Json) : Bool :=
  match Json.text? (protectedHeader.property (js "typ")) with
  | some typ => [js "at+jwt", js "application/at+jwt"].contains (env.toLowerCase typ)
  | none => false

/-- The checks on a token that `jwtVerify` has accepted, at `Date.now()`. -/
def readToken (now : Int) (token : VerifiedToken) : Except TokenFailure Principal :=
  let claim name := token.payload.property name
  match Json.text? (claim (js "sub")), Json.text? (claim (js "scope")), Json.number? (claim (js "exp")),
    Json.number? (claim (js "iat")) with
  | some sub, some scope, some exp, some iat =>
    if !isAccessToken env token.protectedHeader || sub.isEmpty || 256 < sub.length ||
        4096 < scope.length || (config.maxTokenAgeSeconds : Rat) < exp - iat ||
        (now : Rat) / 1000 < iat then
      .error .invalidAccessToken
    else
      let scopes := (scope.split 0x20).filter (fun scope => !scope.isEmpty)
      if 128 < scopes.length || scopes.any (fun scope => !Config.isScope scope) then
        .error .invalidScopes
      else
        .ok { subject := sub, issuer := config.issuer, scopes, expiresAt := some (exp * 1000).ceil }
  | _, _, _, _ => .error .invalidAccessToken

def verifyOptions : VerifyOptions where
  issuer := config.issuer
  audience := config.resource
  algorithms := config.algorithms
  requiredClaims := [js "sub", js "exp", js "iat"]
  maxTokenAge := config.maxTokenAgeSeconds
  clockTolerance := 0

/-- The function that `createTokenVerifier` returns; `none` when `new URL` throws. -/
def createTokenVerifier : Option (Int → JsString → Except TokenFailure Principal) :=
  (env.parseUrl config.jwksUrl).map (fun url now token =>
    match env.jwtVerify token { url } (verifyOptions config) with
    | some verified => readToken env config now verified
    | none => .error .unverified)

end

/-- `localPrincipal()`. -/
def ParsedConfig.localPrincipal (config : ParsedConfig) : Principal where
  subject := js "local"
  issuer := js "process"
  scopes := config.localScopes

/-! ## What a verified principal is -/

variable {env : IdentityEnv} {config : HttpConfig} {now : Int} {principal : Principal}

/-- What a token has to say for `readToken` to accept it. -/
theorem readToken_eq_ok {token : VerifiedToken} (h : readToken env config now token = .ok principal) :
    principal.issuer = config.issuer ∧
      Json.text? (token.payload.property (js "sub")) = some principal.subject ∧
      principal.subject ≠ [] ∧ principal.subject.length ≤ 256 := by
  unfold readToken at h
  dsimp only at h
  split at h
  · next sub scope exp iat hsub _ _ _ =>
      split at h
      · exact absurd h (by simp)
      · next hvalid =>
          split at h
          · exact absurd h (by simp)
          · obtain rfl := Except.ok.inj h
            simp only [Bool.or_eq_true, not_or, List.isEmpty_iff, decide_eq_true_eq] at hvalid
            obtain ⟨⟨⟨⟨⟨_, hempty⟩, hlength⟩, _⟩, _⟩, _⟩ := hvalid
            exact ⟨rfl, hsub, hempty, Nat.le_of_not_lt hlength⟩
  · exact absurd h (by simp)

/-- A principal has the configured issuer and a subject of 1 to 256 code units. -/
theorem of_createTokenVerifier {verify : Int → JsString → Except TokenFailure Principal}
    {token : JsString} (hverify : createTokenVerifier env config = some verify)
    (h : verify now token = .ok principal) :
    principal.issuer = config.issuer ∧ principal.subject ≠ [] ∧ principal.subject.length ≤ 256 := by
  obtain ⟨url, _, rfl⟩ := Option.map_eq_some_iff.mp hverify
  dsimp only at h
  split at h
  · obtain ⟨hissuer, _, hsubject⟩ := readToken_eq_ok h
    exact ⟨hissuer, hsubject⟩
  · exact absurd h (by simp)

end SecureMcp
