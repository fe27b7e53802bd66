import SecureMcp.Audit.Event
import SecureMcp.Identity
import SecureMcp.Lib.Url
import SecureMcp.Lib.Utf8Inverse

set_option autoImplicit false

/-! # Who an actor is (`auditContext` of `src/audit.ts`)

The actor of an event is the hash of the issuer, a NUL and the subject, each in UTF-8. No issuer has
a NUL in it, so that the octets say where the issuer ends. They do not say everything about a string
with lone surrogates: all of these are U+FFFD in UTF-8, and a token may carry them. -/

namespace SecureMcp

/-- What is hashed. -/
def actorInput (principal : Principal) : Bytes :=
  principal.issuer.utf8 ++ [0] ++ principal.subject.utf8

theorem auditContext_actor (sha256 : Bytes → Bytes) (principal : Principal) (tool requestId : JsString) :
    (auditContext sha256 principal tool requestId).actor = hex (sha256 (actorInput principal)) := rfl

/-- A principal that `createTokenVerifier` returns under an issuer without NUL, or the local one. -/
inductive IsCaller (principal : Principal) : Prop
  | token {env : IdentityEnv} {config : HttpConfig} {now : Int} {token : JsString}
      {verify : Int → JsString → Except TokenFailure Principal} (issuer : 0 ∉ config.issuer)
      (verifier : createTokenVerifier env config = some verify)
      (verified : verify now token = .ok principal)
  | process {config : ParsedConfig} (eq : principal = config.localPrincipal)

/-- The hash does not collide on these octets. -/
def NoCollision (sha256 : Bytes → Bytes) (a b : Bytes) : Prop := sha256 a = sha256 b → a = b

def SameIdentity (p q : Principal) : Prop := p.issuer = q.issuer ∧ p.subject = q.subject

/-- They differ, but only in which lone surrogate, or U+FFFD, stands at some place. -/
def DifferInLoneSurrogates (p q : Principal) : Prop :=
  ¬ SameIdentity p q ∧ p.issuer.toWellFormed = q.issuer.toWellFormed ∧
    p.subject.toWellFormed = q.subject.toWellFormed

/-! ## The octets -/

theorem nul_not_mem_utf8 {text : JsString} (h : 0 ∉ text) : (0 : UInt8) ∉ text.utf8 :=
  fun hmem => h (JsString.mem_of_mem_utf8 (u := 0) (by decide) hmem)

theorem IsCaller.nul_not_mem {principal : Principal} (h : IsCaller principal) :
    (0 : UInt16) ∉ principal.issuer := by
  cases h with
  | token issuer verifier verified =>
      rw [(of_createTokenVerifier verifier verified).1]
      exact issuer
  | process eq =>
      rw [eq]
      show (0 : UInt16) ∉ js "process"
      decide

/-- The octets say which issuer and which subject it is, up to lone surrogates. -/
theorem actorInput_eq_iff {p q : Principal} (hp : (0 : UInt16) ∉ p.issuer) (hq : (0 : UInt16) ∉ q.issuer) :
    actorInput p = actorInput q ↔ p.issuer.toWellFormed = q.issuer.toWellFormed ∧
      p.subject.toWellFormed = q.subject.toWellFormed := by
  rw [← JsString.utf8_eq_iff, ← JsString.utf8_eq_iff]
  constructor
  · exact fun h => JsString.append_separator_inj (nul_not_mem_utf8 hp) (nul_not_mem_utf8 hq) h
  · rintro ⟨hissuer, hsubject⟩
    rw [actorInput, actorInput, hissuer, hsubject]

/-! ## The actor -/

section

variable {sha256 : Bytes → Bytes} {p q : Principal} {tool tool' requestId requestId' : JsString}

theorem actor_eq_iff (hp : IsCaller p) (hq : IsCaller q)
    (hash : NoCollision sha256 (actorInput p) (actorInput q)) :
    (auditContext sha256 p tool requestId).actor = (auditContext sha256 q tool' requestId').actor ↔
      p.issuer.toWellFormed = q.issuer.toWellFormed ∧
        p.subject.toWellFormed = q.subject.toWellFormed := by
  rw [← actorInput_eq_iff hp.nul_not_mem hq.nul_not_mem, auditContext_actor, auditContext_actor]
  constructor
  · exact fun h => hash (hex_injective h)
  · intro h
    rw [h]

/-- The actor tells two callers apart exactly when they differ in more than lone surrogates. -/
theorem actor_identifies_iff (hp : IsCaller p) (hq : IsCaller q)
    (hash : NoCollision sha256 (actorInput p) (actorInput q)) :
    ((auditContext sha256 p tool requestId).actor = (auditContext sha256 q tool' requestId').actor →
      SameIdentity p q) ↔ ¬ DifferInLoneSurrogates p q := by
  rw [actor_eq_iff hp hq hash, DifferInLoneSurrogates, not_and', not_not]

end

/-- A subject shares its octets with another one of the same length exactly when it has a lone
    surrogate or U+FFFD in it. -/
theorem shared_subject_iff (principal : Principal) :
    (∃ subject, subject ≠ principal.subject ∧ subject.length = principal.subject.length ∧
      actorInput { principal with subject } = actorInput principal) ↔
      principal.subject.wellFormed = false ∨ 0xFFFD ∈ principal.subject := by
  have hoctets : ∀ subject : JsString,
      actorInput { principal with subject } = actorInput principal ↔
        subject.toWellFormed = principal.subject.toWellFormed := by
    intro subject
    rw [← JsString.utf8_eq_iff]
    exact List.append_right_inj _
  rw [← JsString.confused_iff]
  constructor
  · rintro ⟨subject, hne, _, heq⟩
    exact ⟨subject, hne, (hoctets subject).mp heq⟩
  · rintro ⟨subject, hne, heq⟩
    refine ⟨subject, hne, ?_, (hoctets subject).mpr heq⟩
    rw [← JsString.length_toWellFormed subject, heq, JsString.length_toWellFormed]

/-! ## Two subjects with one actor -/

/-- An issuer that signs for two subjects, one lone surrogate each. -/
def labIdentity : IdentityEnv where
  parseUrl text := if text = js "https://issuer.test/jwks" then
    some { protocol := js "https:", username := [], password := [], hostname := js "issuer.test"
           pathname := js "/jwks", search := [], hash := [], origin := js "https://issuer.test" }
    else none
  jwtVerify token _ options :=
    [(js "first", [0xD800]), (js "second", [0xD801])].lookup token |>.map (fun subject =>
      { payload := .object [(js "iss", .string options.issuer), (js "aud", .string options.audience),
          (js "sub", .string subject), (js "scope", .string (js "policy:read")),
          (js "iat", .number ⟨js "1700000000", by decide⟩),
          (js "exp", .number ⟨js "1700000300", by decide⟩)]
        protectedHeader := .object [(js "alg", .string (js "RS256")), (js "typ", .string (js "at+jwt"))] })
  toLowerCase text := text.map Url.lower

def labHttp : HttpConfig where
  host := .loopback4
  port := 3000
  resource := js "https://mcp.test/mcp"
  issuer := js "https://issuer.test"
  jwksUrl := js "https://issuer.test/jwks"
  allowedOrigins := []
  algorithms := [.RS256]
  maxTokenAgeSeconds := 900

def labPrincipal (subject : JsString) : Principal where
  subject
  issuer := js "https://issuer.test"
  scopes := [js "policy:read"]
  expiresAt := some 1700000300000

theorem isCaller_lab (token : JsString) {subject : JsString}
    (h : (token, subject) ∈ [(js "first", [0xD800]), (js "second", [0xD801])]) :
    IsCaller (labPrincipal subject) := by
  refine @IsCaller.token _ labIdentity labHttp 1700000000000 token _ (by decide) rfl ?_
  simp only [List.mem_cons, List.not_mem_nil, or_false, Prod.mk.injEq] at h
  rcases h with ⟨rfl, rfl⟩ | ⟨rfl, rfl⟩ <;> decide +kernel

/-- Whatever the hash is, two callers have the same actor. -/
theorem same_actor_of_lone_surrogates :
    IsCaller (labPrincipal [0xD800]) ∧ IsCaller (labPrincipal [0xD801]) ∧
      ¬ SameIdentity (labPrincipal [0xD800]) (labPrincipal [0xD801]) ∧
      ∀ (sha256 : Bytes → Bytes) (tool requestId : JsString),
        (auditContext sha256 (labPrincipal [0xD800]) tool requestId).actor =
          (auditContext sha256 (labPrincipal [0xD801]) tool requestId).actor := by
  refine ⟨isCaller_lab (js "first") (by simp), isCaller_lab (js "second") (by simp),
    fun hsame => absurd hsame.2 (by decide), ?_⟩
  intro sha256 tool requestId
  have hoctets : actorInput (labPrincipal [0xD800]) = actorInput (labPrincipal [0xD801]) := by decide
  rw [auditContext_actor, auditContext_actor, hoctets]

/-- The configuration of a local process. -/
def labProcess : ParsedConfig where
  transport := .stdio
  workspace := js "/srv"
  allowedTools := [js "policy_status"]
  readOnly := true
  audit := { socketPath := none, maxPending := 64, timeoutMs := 1000 }
  localScopes := [js "policy:read"]
  limits :=
    { maxConcurrent := 16, timeoutMs := 10000, maxInputBytes := 65536, maxInputElements := 1024
      maxOutputBytes := 262144, shutdownMs := 5000 }
  http := none
  api := none

/-- SHA-256 of the octets for the local process and for the two callers above. -/
def labSha256 (bytes : Bytes) : Bytes :=
  if bytes = (js "process").utf8 ++ [0] ++ (js "local").utf8 then
    [0x81, 0x86, 0x1D, 0x6F, 0xDA, 0x70, 0x9D, 0xAF, 0x1A, 0xA3, 0x44, 0x24, 0x31, 0x19, 0xDC, 0xF6,
      0x80, 0x63, 0xAB, 0x0E, 0x87, 0x43, 0x23, 0xAE, 0x92, 0x06, 0x62, 0x3B, 0xE2, 0xDA, 0xDE, 0x85]
  else if bytes = (js "https://issuer.test").utf8 ++ [0, 0xEF, 0xBF, 0xBD] then
    [0xF6, 0x74, 0xD5, 0xD7, 0xAE, 0xF8, 0xA6, 0x46, 0xD9, 0x10, 0x79, 0x10, 0x9A, 0x8D, 0x45, 0x54,
      0x28, 0x93, 0x2D, 0x6C, 0x2D, 0x96, 0x9F, 0xA3, 0x89, 0x8B, 0x46, 0x50, 0xE7, 0x7A, 0xEF, 0x8D]
  else []

/-- The actor tells a caller from the local process, though the caller has a lone surrogate. -/
theorem actor_identifies_process :
    ((auditContext labSha256 labProcess.localPrincipal (js "policy_status") (js "1")).actor =
        (auditContext labSha256 (labPrincipal [0xD800]) (js "policy_status") (js "2")).actor →
      SameIdentity labProcess.localPrincipal (labPrincipal [0xD800])) ↔
      ¬ DifferInLoneSurrogates labProcess.localPrincipal (labPrincipal [0xD800]) :=
  actor_identifies_iff (.process rfl) (isCaller_lab (js "first") (by simp))
    (by unfold NoCollision; decide)

end SecureMcp
