import SecureMcp.Lib.Schema
import SecureMcp.Runtime.Invoke

set_option autoImplicit false

/-! # The configuration (`src/config.ts`)

`configSchema` with its defaults, ranges and the rules across fields, and `parseConfig`. The schema is
what the source tells the schema library; the library itself (`configSchema.parse`), its URL check, the
URL parser and `resolve` are parameters, and `Contract` is what is relied on of the first. -/

namespace SecureMcp

/-- What the checks read of a parsed URL. -/
structure UrlParts where
  protocol : JsString
  username : JsString
  password : JsString
  hostname : JsString
  pathname : JsString
  search : JsString
  hash : JsString
  origin : JsString
deriving DecidableEq

inductive Transport
  | stdio
  | http
deriving DecidableEq, Repr

inductive Host
  | loopback4
  | loopback6
  | any4
  | any6
deriving DecidableEq, Repr

inductive Algorithm
  | RS256
  | ES256
  | EdDSA
deriving DecidableEq, Repr

structure AuditConfig where
  socketPath : Option JsString
  maxPending : Nat
  timeoutMs : Nat
deriving DecidableEq

structure LimitsConfig where
  maxConcurrent : Nat
  timeoutMs : Nat
  maxInputBytes : Nat
  maxInputElements : Nat
  maxOutputBytes : Nat
  shutdownMs : Nat
deriving DecidableEq

structure HttpConfig where
  host : Host
  port : Nat
  resource : JsString
  issuer : JsString
  jwksUrl : JsString
  allowedOrigins : List JsString
  algorithms : List Algorithm
  maxTokenAgeSeconds : Nat
deriving DecidableEq

structure ApiConfig where
  url : JsString
  maxBytes : Nat
deriving DecidableEq

/-- `z.infer<typeof configSchema>`. -/
structure ParsedConfig where
  transport : Transport
  workspace : JsString
  allowedTools : List JsString
  readOnly : Bool
  audit : AuditConfig
  localScopes : List JsString
  limits : LimitsConfig
  http : Option HttpConfig
  api : Option ApiConfig
deriving DecidableEq

/-- `issue.code`, as far as it is looked at. -/
inductive IssueCode
  | unrecognized_keys
  | invalid_type
  | invalid_value
  | too_small
  | too_big
  | invalid_format
  | custom
  | other
deriving DecidableEq, Repr

/-- An issue as the schema library reports it. -/
structure ZodIssue where
  code : IssueCode
  path : List PathKey
  message : JsString
deriving DecidableEq

/-- What the schema asks of a text that is to be a URL. -/
structure Urls where
  /-- `new URL(text)`; `none` when it throws. -/
  parseUrl : JsString → Option UrlParts
  /-- `z.string().url()`: the text it passes on. -/
  urlText : JsString → Option JsString

/-- Code that is not part of the source. -/
structure ConfigEnv extends Urls where
  /-- `resolve` of `node:path`. -/
  resolve : JsString → JsString
  /-- `configSchema.parse`: what it returns, or the issues of the error that it throws. -/
  parse : Raw → Except (List ZodIssue) ParsedConfig

namespace Config

open Schema Fields

/-! ## The schema -/

def isLower (unit : UInt16) : Bool := 0x61 ≤ unit && unit ≤ 0x7A

def isAlphanumeric (unit : UInt16) : Bool :=
  isLower unit || (0x41 ≤ unit && unit ≤ 0x5A) || (0x30 ≤ unit && unit ≤ 0x39)

/-- `/^[a-z][a-z0-9_]{0,63}$/`. -/
def isName : JsString → Bool
  | [] => false
  | first :: rest =>
    isLower first && rest.length ≤ 63 &&
      rest.all (fun unit => isLower unit || (0x30 ≤ unit && unit ≤ 0x39) || unit == 0x5F)

/-- Letters, digits, and the characters `-`, `:`, `.`, `_` and `/`. -/
def isScope (text : JsString) : Bool :=
  1 ≤ text.length && text.length ≤ 128 &&
    text.all (fun unit => isAlphanumeric unit || (js "-:._/").contains unit)

def name : Schema JsString := string.check isName none

def scope : Schema JsString := string.check isScope none

section Schemas

variable (urls : Urls)

/-- `z.string().url()`. -/
def anyUrl : Schema JsString :=
  (string.check (fun text => (urls.urlText text).isSome) none).becomes
    (fun text => (urls.urlText text).getD text)

/-- HTTPS, or HTTP on loopback, and nothing but a path. -/
def isServiceUrl (text : JsString) : Bool :=
  match urls.parseUrl text with
  | none => false
  | some url =>
    url.username.isEmpty && url.password.isEmpty && url.hash.isEmpty && url.search.isEmpty &&
      (url.protocol == js "https:" ||
        (url.protocol == js "http:" &&
          [js "127.0.0.1", js "[::1]", js "localhost"].contains url.hostname))

def url : Schema JsString :=
  (anyUrl urls).check (isServiceUrl urls) (some (js
    "Use HTTPS, or HTTP on loopback for a local lab; no credentials, query, or fragment"))

def isOrigin (text : JsString) : Bool :=
  match urls.parseUrl text with
  | none => false
  | some url => url.origin == text

def audit : Schema AuditConfig := strictObject <| AuditConfig.mk
  <$> field (js "socketPath")
    ((string.check (fun text => (js "/").isPrefixOf text) none).check
      (fun text => text.length ≤ 100) none).optional
  <*> field (js "maxPending") ((int 1 1024).withDefault 64)
  <*> field (js "timeoutMs") ((int 10 5000).withDefault 1000)

def limits : Schema LimitsConfig := strictObject <| LimitsConfig.mk
  <$> field (js "maxConcurrent") ((int 1 256).withDefault 16)
  <*> field (js "timeoutMs") ((int 10 300000).withDefault 10000)
  <*> field (js "maxInputBytes") ((int 1024 4194304).withDefault 65536)
  <*> field (js "maxInputElements") ((int 1 10000).withDefault 1024)
  <*> field (js "maxOutputBytes") ((int 1024 4194304).withDefault 262144)
  <*> field (js "shutdownMs") ((int 10 30000).withDefault 5000)

def http : Schema HttpConfig := strictObject <| HttpConfig.mk
  <$> field (js "host") ((oneOf
    [(js "127.0.0.1", Host.loopback4), (js "::1", .loopback6), (js "0.0.0.0", .any4),
      (js "::", .any6)]).withDefault .loopback4)
  <*> field (js "port") ((int 0 65535).withDefault 3000)
  <*> field (js "resource") (url urls)
  <*> field (js "issuer") (url urls)
  <*> field (js "jwksUrl") (url urls)
  <*> field (js "allowedOrigins")
    (((array ((anyUrl urls).check (isOrigin urls) none)).check
      (fun origins => origins.length ≤ 32) none).withDefault [])
  <*> field (js "algorithms")
    ((((array (oneOf [(js "RS256", Algorithm.RS256), (js "ES256", .ES256), (js "EdDSA", .EdDSA)])).check
      (fun algorithms => 1 ≤ algorithms.length) none).check
      (fun algorithms => algorithms.length ≤ 3) none).withDefault [.RS256])
  <*> field (js "maxTokenAgeSeconds") ((int 1 3600).withDefault 900)

def api : Schema ApiConfig := strictObject <| ApiConfig.mk
  <$> field (js "url") (url urls)
  <*> field (js "maxBytes") ((int 1 262144).withDefault 65536)

/-- The fields of `configSchema`. -/
def shape : Schema ParsedConfig := strictObject <| ParsedConfig.mk
  <$> field (js "transport")
    ((oneOf [(js "stdio", Transport.stdio), (js "http", .http)]).withDefault .stdio)
  <*> field (js "workspace")
    ((string.check (fun text => 1 ≤ text.length) none).withDefault (js "."))
  <*> field (js "allowedTools")
    (((array name).check (fun names => names.length ≤ 128) none).withDefault
      [js "documents_read", js "policy_status"])
  <*> field (js "readOnly") (boolean.withDefault true)
  <*> field (js "audit") (audit.prefault (.object []))
  <*> field (js "localScopes")
    (((array scope).check (fun scopes => scopes.length ≤ 128) none).withDefault
      [js "documents:read", js "policy:read"])
  <*> field (js "limits") (limits.prefault (.object []))
  <*> field (js "http") (http urls).optional
  <*> field (js "api") (api urls).optional

/-! ## The rules across fields -/

/-- `value.http && URL.canParse(value.http.resource) && … .pathname !== '/mcp'`. -/
def elsewhere (value : ParsedConfig) : Bool :=
  match value.http with
  | none => false
  | some http =>
    match urls.parseUrl http.resource with
    | none => false
    | some url => url.pathname != js "/mcp"

def superRefine (value : ParsedConfig) : List Issue :=
  (if value.transport = .http ∧ value.audit.maxPending < 3 then
    [{ path := [.name (js "audit"), .name (js "maxPending")]
       message := some (js "HTTP requires at least three pending audit records") }]
  else []) ++
  (if value.transport = .http ∧ value.http = none then
    [{ path := [.name (js "http")]
       message := some (js "HTTP requires an external issuer, JWKS URL, and resource URL") }]
  else []) ++
  (if elsewhere urls value then
    [{ path := [.name (js "http"), .name (js "resource")]
       message := some (js "Resource URL must end with /mcp") }]
  else [])

def configSchema : Schema ParsedConfig := (shape urls).refine (superRefine urls)

end Schemas

section Env

variable (env : ConfigEnv)

/-- `parseConfig`: the configuration, or the issues of the error it throws. -/
def parseConfig (raw : Raw) : Except (List ZodIssue) ParsedConfig :=
  match env.parse raw with
  | .ok parsed => .ok { parsed with workspace := env.resolve parsed.workspace }
  | .error issues => .error issues

/-- The schema library passes on where an issue is, and the message of the author as that of a `custom`
    issue. What it says of the other issues is its own. -/
structure Renders (issue : Issue) (zod : ZodIssue) : Prop where
  path : zod.path = issue.path
  custom : ∀ text, issue.message = some text → zod.code = .custom ∧ zod.message = text

/-- The schema library parses by the schema that it was given. -/
def Contract : Prop := (configSchema env.toUrls).ParsedBy Renders env.parse

end Env

/-! ## What an accepted configuration satisfies -/

/-- A number within the bounds of its field. -/
abbrev Within (low high n : Nat) : Prop := low ≤ n ∧ n ≤ high

structure AuditInRange (audit : AuditConfig) : Prop where
  maxPending : Within 1 1024 audit.maxPending
  timeoutMs : Within 10 5000 audit.timeoutMs

structure LimitsInRange (limits : LimitsConfig) : Prop where
  maxConcurrent : Within 1 256 limits.maxConcurrent
  timeoutMs : Within 10 300000 limits.timeoutMs
  maxInputBytes : Within 1024 4194304 limits.maxInputBytes
  maxInputElements : Within 1 10000 limits.maxInputElements
  maxOutputBytes : Within 1024 4194304 limits.maxOutputBytes
  shutdownMs : Within 10 30000 limits.shutdownMs

/-- The rules across fields. -/
structure Consistent (urls : Urls) (config : ParsedConfig) : Prop where
  maxPending : config.transport = .http → 3 ≤ config.audit.maxPending
  http : config.transport = .http → config.http ≠ none
  resource : elsewhere urls config = false

structure Sound (urls : Urls) (config : ParsedConfig) : Prop where
  audit : AuditInRange config.audit
  limits : LimitsInRange config.limits
  consistent : Consistent urls config

theorem audit_ensures : audit.Ensures AuditInRange := by
  refine Fields.Ensures.strictObject (Ensures.seq (Ensures.seq (Ensures.map ?_)
    (.field (int_withDefault_ensures (by decide)) _)) (.field (int_withDefault_ensures (by decide)) _))
  exact fun _ _ _ maxPending hpending timeoutMs htimeout => ⟨hpending, htimeout⟩

theorem limits_ensures : limits.Ensures LimitsInRange := by
  refine Fields.Ensures.strictObject (Ensures.seq (Ensures.seq (Ensures.seq (Ensures.seq (Ensures.seq
    (Ensures.map ?_) (.field (int_withDefault_ensures (by decide)) _))
    (.field (int_withDefault_ensures (by decide)) _)) (.field (int_withDefault_ensures (by decide)) _))
    (.field (int_withDefault_ensures (by decide)) _)) (.field (int_withDefault_ensures (by decide)) _))
  intro get maxConcurrent hfirst
  have hconcurrent := Fields.Ensures.field (int_withDefault_ensures (by decide)) _ get _ hfirst
  exact fun _ h₂ _ h₃ _ h₄ _ h₅ _ h₆ => ⟨hconcurrent, h₂, h₃, h₄, h₅, h₆⟩

variable {urls : Urls} {env : ConfigEnv} {raw : Raw} {config : ParsedConfig}

/-- What holds of a configuration whatever its workspace is. -/
theorem shape_ensures : (shape urls).Ensures
    (fun config => AuditInRange config.audit ∧ LimitsInRange config.limits) := by
  refine Fields.Ensures.strictObject (Ensures.seq (Ensures.seq (Ensures.seq (Ensures.seq (Ensures.seq
    (Ensures.seq (Ensures.seq (Ensures.seq (Ensures.map ?_) (.field (ensures_true _) _))
    (.field (ensures_true _) _)) (.field (ensures_true _) _))
    (.field (audit_ensures.prefault _) _)) (.field (ensures_true _) _))
    (.field (limits_ensures.prefault _) _)) (.field (ensures_true _) _)) (.field (ensures_true _) _))
  exact fun _ _ _ _ _ _ _ _ _ _ haudit _ _ _ hlimits _ _ _ _ => ⟨haudit, hlimits⟩

theorem consistent_of_superRefine (h : superRefine urls config = []) : Consistent urls config := by
  obtain ⟨hrest, hresource⟩ := List.append_eq_nil_iff.mp h
  obtain ⟨hpending, hhttp⟩ := List.append_eq_nil_iff.mp hrest
  constructor
  case maxPending =>
    intro htransport
    by_contra hlow
    rw [if_pos ⟨htransport, Nat.lt_of_not_le hlow⟩] at hpending
    exact absurd hpending (by simp)
  case http =>
    intro htransport hnone
    rw [if_pos ⟨htransport, hnone⟩] at hhttp
    exact absurd hhttp (by simp)
  case resource =>
    cases helse : elsewhere urls config with
    | false => rfl
    | true =>
        rw [if_pos helse] at hresource
        exact absurd hresource (by simp)

theorem configSchema_ensures : (configSchema urls).Ensures (fun config =>
    (AuditInRange config.audit ∧ LimitsInRange config.limits) ∧ superRefine urls config = []) :=
  shape_ensures.refine (superRefine urls)

/-- A configuration that `parseConfig` returns is within all bounds and keeps the rules across
    fields. -/
theorem sound_of_parseConfig (hcontract : Contract env) (h : parseConfig env raw = .ok config) :
    Sound env.toUrls config := by
  unfold parseConfig at h
  split at h
  · next parsed hparsed =>
      obtain rfl := Except.ok.inj h
      obtain ⟨⟨haudit, hlimits⟩, hrefine⟩ := hcontract.ensures configSchema_ensures hparsed
      have hconsistent := consistent_of_superRefine hrefine
      exact ⟨haudit, hlimits, hconsistent.maxPending, hconsistent.http, hconsistent.resource⟩
  · cases h

/-- Every default passes its own check, so that nothing has to be configured. -/
theorem configSchema_empty (urls : Urls) : (configSchema urls).accept (.object []) = some
    { transport := .stdio
      workspace := js "."
      allowedTools := [js "documents_read", js "policy_status"]
      readOnly := true
      audit := { socketPath := none, maxPending := 64, timeoutMs := 1000 }
      localScopes := [js "documents:read", js "policy:read"]
      limits :=
        { maxConcurrent := 16, timeoutMs := 10000, maxInputBytes := 65536, maxInputElements := 1024
          maxOutputBytes := 262144, shutdownMs := 5000 }
      http := none
      api := none } := rfl

/-- A library that parses by the schema, and says of what it refuses only that. -/
def plainParse (urls : Urls) : Raw → Except (List ZodIssue) ParsedConfig :=
  (configSchema urls).parser { code := .invalid_type, path := [], message := js "Invalid input" }

theorem contract_plainParse (urls : Urls) (resolve : JsString → JsString) :
    Contract { urls with resolve, parse := plainParse urls } :=
  Schema.parser_parsedBy (Or.inl (Or.inl rfl)) ⟨rfl, fun _ htext => absurd htext (by simp)⟩

end Config

/-- The part of a configuration that a runtime reads. -/
def ParsedConfig.runtime (config : ParsedConfig) : RuntimeConfig where
  allowedTools := config.allowedTools
  readOnly := config.readOnly
  maxPending := config.audit.maxPending
  limits :=
    { maxConcurrent := config.limits.maxConcurrent
      maxInputBytes := config.limits.maxInputBytes
      maxInputElements := config.limits.maxInputElements
      maxOutputBytes := config.limits.maxOutputBytes }

end SecureMcp
