import SecureMcp.Config
import SecureMcp.Http.Returning

set_option autoImplicit false

/-! # What a configuration leaves room for

`configSchema` asks for three pending records where `transport` is `http`; `serveHttp` asks only that
there is an `http` section. The capacity of a server started without the former is zero. -/

namespace SecureMcp

variable {δ : Type}

/-- What `serveHttp` fixes; `none` where it throws. -/
def serveHttp (config : ParsedConfig) (registry : List ToolPolicy) (sha256 : Bytes → Bytes) :
    Option HttpSetup :=
  config.http.map (fun http =>
    { rt := { config := config.runtime, registry, sha256 }, allowedOrigins := http.allowedOrigins })

/-- The listener has no reason to refuse this request: target, Host and Origin are accepted and
    there is a token. A preflight request, which needs none, is answered at once. -/
structure HttpRequest.Acceptable (setup : HttpSetup) (request : HttpRequest) : Prop where
  target : request.path = some (js "/mcp") ∨ request.path = some (js "/metrics")
  host : request.host = true
  origin : ∀ origin, request.origin = some origin → origin ∈ setup.allowedOrigins
  token : request.token ≠ none
  not_preflight : ¬ (request.method = js "OPTIONS" ∧ request.origin ≠ none ∧
    request.path = some (js "/mcp"))

namespace HttpServer

/-- Audit is healthy, `close` was not called, and no request is being verified or holds a slot. -/
structure Idle (s : HttpServer δ) : Prop where
  healthy : s.runtime.audit.healthy = true
  closing : s.closing = false
  verifying : ∀ e ∈ s.exchanges, e.isVerifying = false
  holds : ∀ e ∈ s.exchanges, e.holds = false

/-- The verification of request `x` can end now, and nothing but the capacity could refuse it: no
    other request took the slot, audit is healthy, and its client is still there. -/
structure Verifiable (s : HttpServer δ) (x : Nat) : Prop where
  healthy : s.runtime.audit.healthy = true
  closing : s.closing = false
  holds : ∀ e ∈ s.exchanges, e.holds = false
  verifying : ∃ e, s.exchanges[x]? = some e ∧ e.isVerifying = true ∧ e.response.destroyed = false

/-- Whatever happened before and whatever happens until its verification ends, the next acceptable
    request is verified and admitted. -/
def Admits (setup : HttpSetup) (s : HttpServer δ) (request : HttpRequest) : Prop :=
  ((s.listen setup request).exchanges[s.exchanges.length]?).any HttpExchange.isVerifying = true ∧
    ∀ t, (machine setup δ).Leads (s.listen setup request) t → t.Verifiable s.exchanges.length →
      ∀ principal uuid, ∃ t' e, t.step setup (.verified s.exchanges.length (some principal) uuid) =
        some t' ∧ t'.exchanges[s.exchanges.length]? = some e ∧ e.holds = true

/-- Where the responses with these numbers are `silent`. -/
structure NeverStarves (setup : HttpSetup) (δ : Type) (silent : Nat → Bool) : Prop where
  /-- No run leaks a slot for good: from every state, the answers that the requests are owed give back
      every slot. -/
  returned : ∀ s : HttpServer δ, (machine setup δ).ReachableIn (fun _ l => emits silent l = true) s →
    ∃ s', (machine setup δ).LeadsIn (fun _ l => answers l = true ∧ emits silent l = true) s s' ∧
      s'.Vacant ∧ s'.authenticating = 0 ∧ s'.requests = 0
  /-- A slot that was given back is not counted. -/
  released : ∀ s : HttpServer δ, (machine setup δ).Reachable s → s.Idle →
    s.authenticating = 0 ∧ s.requests = 0
  admits : ∀ s : HttpServer δ, (machine setup δ).Reachable s → s.Idle →
    ∀ request, request.Acceptable setup → s.Admits setup request

variable {setup : HttpSetup} {s : HttpServer δ} {request : HttpRequest}

/-! ## The listener -/

theorem route_of_acceptable (h : request.Acceptable setup) :
    ∃ endpoint, request.route setup false = .verify endpoint := by
  obtain ⟨htarget, hhost, horigin, htoken, hpreflight⟩ := h
  have hallowed : request.origin.any (fun origin => !setup.allowedOrigins.contains origin) = false := by
    cases ho : request.origin with
    | none => rfl
    | some origin => simp [horigin origin ho]
  have hbearer : request.token.isNone = false := by
    cases ht : request.token with
    | none => exact absurd ht htoken
    | some _ => rfl
  rcases htarget with hpath | hpath
  · have hoptions : (request.method == js "OPTIONS" && request.origin.isSome) = false := by
      rw [Bool.and_eq_false_iff]
      by_cases hmethod : request.method = js "OPTIONS"
      · right
        cases ho : request.origin with
        | none => rfl
        | some origin => exact absurd ⟨hmethod, by simp [ho], hpath⟩ hpreflight
      · exact Or.inl (beq_eq_false_iff_ne.mpr hmethod)
    refine ⟨.mcp, ?_⟩
    unfold HttpRequest.route
    rw [hpath]
    simp only [hhost, hallowed, hoptions, hbearer]
    rfl
  · have hother : (js "/metrics" == js "/mcp") = false := rfl
    refine ⟨.metrics, ?_⟩
    unfold HttpRequest.route
    rw [hpath]
    simp only [hhost, hallowed, hother, Bool.and_false, hbearer]
    rfl

theorem authenticating_eq_zero (h : ∀ e ∈ s.exchanges, e.isVerifying = false)
    (hcounters : Counters setup s) : s.authenticating = 0 := by
  rw [hcounters.authenticating, List.countP_eq_zero]
  intro e he
  rw [h e he]
  exact Bool.false_ne_true

theorem requests_eq_zero (h : ∀ e ∈ s.exchanges, e.holds = false) (hcounters : Counters setup s) :
    s.requests = 0 := by
  rw [hcounters.requests, List.countP_eq_zero]
  intro e he
  rw [h e he]
  exact Bool.false_ne_true

/-- An idle server starts to verify an acceptable request. -/
theorem Idle.listen (h : s.Idle) (hcounters : Counters setup s)
    (hroom : 1 ≤ setup.rt.config.limits.maxConcurrent) (hrequest : request.Acceptable setup) :
    ∃ endpoint, s.listen setup request = { s with
      authenticating := s.authenticating + 1
      exchanges := s.exchanges ++ [{ request, endpoint }] } := by
  obtain ⟨endpoint, hroute⟩ := route_of_acceptable hrequest
  refine ⟨endpoint, ?_⟩
  rw [HttpServer.listen, h.closing, hroute]
  dsimp only
  rw [if_neg (by rw [authenticating_eq_zero h.verifying hcounters]; omega)]

/-! ## The capacity -/

/-- With a slot free, a verified request takes it. -/
theorem Verifiable.admitted {x : Nat} (h : s.Verifiable x) (hcounters : Counters setup s)
    (hcapacity : 1 ≤ setup.requestCapacity) (principal : Principal) (uuid : JsString) :
    ∃ s' e trace, s.step setup (.verified x (some principal) uuid) = some s' ∧
      s.exchanges[x]? = some e ∧ s'.exchanges[x]? = some { e with phase := .admitted trace } ∧
      trace.ending = .awaitingClose := by
  obtain ⟨e, hx, hverifying, hdestroyed⟩ := h.verifying
  have hphase : e.phase = .verifying := by
    unfold HttpExchange.isVerifying at hverifying
    split at hverifying
    · assumption
    · exact absurd hverifying Bool.false_ne_true
  let freed : HttpServer δ := { s with authenticating := s.authenticating - 1 }
  have hlength : x < s.exchanges.length := (List.getElem?_eq_some_iff.mp hx).1
  refine ⟨freed.accept setup x e principal uuid, e, freed.newTrace setup e principal uuid, ?_, hx, ?_,
    rfl⟩
  · have hfree : ¬ setup.requestCapacity ≤ s.requests := by
      rw [requests_eq_zero h.holds hcounters]
      omega
    show s.verified setup x (some principal) uuid = _
    simp only [HttpServer.verified, hx, hphase, Option.bind_eq_bind, Option.bind_some]
    rw [if_neg (ne_true_of_eq_false hdestroyed), if_neg (ne_true_of_eq_false h.closing),
      if_neg (by rw [h.healthy]; exact Bool.false_ne_true), if_neg hfree]
  · exact List.getElem?_set_self hlength

/-- Without a slot, nothing is ever admitted. -/
theorem not_holds_of_capacity (hcounters : Counters setup s) (hcapacity : setup.requestCapacity = 0) :
    ∀ e ∈ s.exchanges, e.holds = false := by
  have hzero : s.exchanges.countP HttpExchange.holds = 0 := by
    rw [← hcounters.requests]
    exact Nat.le_zero.mp (hcapacity ▸ hcounters.requests_le)
  exact fun e he => Bool.eq_false_iff.mpr (List.countP_eq_zero.mp hzero e he)

/-- The capacity is a third of the pending records a server may have, unless it is bounded by
    the calls it may run. -/
theorem requestCapacity_pos_iff {config : ParsedConfig} {registry : List ToolPolicy} {sha256 : Bytes → Bytes}
    (hconcurrent : 1 ≤ config.limits.maxConcurrent)
    (hserve : serveHttp config registry sha256 = some setup) :
    1 ≤ setup.requestCapacity ↔ 3 ≤ config.audit.maxPending := by
  obtain ⟨http, _, rfl⟩ := Option.map_eq_some_iff.mp hserve
  show 1 ≤ min (config.limits.maxConcurrent * 2) (config.audit.maxPending / 3) ↔ _
  omega

theorem neverStarves_of_capacity {silent : Nat → Bool} (hroom : 1 ≤ setup.rt.config.limits.maxConcurrent)
    (hcapacity : 1 ≤ setup.requestCapacity) (hemits : ∀ x, silent x = false) :
    NeverStarves setup δ silent := by
  constructor
  case returned =>
    intro s hs
    obtain ⟨s', hrun, hvacant⟩ := vacant_of_answers hs.reachable
    have hcounters := Counters.of_reachable (hs.reachable.trans hrun.leads)
    refine ⟨s', hrun.mono (fun _ l hanswers => ⟨hanswers, ?_⟩), hvacant,
      authenticating_eq_zero (fun e he => (hvacant e he).1) hcounters,
      requests_eq_zero (fun e he => (hvacant e he).2) hcounters⟩
    cases l with
    | closed x => exact congrArg not (hemits x)
    | _ => rfl
  case released =>
    intro s hs hidle
    have hcounters := Counters.of_reachable hs
    exact ⟨authenticating_eq_zero hidle.verifying hcounters, requests_eq_zero hidle.holds hcounters⟩
  case admits =>
    intro s hs hidle request hrequest
    obtain ⟨endpoint, hlisten⟩ := hidle.listen (Counters.of_reachable hs) hroom hrequest
    refine ⟨by rw [hlisten, List.getElem?_concat_length]; rfl, ?_⟩
    intro t hleads hverifiable principal uuid
    have ht : (machine setup δ).Reachable t :=
      (hs.snoc (show (machine setup δ).step s (.listen request) = some _ from rfl)).trans hleads
    obtain ⟨t', e, trace, hstep, _, hx', hending⟩ :=
      hverifiable.admitted (Counters.of_reachable ht) hcapacity principal uuid
    refine ⟨t', _, hstep, hx', ?_⟩
    rw [holds_of_trace rfl, hending]
    rfl

/-- A request that every server accepts. -/
def plainRequest : HttpRequest where
  path := some (js "/mcp")
  host := true
  origin := none
  method := js "POST"
  token := some (js "token")

theorem plainRequest_acceptable (setup : HttpSetup) : plainRequest.Acceptable setup where
  target := Or.inl rfl
  host := rfl
  origin := fun _ h => absurd h (by simp [plainRequest])
  token := by simp [plainRequest]
  not_preflight := fun h => h.2.1 rfl

def plainPrincipal : Principal := { subject := [], issuer := [], scopes := [] }

theorem idle_init (setup : HttpSetup) (δ : Type) : (machine setup δ).init.Idle where
  healthy := rfl
  closing := rfl
  verifying := fun _ he => absurd he (by simp [machine])
  holds := fun _ he => absurd he (by simp [machine])

/-- Its verification can end as soon as it has begun. -/
theorem Idle.verifiable (h : s.Idle) (request : HttpRequest) (endpoint : Endpoint) :
    HttpServer.Verifiable (δ := δ) { s with
      authenticating := s.authenticating + 1
      exchanges := s.exchanges ++ [{ request, endpoint }] } s.exchanges.length where
  healthy := h.healthy
  closing := h.closing
  holds := by
    intro e he
    rcases List.mem_append.mp he with hold | hnew
    · exact h.holds e hold
    · rw [List.mem_singleton.mp hnew]
      rfl
  verifying := ⟨_, List.getElem?_concat_length, rfl, rfl⟩

/-- A server without a slot refuses its first request. -/
theorem starves_of_capacity {silent : Nat → Bool} (hroom : 1 ≤ setup.rt.config.limits.maxConcurrent)
    (hcapacity : setup.requestCapacity = 0) : ¬ NeverStarves setup δ silent := by
  intro h
  have hinit := (machine setup δ).reachable_init
  have hidle := idle_init setup δ
  obtain ⟨endpoint, hlisten⟩ := hidle.listen (Counters.of_reachable hinit) hroom
    (plainRequest_acceptable setup)
  obtain ⟨-, hadmits⟩ := h.admits _ hinit hidle plainRequest (plainRequest_acceptable setup)
  rw [hlisten] at hadmits
  obtain ⟨t, e, hstep, hx, hholds⟩ := hadmits _ (Machine.Leads.refl _)
    (hidle.verifiable plainRequest endpoint) plainPrincipal []
  have ht : (machine setup δ).Reachable t := by
    have hlistened := hinit.snoc (show (machine setup δ).step _ (.listen plainRequest) = some _ from
      congrArg some hlisten)
    exact hlistened.snoc (l := .verified 0 (some plainPrincipal) []) hstep
  rw [not_holds_of_capacity (Counters.of_reachable ht) hcapacity e (List.mem_of_getElem? hx)] at hholds
  exact absurd hholds Bool.false_ne_true

/-! ## Silent responses -/

theorem Idle.listened (h : s.Idle) (silent : Nat → Bool)
    (hs : (machine setup δ).ReachableIn (fun _ l => emits silent l = true) s)
    (hroom : 1 ≤ setup.rt.config.limits.maxConcurrent) : ∃ endpoint,
    (machine setup δ).ReachableIn (fun _ l => emits silent l = true) { s with
      authenticating := s.authenticating + 1
      exchanges := s.exchanges ++ [{ request := plainRequest, endpoint }] } := by
  obtain ⟨endpoint, hlisten⟩ := h.listen (Counters.of_reachable hs.reachable) hroom
    (plainRequest_acceptable setup)
  exact ⟨endpoint, hs.snoc (l := .listen plainRequest) rfl (congrArg some hlisten)⟩

/-- However many requests were refused, a server is as idle as before. -/
theorem exists_idle (hroom : 1 ≤ setup.rt.config.limits.maxConcurrent) (silent : Nat → Bool) (n : Nat) :
    ∃ s : HttpServer δ, (machine setup δ).ReachableIn (fun _ l => emits silent l = true) s ∧ s.Idle ∧
      s.exchanges.length = n := by
  induction n with
  | zero => exact ⟨_, Machine.LeadsIn.refl _, idle_init setup δ, rfl⟩
  | succ n ih =>
      obtain ⟨s, hs, hidle, rfl⟩ := ih
      obtain ⟨endpoint, hlistened⟩ := hidle.listened silent hs hroom
      let e : HttpExchange := { request := plainRequest, endpoint }
      let freed : HttpServer δ := { s with
        authenticating := s.authenticating + 1 - 1
        exchanges := s.exchanges ++ [e] }
      let e' : HttpExchange := { e with
        response := { e.response with headersSent := true, ended := true, statusCode := 401 }
        phase := .refused (some .unauthorized) }
      have hexchanges : (freed.reject s.exchanges.length e .unauthorized 401).exchanges =
          s.exchanges ++ [e'] := by
        show (s.exchanges ++ [e]).set s.exchanges.length e' = _
        simp
      refine ⟨freed.reject s.exchanges.length e .unauthorized 401,
        hlistened.snoc (l := .verified s.exchanges.length none []) rfl ?_,
        ⟨hidle.healthy, hidle.closing, ?_, ?_⟩, by rw [hexchanges, List.length_append]; rfl⟩
      · have hx : (s.exchanges ++ [e])[s.exchanges.length]? = some e := List.getElem?_concat_length
        show HttpServer.verified setup { s with
          authenticating := s.authenticating + 1
          exchanges := s.exchanges ++ [e] } s.exchanges.length none [] = _
        unfold HttpServer.verified
        dsimp only
        rw [hx]
        rfl
      · rw [hexchanges]
        exact List.forall_mem_append.mpr ⟨hidle.verifying, List.forall_mem_singleton.mpr rfl⟩
      · rw [hexchanges]
        exact List.forall_mem_append.mpr ⟨hidle.holds, List.forall_mem_singleton.mpr rfl⟩

/-- Where there is a slot, a silent response takes one for good. -/
theorem leaks_of_silent {silent : Nat → Bool} (hroom : 1 ≤ setup.rt.config.limits.maxConcurrent)
    (hcapacity : 1 ≤ setup.requestCapacity) {x : Nat} (hsilent : silent x = true) :
    ¬ NeverStarves setup δ silent := by
  intro h
  obtain ⟨s, hs, hidle, rfl⟩ := exists_idle (δ := δ) hroom silent x
  obtain ⟨endpoint, hlistened⟩ := hidle.listened silent hs hroom
  obtain ⟨t, e, trace, hstep, hx, hadmitted, hending⟩ :=
    (hidle.verifiable plainRequest endpoint).admitted (Counters.of_reachable hlistened.reachable)
      hcapacity plainPrincipal []
  have ht : (machine setup δ).ReachableIn (fun _ l => emits silent l = true) t :=
    hlistened.snoc (l := .verified s.exchanges.length (some plainPrincipal) []) rfl hstep
  obtain rfl : { request := plainRequest, endpoint } = e :=
    Option.some.inj (List.getElem?_concat_length.symm.trans hx)
  obtain ⟨t', hrun, hvacant, -, -⟩ := h.returned t ht
  have hunclosed : (machine setup δ).LeadsIn (fun _ l => l ≠ .closed s.exchanges.length) t t' := by
    refine hrun.mono (fun _ l hok hl => ?_)
    obtain ⟨-, hemits⟩ := hok
    rw [hl, emits, hsilent] at hemits
    cases hemits
  obtain ⟨e', hx', hholds, -⟩ := holds_of_unclosed ht.reachable hadmitted
    (by rw [holds_of_trace rfl, hending]; rfl) rfl hunclosed
  rw [(hvacant e' (List.mem_of_getElem? hx')).2] at hholds
  cases hholds

/-! ## Accepted configurations -/

/-- Under an accepted configuration, admission never starves exactly when three pending records are
    allowed, which is when the capacity is at least one, and every response emits `close`. -/
theorem neverStarves_iff {env : ConfigEnv} {raw : Raw} {config : ParsedConfig}
    {registry : List ToolPolicy} {sha256 : Bytes → Bytes} {silent : Nat → Bool}
    (hcontract : Config.Contract env) (haccepted : Config.parseConfig env raw = .ok config)
    (hserve : serveHttp config registry sha256 = some setup) :
    (NeverStarves setup δ silent ↔ 3 ≤ config.audit.maxPending ∧ ∀ x, silent x = false) ∧
      (1 ≤ setup.requestCapacity ↔ 3 ≤ config.audit.maxPending) := by
  have hconcurrent := (Config.sound_of_parseConfig hcontract haccepted).limits.maxConcurrent.1
  have hcapacity := requestCapacity_pos_iff hconcurrent hserve
  have hroom : 1 ≤ setup.rt.config.limits.maxConcurrent := by
    obtain ⟨http, _, rfl⟩ := Option.map_eq_some_iff.mp hserve
    exact hconcurrent
  refine ⟨⟨fun h => ?_, fun h => neverStarves_of_capacity hroom (hcapacity.mpr h.1) h.2⟩, hcapacity⟩
  have hpos : 1 ≤ setup.requestCapacity := by
    by_contra hlow
    exact starves_of_capacity hroom (Nat.lt_one_iff.mp (Nat.lt_of_not_le hlow)) h
  exact ⟨hcapacity.mp hpos, fun x => Bool.eq_false_iff.mpr (fun hsilent =>
    leaks_of_silent hroom hpos hsilent h)⟩

/-- The URLs of a resource, an issuer and its keys. -/
def labUrls : Urls where
  parseUrl text :=
    [(js "https://mcp.test/mcp", js "mcp.test", js "/mcp"),
      (js "https://issuer.test/", js "issuer.test", js "/"),
      (js "https://issuer.test/jwks", js "issuer.test", js "/jwks")].lookup text |>.map
      (fun (hostname, pathname) =>
        { protocol := js "https:", username := [], password := [], hostname, pathname
          search := [], hash := [], origin := js "https://" ++ hostname })
  urlText := some

/-- A host that has them. -/
def labEnv : ConfigEnv :=
  { labUrls with resolve := fun _ => js "/srv", parse := Config.plainParse labUrls }

/-- An embedding that keeps the transport and asks for `maxPending` records. -/
def labConfig (maxPending : Int) : Raw :=
  .object
    [(js "audit", .object [(js "maxPending", .number (some maxPending))]),
      (js "http", .object
        [(js "resource", .string (js "https://mcp.test/mcp")),
          (js "issuer", .string (js "https://issuer.test/")),
          (js "jwksUrl", .string (js "https://issuer.test/jwks"))])]

/-- The tools a configuration allows where it says nothing. -/
def labTools : List ToolPolicy :=
  [{ name := js "documents_read", requiredScopes := [js "documents:read"], readOnly := true },
    { name := js "policy_status", requiredScopes := [js "policy:read"], readOnly := true }]

/-- Two pending records are enough for `parseConfig` and for `serveHttp`, and not for any request. -/
theorem starves_with_two_records :
    Config.Contract labEnv ∧ ∃ config setup, Config.parseConfig labEnv (labConfig 2) = .ok config ∧
      serveHttp config labTools id = some setup ∧ config.transport = .stdio ∧
      setup.requestCapacity = 0 ∧ ¬ NeverStarves setup String (fun _ => false) := by
  have haccepted : ∃ config setup, Config.parseConfig labEnv (labConfig 2) = .ok config ∧
      serveHttp config labTools id = some setup ∧ config.transport = .stdio ∧
      setup.requestCapacity = 0 ∧ setup.rt.config.limits.maxConcurrent = 16 :=
    ⟨_, _, rfl, rfl, rfl, rfl, rfl⟩
  obtain ⟨config, setup, hparsed, hserve, htransport, hcapacity, hconcurrent⟩ := haccepted
  exact ⟨Config.contract_plainParse labUrls _, config, setup, hparsed, hserve, htransport, hcapacity,
    starves_of_capacity (by rw [hconcurrent]; decide) hcapacity⟩

theorem neverStarves_iff_three_records :
    ∃ config setup, Config.parseConfig labEnv (labConfig 3) = .ok config ∧
      serveHttp config labTools id = some setup ∧ NeverStarves setup String (fun _ => false) := by
  have haccepted : ∃ config setup, Config.parseConfig labEnv (labConfig 3) = .ok config ∧
      serveHttp config labTools id = some setup ∧ config.audit.maxPending = 3 :=
    ⟨_, _, rfl, rfl, rfl⟩
  obtain ⟨config, setup, hparsed, hserve, hpending⟩ := haccepted
  have hcontract := Config.contract_plainParse labUrls (fun _ => js "/srv")
  exact ⟨config, setup, hparsed, hserve,
    (neverStarves_iff hcontract hparsed hserve).1.mpr ⟨Nat.le_of_eq hpending.symm, fun _ => rfl⟩⟩

/-- Where the transport is `http`, the rule across fields is enough. -/
theorem neverStarves_of_transport {env : ConfigEnv} {raw : Raw} {config : ParsedConfig}
    {registry : List ToolPolicy} {sha256 : Bytes → Bytes}
    (hcontract : Config.Contract env) (haccepted : Config.parseConfig env raw = .ok config)
    (hserve : serveHttp config registry sha256 = some setup) (htransport : config.transport = .http) :
    NeverStarves setup δ (fun _ => false) := by
  have hsound := Config.sound_of_parseConfig hcontract haccepted
  have hroom : 1 ≤ setup.rt.config.limits.maxConcurrent := by
    obtain ⟨http, _, rfl⟩ := Option.map_eq_some_iff.mp hserve
    exact hsound.limits.maxConcurrent.1
  exact neverStarves_of_capacity hroom ((requestCapacity_pos_iff hsound.limits.maxConcurrent.1
    hserve).mpr (hsound.consistent.maxPending htransport)) (fun _ => rfl)

end HttpServer

end SecureMcp
