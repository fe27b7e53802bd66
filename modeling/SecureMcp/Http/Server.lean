import SecureMcp.Runtime.Invoke

set_option autoImplicit false

/-! # `serveHttp` (`src/http.ts`)

One row for each request whose token is verified. An admitted request runs three threads: the `async`
function handed to the audit scope (`DeliveryPhase`), the adapter's call of `fetch` (`FetchPhase`), and
`terminal`, which writes the last record (`EndingPhase`). Each label takes one of them from one
`await` to the next; the promise jobs between the last check of `scope.settle` and the terminal
record, where nothing is left to wait for, are one step.

Not part of the source and decided by the labels: the token verifier, the adapter of
`@modelcontextprotocol/node`, the handler of `@modelcontextprotocol/server` with the servers it
creates, and the events of the Node response. The number of a row is the number of its audit scope. -/

namespace SecureMcp

structure HttpSetup where
  rt : RuntimeSetup
  allowedOrigins : List JsString

/-- `requestCapacity`. -/
def HttpSetup.requestCapacity (setup : HttpSetup) : Nat :=
  min (setup.rt.config.limits.maxConcurrent * 2) (setup.rt.config.maxPending / 3)

/-! ## The request listener -/

/-- The keys of `counters`. -/
inductive Rejection
  | bad_target
  | host_denied
  | origin_denied
  | unauthorized
  | authentication_busy
  | busy
  | not_found
  | shutting_down
  | audit_unavailable
deriving DecidableEq, Repr

/-- What the listener reads of a request. -/
structure HttpRequest where
  /-- `requestPath(request.url ?? '', resource.origin)`. -/
  path : Option JsString
  /-- `validateHostHeader(…).ok`. -/
  host : Bool
  origin : Option JsString
  method : JsString
  /-- The token of the `Authorization` header, when it has the form of a bearer token. -/
  token : Option JsString
deriving DecidableEq

/-- What the listener does before it verifies anything. -/
inductive Route
  | health
  | metadata
  | preflight
  | rejected (reason : Rejection)
  | verify (endpoint : Endpoint)
deriving DecidableEq, Repr

def HttpRequest.route (setup : HttpSetup) (closing : Bool) (request : HttpRequest) : Route :=
  match request.path with
  | none => .rejected .bad_target
  | some path =>
    if !request.host then .rejected .host_denied
    else if request.origin.any (fun origin => !setup.allowedOrigins.contains origin) then
      .rejected .origin_denied
    else if path == js "/health" && request.method == js "GET" then .health
    else if closing then .rejected .shutting_down
    else if (path == js "/.well-known/oauth-protected-resource/mcp" ||
        path == js "/.well-known/oauth-protected-resource") && request.method == js "GET" then
      .metadata
    else if request.method == js "OPTIONS" && request.origin.isSome && path == js "/mcp" then
      .preflight
    else if path != js "/mcp" && path != js "/metrics" then .rejected .not_found
    else if request.token.isNone then .rejected .unauthorized
    else .verify (if path == js "/mcp" then .mcp else .metrics)

/-- `method` of a record. -/
def HttpRequest.auditMethod (request : HttpRequest) : Method :=
  if request.method == js "GET" then .GET
  else if request.method == js "POST" then .POST
  else if request.method == js "DELETE" then .DELETE
  else if request.method == js "OPTIONS" then .OPTIONS
  else .other

/-- The status of the metrics route. -/
def metricsStatus (principal : Principal) (request : HttpRequest) : Nat :=
  if !principal.scopes.contains (js "metrics:read") then 403
  else if request.method != js "GET" then 405
  else 200

/-! ## One exchange -/

/-- The Node response. -/
structure HttpResponse where
  destroyed : Bool := false
  /-- Its `close` event was emitted. -/
  closed : Bool := false
  headersSent : Bool := false
  ended : Bool := false
  /-- `writableFinished`. -/
  finished : Bool := false
  statusCode : Nat := 200
deriving DecidableEq, Repr

/-- The function handed to `scope.run`. -/
inductive DeliveryPhase
  /-- Awaiting the `received` record, the write of this number. -/
  | receiving (write : Nat)
  /-- Awaiting `adapter(…)`. -/
  | adapting
  | settled
deriving DecidableEq, Repr

/-- `fetch`, as the adapter calls it. -/
inductive FetchPhase
  | idle
  /-- Awaiting `request.clone().text()`. -/
  | reading
  /-- Awaiting `handler.fetch(request)`. -/
  | handling
  /-- Awaiting the `response` record. -/
  | recording (write status : Nat)
  /-- The response is passed on. -/
  | passed (write status : Nat)
  /-- The response of the `catch` block is passed on. -/
  | failed (status : Nat)
deriving DecidableEq, Repr

/-- `terminal`. -/
inductive EndingPhase
  | awaitingClose
  | awaitingDelivery
  /-- Awaiting these writes in `scope.settle`. -/
  | settling (snapshot : List Nat)
  /-- Awaiting the terminal record. -/
  | writing (write : Nat)
  | done
deriving DecidableEq, Repr

/-- Bookkeeping: where the head of the response came from. -/
inductive Head
  /-- The response that `fetch` passed on. -/
  | handler (status : Nat)
  /-- The response of a `catch` block. -/
  | failure (status : Nat)
  /-- The adapter made it up. -/
  | adapter (status : Nat)
deriving DecidableEq, Repr

def Head.status : Head → Nat
  | handler status | failure status | adapter status => status

/-- `trace` and the threads of an admitted request. -/
structure Trace where
  principal : Principal
  event : AuditEvent
  start : Int
  terminal : Outcome := .completed
  /-- `timeout` is armed. -/
  timer : Bool := true
  delivery : DeliveryPhase
  fetch : FetchPhase := .idle
  ending : EndingPhase := .awaitingClose
  /-- Bookkeeping only, like the fields below: `handler.fetch` was called. -/
  dispatched : Bool := false
  received : Nat
  responses : List Nat := []
  /-- The calls of `invoke`. -/
  invocations : List Nat := []
  /-- The records of the wrapper around `send`. -/
  observed : List Nat := []
  attempts : List Nat := []
  head : Option Head := none
  timedOut : Bool := false
  /-- A `catch` block has run. -/
  caught : Bool := false
  /-- `writableFinished` at the `close` event. -/
  finishedAtClose : Option Bool := none

inductive HttpPhase
  /-- Awaiting `verify(token)`. -/
  | verifying
  /-- Not admitted, with the reason if it was rejected. -/
  | refused (reason : Option Rejection)
  | admitted (trace : Trace)

structure HttpExchange where
  request : HttpRequest
  endpoint : Endpoint
  response : HttpResponse := {}
  phase : HttpPhase := .verifying

def HttpExchange.trace (e : HttpExchange) : Option Trace :=
  match e.phase with
  | .admitted trace => some trace
  | _ => none

/-- The promise of `HttpHandle.close`. -/
inductive HttpClosing
  /-- Awaiting this call of `execution.close`. -/
  | awaitingExecution (k : Nat)
  /-- Awaiting `handler.close()`. -/
  | awaitingHandler
  /-- Awaiting `stopped`. -/
  | awaitingStopped
  /-- Awaiting these `terminals`. -/
  | awaitingTerminals (snapshot : List Nat)
  /-- It is the promise of `runtime.close()`. -/
  | awaitingRuntime
  | rejected
deriving DecidableEq, Repr

structure HttpServer (δ : Type) where
  runtime : SecureRuntime δ
  closing : Bool := false
  authenticating : Nat := 0
  requests : Nat := 0
  counters : Rejection → Nat := fun _ => 0
  exchanges : List HttpExchange := []
  shutdown : Option HttpClosing := none

namespace HttpServer

variable {δ : Type} (setup : HttpSetup) (s : HttpServer δ)

/-! ### Shared steps -/

/-- `count(reason)`. -/
def count (reason : Rejection) : Rejection → Nat :=
  fun r => if r = reason then min 9007199254740991 (s.counters r + 1) else s.counters r

def setExchange (x : Nat) (e : HttpExchange) : HttpServer δ :=
  { s with exchanges := s.exchanges.set x e }

/-- `reject(reason, status, …)` for a request whose token was verified. -/
def reject (x : Nat) (e : HttpExchange) (reason : Rejection) (status : Nat) : HttpServer δ :=
  { s with counters := s.count reason }.setExchange x
    { e with
      response := { e.response with headersSent := true, ended := true, statusCode := status }
      phase := .refused (some reason) }

/-- `runtime.audit.write(event)` in this scope. -/
def write (event : AuditEvent) (scope : Option Nat) : HttpServer δ :=
  { s with runtime := { s.runtime with audit := s.runtime.audit.write event scope } }

/-- The number that the next write gets. -/
def nextWrite : Nat := s.runtime.audit.writes.length

/-- `{ ...trace.event, time, outcome, status, durationMs }`. -/
def traceEvent (trace : Trace) (outcome : Outcome) (status : Nat) : AuditEvent :=
  { trace.event with
    time := s.runtime.clock.date
    outcome
    status := some status
    durationMs := s.runtime.clock.since trace.start }

/-- `runtime.audit.healthy ? 'internal' : 'audit_unavailable'`. -/
def failureOutcome : Outcome :=
  if s.runtime.audit.healthy then .failure .internal else .failure .audit_unavailable

/-- `runtime.audit.healthy ? 500 : 503`. -/
def failureStatus : Nat := if s.runtime.audit.healthy then 500 else 503

/-- The writes of a scope that have not settled, the set `writes` of `AuditDispatcher.scope`. -/
def unsettled (x : Nat) : List Nat :=
  (List.range s.runtime.audit.writes.length).filter (fun i =>
    match s.runtime.audit.writes[i]? with
    | some w => w.scope == some x && !w.delivery.settled
    | none => false)

def hasSettled (i : Nat) : Bool :=
  match s.runtime.audit.writes[i]? with
  | some w => w.delivery.settled
  | none => false

/-! ### Verification and admission -/

/-- The request listener up to `verify(token)`. Health, metadata and preflight requests are answered
    without any change of state. -/
def listen (request : HttpRequest) : HttpServer δ :=
  match request.route setup s.closing with
  | .rejected reason => { s with counters := s.count reason }
  | .verify endpoint =>
    if setup.rt.config.limits.maxConcurrent ≤ s.authenticating then
      { s with counters := s.count .authentication_busy }
    else
      { s with
        authenticating := s.authenticating + 1
        exchanges := s.exchanges ++ [{ request, endpoint }] }
  | _ => s

/-- `trace.event`; `uuid` is what `randomUUID()` returns. -/
def receivedEvent (e : HttpExchange) (principal : Principal) (uuid : JsString) : AuditEvent :=
  let context := auditContext setup.rt.sha256 principal (js "unknown") uuid
  { time := s.runtime.clock.date
    requestId := context.requestId
    actor := context.actor
    tool := context.tool
    outcome := .received
    durationMs := 0
    kind := some .http
    endpoint := some e.endpoint
    method := some e.request.auditMethod }

def newTrace (e : HttpExchange) (principal : Principal) (uuid : JsString) : Trace where
  principal
  event := s.receivedEvent setup e principal uuid
  start := s.runtime.clock.performance
  delivery := .receiving s.nextWrite
  received := s.nextWrite

/-- `requests++` and what follows, up to the `received` record. -/
def accept (x : Nat) (e : HttpExchange) (principal : Principal) (uuid : JsString) : HttpServer δ :=
  ({ s with requests := s.requests + 1 }.write (s.receivedEvent setup e principal uuid)
    (some x)).setExchange x { e with phase := .admitted (s.newTrace setup e principal uuid) }

/-- After `await verify(token)`. -/
def verified (x : Nat) (principal : Option Principal) (uuid : JsString) :
    Option (HttpServer δ) := do
  let e ← s.exchanges[x]?
  match e.phase with
  | .verifying =>
    let s := { s with authenticating := s.authenticating - 1 }
    match principal with
    | none =>
      if e.response.destroyed then some (s.setExchange x { e with phase := .refused none })
      else some (s.reject x e .unauthorized 401)
    | some principal =>
      if e.response.destroyed then some (s.setExchange x { e with phase := .refused none })
      else if s.closing then some (s.reject x e .shutting_down 503)
      else if !s.runtime.audit.healthy then some (s.reject x e .audit_unavailable 503)
      else if setup.requestCapacity ≤ s.requests then some (s.reject x e .busy 503)
      else some (s.accept setup x e principal uuid)
  | _ => none

/-! ### The delivery -/

/-- The `catch` block of the function handed to `scope.run`. -/
def caught (x : Nat) (e : HttpExchange) (trace : Trace) : HttpServer δ :=
  s.setExchange x
    { e with
      response := { e.response with
        headersSent := true
        statusCode := if e.response.headersSent then e.response.statusCode else s.failureStatus
        ended := true }
      phase := .admitted { trace with
        terminal := s.failureOutcome
        delivery := .settled
        caught := true
        head := trace.head.or (if e.response.headersSent then none
          else some (.failure s.failureStatus)) } }

/-- After the `received` record: the call of the adapter. -/
def received (x : Nat) : Option (HttpServer δ) := do
  let e ← s.exchanges[x]?
  let trace ← e.trace
  match trace.delivery with
  | .receiving write =>
    let w ← s.runtime.audit.writes[write]?
    match w.delivery with
    | .fulfilled =>
      let delivery := if e.response.destroyed then .settled else .adapting
      some (s.setExchange x { e with phase := .admitted { trace with delivery } })
    | .rejected => some (s.caught x e trace)
    | _ => none
  | _ => none

/-- The promise of `adapter(…)` settles. -/
def adapted (x : Nat) (ok : Bool) : Option (HttpServer δ) := do
  let e ← s.exchanges[x]?
  let trace ← e.trace
  match trace.delivery with
  | .adapting =>
    if ok then some (s.setExchange x { e with phase := .admitted { trace with delivery := .settled } })
    else some (s.caught x e trace)
  | _ => none

/-! ### The adapter's `fetch` -/

/-- The `catch` block of `fetch`. -/
def fetchFailed (x : Nat) (e : HttpExchange) (trace : Trace) : HttpServer δ :=
  s.setExchange x { e with
    phase := .admitted { trace with
      terminal := s.failureOutcome
      fetch := .failed s.failureStatus
      caught := true } }

/-- `fetch` has its response and records it. -/
def respond (x : Nat) (e : HttpExchange) (trace : Trace) (status : Nat) : HttpServer δ :=
  (s.write (s.traceEvent trace .response status) (some x)).setExchange x { e with
    phase := .admitted { trace with
      fetch := .recording s.nextWrite status
      responses := trace.responses ++ [s.nextWrite] } }

/-- The adapter calls `fetch`. -/
def fetch (x : Nat) : Option (HttpServer δ) := do
  let e ← s.exchanges[x]?
  let trace ← e.trace
  match trace.delivery, trace.fetch with
  | .adapting, .idle =>
    if e.endpoint = .metrics then
      some (s.respond x e trace (metricsStatus trace.principal e.request))
    else if e.request.method == js "POST" then
      some (s.setExchange x { e with phase := .admitted { trace with fetch := .reading } })
    else
      some (s.setExchange x
        { e with phase := .admitted { trace with fetch := .handling, dispatched := true } })
  | _, _ => none

/-- After the text was read: whether it starts a batch, `none` when reading it failed. -/
def text (x : Nat) (batch : Option Bool) : Option (HttpServer δ) := do
  let e ← s.exchanges[x]?
  let trace ← e.trace
  match trace.fetch with
  | .reading =>
    match batch with
    | none => some (s.fetchFailed x e trace)
    | some true => some (s.respond x e trace 400)
    | some false =>
      some (s.setExchange x
        { e with phase := .admitted { trace with fetch := .handling, dispatched := true } })
  | _ => none

/-- After `await handler.fetch(request)`: the status of its response, `none` when it rejected. -/
def fetched (x : Nat) (status : Option Nat) : Option (HttpServer δ) := do
  let e ← s.exchanges[x]?
  let trace ← e.trace
  match trace.fetch with
  | .handling =>
    match status with
    | none => some (s.fetchFailed x e trace)
    | some status => some (s.respond x e trace status)
  | _ => none

/-- After the `response` record. -/
def responded (x : Nat) : Option (HttpServer δ) := do
  let e ← s.exchanges[x]?
  let trace ← e.trace
  match trace.fetch with
  | .recording write status =>
    let w ← s.runtime.audit.writes[write]?
    match w.delivery with
    | .fulfilled =>
      some (s.setExchange x
        { e with phase := .admitted { trace with fetch := .passed write status } })
    | .rejected => some (s.fetchFailed x e trace)
    | _ => none
  | _ => none

/-- What the adapter has to send: the response that `fetch` returned, or one of its own. -/
def nextHead (own : Option Nat) (fetch : FetchPhase) : Option Head :=
  match own, fetch with
  | some status, _ => some (.adapter status)
  | none, .passed _ status => some (.handler status)
  | none, .failed status => some (.failure status)
  | none, _ => none

/-- The adapter writes the head of the response. -/
def sendHead (x : Nat) (own : Option Nat) : Option (HttpServer δ) := do
  let e ← s.exchanges[x]?
  let trace ← e.trace
  if trace.delivery = .adapting && !e.response.headersSent then
    let head ← nextHead own trace.fetch
    some (s.setExchange x
      { e with
        response := { e.response with headersSent := true, statusCode := head.status }
        phase := .admitted { trace with head := some head } })
  else none

/-- The adapter ends the response. -/
def sendEnd (x : Nat) : Option (HttpServer δ) := do
  let e ← s.exchanges[x]?
  let trace ← e.trace
  if trace.delivery = .adapting then
    some (s.setExchange x { e with response := { e.response with ended := true } })
  else none

/-! ### The response -/

/-- Everything was handed to the operating system. -/
def finish (x : Nat) : Option (HttpServer δ) := do
  let e ← s.exchanges[x]?
  if e.response.ended && !e.response.closed then
    some (s.setExchange x { e with response := { e.response with finished := true } })
  else none

/-- The response is destroyed; its `close` event follows. -/
def destroy (x : Nat) : Option (HttpServer δ) := do
  let e ← s.exchanges[x]?
  some (s.setExchange x { e with response := { e.response with destroyed := true } })

/-- The `close` event and its listeners. -/
def closed (x : Nat) : Option (HttpServer δ) := do
  let e ← s.exchanges[x]?
  if e.response.closed then none
  else
    let response := { e.response with destroyed := true, closed := true }
    match e.phase with
    | .admitted trace =>
      some (s.setExchange x
        { e with
          response
          phase := .admitted { trace with
            timer := false
            terminal :=
              if !e.response.finished && trace.terminal == .completed then .disconnected
              else trace.terminal
            finishedAtClose := some e.response.finished } })
    | _ => some (s.setExchange x { e with response })

/-- The callback of `timeout`. -/
def expire (x : Nat) : Option (HttpServer δ) := do
  let e ← s.exchanges[x]?
  let trace ← e.trace
  if trace.timer then
    some (s.setExchange x
      { e with
        response := { e.response with destroyed := true }
        phase := .admitted { trace with
          timer := false, terminal := .request_timeout, timedOut := true } })
  else none

/-! ### The terminal record -/

/-- The loop of `scope.settle`, and the terminal record when there is nothing to wait for. -/
def settle (x : Nat) (e : HttpExchange) (trace : Trace) : HttpServer δ :=
  match s.unsettled x with
  | [] =>
    (s.write (s.traceEvent trace trace.terminal e.response.statusCode) none).setExchange x { e with
      phase := .admitted { trace with
        ending := .writing s.nextWrite
        attempts := trace.attempts ++ [s.nextWrite] } }
  | snapshot =>
    s.setExchange x { e with phase := .admitted { trace with ending := .settling snapshot } }

/-- The next step of `terminal`. -/
def terminal (x : Nat) : Option (HttpServer δ) := do
  let e ← s.exchanges[x]?
  let trace ← e.trace
  match trace.ending with
  | .awaitingClose =>
    if e.response.closed then
      some (s.setExchange x
        { e with phase := .admitted { trace with ending := .awaitingDelivery } })
    else none
  | .awaitingDelivery => if trace.delivery = .settled then some (s.settle x e trace) else none
  | .settling snapshot => if snapshot.all s.hasSettled then some (s.settle x e trace) else none
  | .writing write =>
    if s.hasSettled write then
      some ({ s with requests := s.requests - 1 }.setExchange x
        { e with phase := .admitted { trace with ending := .done } })
    else none
  | .done => none

/-! ### What the handler does in the scope of a request -/

/-- The server created for the request calls `runtime.invoke`. -/
def invoke (x : Nat) (name : JsString) (args : Graph) (caller : Option Thrown)
    (request : Option Nat) (uuid : JsString) : Option (HttpServer δ) := do
  let e ← s.exchanges[x]?
  let trace ← e.trace
  if trace.dispatched then
    let runtime ← s.runtime.step setup.rt (.invoke
      { principal := trace.principal, name, args, caller, requestId := some trace.event.requestId
        request, scope := some x, uuid })
    some ({ s with runtime }.setExchange x
      { e with
        phase := .admitted { trace with
          invocations := trace.invocations ++ [s.runtime.invocations.length] } })
  else none

/-- The wrapper around its `send` makes a record. -/
def observe (x : Nat) (outcome : Outcome) : Option (HttpServer δ) := do
  let e ← s.exchanges[x]?
  let trace ← e.trace
  if trace.dispatched then
    some ((s.write
      { time := s.runtime.clock.date
        requestId := trace.event.requestId
        actor := trace.event.actor
        tool := js "unknown"
        outcome
        durationMs := 0
        kind := some .protocol } (some x)).setExchange x
      { e with phase := .admitted { trace with observed := trace.observed ++ [s.nextWrite] } })
  else none

/-! ### Shutdown -/

/-- `close`: every call returns the promise of the first one. -/
def close : HttpServer δ :=
  match s.shutdown with
  | some _ => s
  | none =>
    { s with
      closing := true
      runtime := { s.runtime with execution := s.runtime.execution.close }
      shutdown := some (.awaitingExecution s.runtime.execution.closes.length) }

/-- `terminals`, by the numbers of their requests. -/
def terminals : List Nat :=
  (List.range s.exchanges.length).filter (fun x =>
    match (s.exchanges[x]?).bind HttpExchange.trace with
    | some trace => trace.ending != .done
    | none => false)

def hasEnded (x : Nat) : Bool :=
  match (s.exchanges[x]?).bind HttpExchange.trace with
  | some trace => trace.ending == .done
  | none => true

/-- The next step of `close`; `ok` says how a promise of other code settled. -/
def closeNext (ok : Bool) : Option (HttpServer δ) := do
  match ← s.shutdown with
  | .awaitingExecution k =>
    let returned ← s.runtime.execution.closes[k]?
    let _ ← returned
    some { s with shutdown := some .awaitingHandler }
  | .awaitingHandler => some { s with shutdown := some (if ok then .awaitingStopped else .rejected) }
  | .awaitingStopped =>
    some { s with
      shutdown := some (if ok then .awaitingTerminals s.terminals else .rejected) }
  | .awaitingTerminals snapshot =>
    if snapshot.all s.hasEnded then
      some { s with runtime := s.runtime.close, shutdown := some .awaitingRuntime }
    else none
  | .awaitingRuntime | .rejected => none

/-- Other code does not run in the scope of a request. -/
def isForeign : SecureRuntime.Label δ → Bool
  | .invoke call => call.scope.isNone
  | .audit (.write _ scope) => scope.isNone
  | _ => true

end HttpServer

/-! ## The machine -/

namespace HttpServer

variable {δ : Type}

inductive Label (δ : Type)
  | listen (request : HttpRequest)
  | verified (x : Nat) (principal : Option Principal) (uuid : JsString)
  | received (x : Nat)
  | adapted (x : Nat) (ok : Bool)
  | fetch (x : Nat)
  | text (x : Nat) (batch : Option Bool)
  | fetched (x : Nat) (status : Option Nat)
  | responded (x : Nat)
  | sendHead (x : Nat) (own : Option Nat)
  | sendEnd (x : Nat)
  | finish (x : Nat)
  | destroy (x : Nat)
  | closed (x : Nat)
  | expire (x : Nat)
  | terminal (x : Nat)
  | invoke (x : Nat) (name : JsString) (args : Graph) (caller : Option Thrown)
      (request : Option Nat) (uuid : JsString)
  | observe (x : Nat) (outcome : Outcome)
  | close
  | closeNext (ok : Bool)
  /-- A step of the runtime: of a call, of the dispatcher, of the controller, or of other code. -/
  | runtime (label : SecureRuntime.Label δ)

def step (setup : HttpSetup) (s : HttpServer δ) : Label δ → Option (HttpServer δ)
  | .listen request => some (s.listen setup request)
  | .verified x principal uuid => s.verified setup x principal uuid
  | .received x => s.received x
  | .adapted x ok => s.adapted x ok
  | .fetch x => s.fetch x
  | .text x batch => s.text x batch
  | .fetched x status => s.fetched x status
  | .responded x => s.responded x
  | .sendHead x own => s.sendHead x own
  | .sendEnd x => s.sendEnd x
  | .finish x => s.finish x
  | .destroy x => s.destroy x
  | .closed x => s.closed x
  | .expire x => s.expire x
  | .terminal x => s.terminal x
  | .invoke x name args caller request uuid => s.invoke setup x name args caller request uuid
  | .observe x outcome => s.observe x outcome
  | .close => some s.close
  | .closeNext ok => s.closeNext ok
  | .runtime label =>
    if isForeign label then (s.runtime.step setup.rt label).map (fun runtime => { s with runtime })
    else none

def machine (setup : HttpSetup) (δ : Type) : Machine (HttpServer δ) (Label δ) :=
  { init := { runtime := (SecureRuntime.machine setup.rt δ).init }
    step := step setup }

end HttpServer

end SecureMcp
