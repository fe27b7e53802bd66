import SecureMcp.Runtime.Invoke

set_option autoImplicit false

/-! # `AuditedMcpServer` over one transport (`src/audit.ts`, `createServer` in `src/runtime.ts`)

`connect` puts a wrapper around `transport.send` and, once `transport.start` is called, around the
handler of incoming messages. The model has one row for each request that the wrapped handler has
seen (`Exchange`) and one for each call of the wrapped `send` (`Send`), over a runtime that other
code uses as well.

The SDK is not part of the source. Its labels let it do what it is assumed to do and nothing else:
it calls the tool of a `tools/call` request at most once, inside the context of that request, and
answers a request at most once, in that context; what it answers to a `tools/call` is an error, a
result with `isError: true`, or what the tool's `invoke` returned. It may send anything else that is
no result outside of any request. -/

namespace SecureMcp

/-- An id of a JSON-RPC message. -/
inductive RpcId
  | null
  | string (text : JsString)
  | number (literal : NumberLiteral)
deriving DecidableEq

/-- What the SDK hands to `transport.send`. -/
inductive Message
  | error (id : Option RpcId) (code : Int) (text : JsString) (data : Option Graph)
  | result (id : RpcId) (value : Graph)
  /-- A request or a notification of the server. -/
  | other (id : Option RpcId)

namespace Message

/-- `'id' in message` and its value. -/
def id : Message → Option RpcId
  | error id _ _ _ => id
  | result id _ => some id
  | other id => id

/-- The message sent in place of one whose record was lost. -/
def auditUnavailable (id : RpcId) : Message := .error (some id) (-32603) (js "audit_unavailable") none

end Message

/-- `value.isError === true`. -/
def Graph.isErrorTrue (value : Graph) : Bool :=
  match value.root with
  | .scalar _ => false
  | .ref address =>
    match value.node address with
    | .array _ _ => false
    | .object entries _ =>
      match entries.find? (fun entry => entry.1 == js "isError") with
      | some (_, .scalar (.bool isError)) => isError
      | _ => false

/-- The table of `observeProtocolError`. -/
def protocolOutcome (code : Int) : Outcome :=
  if code = -32700 then .parse_error
  else if code = -32600 then .invalid_request
  else if code = -32601 then .unknown_method
  else if code = -32602 then .invalid_params
  else .protocol_error

/-- What `createServer` was called with, in the audit scope that `connect` runs in. -/
structure ServerSetup where
  rt : RuntimeSetup
  identity : Principal
  requestId : Option JsString
  createdAt : Int
  scope : Option Nat

/-- `this.visibleTools(identity)`. -/
def ServerSetup.visibleTools (server : ServerSetup) : List ToolPolicy :=
  server.rt.registry.filter
    (fun tool => mayInvoke server.rt.policy server.identity tool server.createdAt)

/-- A message the transport has received. -/
structure Incoming where
  method : Option JsString
  id : Option RpcId
  /-- `params?.arguments`. -/
  arguments : Option Graph := none

/-- A request that the wrapped `onmessage` has seen. -/
structure Exchange where
  id : RpcId
  /-- `method === 'tools/call'`. -/
  toolCall : Bool
  /-- The store it runs in. -/
  request : Nat
  /-- Answered by the wrapper itself. -/
  rejected : Bool
  invocation : Option Nat := none
  responded : Bool := false

/-- One call of the wrapped `send`. -/
inductive SendPhase
  /-- Awaiting the record made for the message. -/
  | auditing (write : Nat)
  /-- The message was passed on, after this record if one was needed. -/
  | passed (write : Option Nat)
  /-- `audit_unavailable` was passed on instead. -/
  | replaced (write : Nat)
  /-- It threw. -/
  | dropped (write : Nat)
deriving DecidableEq

structure Send where
  message : Message
  /-- `currentAuditRequest()`. -/
  request : Option Nat
  phase : SendPhase
  /-- Bookkeeping only: the exchange it answers. -/
  answers : Option Nat

structure AuditedMcpServer (δ : Type) where
  runtime : SecureRuntime δ
  /-- `transport.start` was called: the handler of incoming messages is wrapped. -/
  started : Bool := false
  /-- Received by the transport and not delivered yet. -/
  incoming : List Incoming := []
  exchanges : List Exchange := []
  sends : List Send := []
  /-- What went to the underlying transport, with the call of `send` it comes from. -/
  passed : List (Nat × Message) := []

namespace AuditedMcpServer

variable {δ : Type} (server : ServerSetup) (s : AuditedMcpServer δ)

/-- `currentAuditRequest()?.toolOutcomeRecorded`. -/
def outcomeRecorded (request : Option Nat) : Bool :=
  match request.bind (fun q => s.runtime.requests[q]?) with
  | some context => context.toolOutcomeRecorded
  | none => false

/-- The record the wrapper makes before it passes a message on, if it makes one. -/
def observation (message : Message) (request : Option Nat) : Option Outcome :=
  match message with
  | .error _ code _ _ => some (protocolOutcome code)
  | .result _ value =>
    if value.isErrorTrue && !s.outcomeRecorded request then some .tool_rejected else none
  | .other _ => none

/-- The event of `observeProtocolError` and `observeToolRejection`; `uuid` is what `randomUUID()`
    would return. -/
def protocolEvent (outcome : Outcome) (request : Option Nat) (uuid : JsString) : AuditEvent :=
  let current := (request.bind (fun q => s.runtime.requests[q]?)).map AuditRequestContext.requestId
  let context := auditContext server.rt.sha256 server.identity (js "unknown")
    ((server.requestId.or current).getD uuid)
  { time := s.runtime.clock.date
    requestId := context.requestId
    actor := context.actor
    tool := context.tool
    outcome
    durationMs := 0
    kind := some .protocol }

/-- The wrapped `send` up to its `await`, in the context `request`. -/
def send (message : Message) (request answers : Option Nat) (uuid : JsString) :
    AuditedMcpServer δ :=
  match s.observation message request with
  | none =>
    { s with
      sends := s.sends ++ [{ message, request, phase := .passed none, answers }]
      passed := s.passed ++ [(s.sends.length, message)] }
  | some outcome =>
    { s with
      runtime := { s.runtime with
        audit := s.runtime.audit.write (s.protocolEvent server outcome request uuid) server.scope }
      sends := s.sends ++
        [{ message, request, phase := .auditing s.runtime.audit.writes.length, answers }] }

/-- The wrapped `send` after its record: pass the message on, or replace it. -/
def audited (k : Nat) : Option (AuditedMcpServer δ) := do
  let send ← s.sends[k]?
  match send.phase with
  | .auditing write =>
    let w ← s.runtime.audit.writes[write]?
    match w.delivery with
    | .fulfilled =>
      some { s with
        sends := s.sends.set k { send with phase := .passed (some write) }
        passed := s.passed ++ [(k, send.message)] }
    | .rejected =>
      match send.message.id with
      | some id =>
        some { s with
          sends := s.sends.set k { send with phase := .replaced write }
          passed := s.passed ++ [(k, .auditUnavailable id)] }
      | none => some { s with sends := s.sends.set k { send with phase := .dropped write } }
    | _ => none
  | _ => none

/-- `requests.run({ requestId: randomUUID(), … }, …)` for this request. -/
def opened (rest : List Incoming) (exchange : Exchange) (uuid : JsString) : AuditedMcpServer δ :=
  { s with
    incoming := rest
    runtime := { s.runtime with requests := s.runtime.requests ++ [{ requestId := uuid }] }
    exchanges := s.exchanges ++ [exchange] }

/-- The wrapped `onmessage`. -/
def deliver (uuid : JsString) : Option (AuditedMcpServer δ) :=
  match s.started, s.incoming with
  | true, message :: rest =>
    match message.method, message.id with
    | some method, some id =>
      let request := s.runtime.requests.length
      let toolCall := method == js "tools/call"
      let rejected := toolCall &&
        message.arguments.any (fun g => g.hasReservedToolArgumentKey g.root)
      let opened := s.opened rest { id, toolCall, request, rejected } uuid
      if rejected then
        some (opened.send server (.error (some id) (-32602) (js "Invalid arguments") none)
          (some request) (some s.exchanges.length) uuid)
      else some opened
    | _, _ => some { s with incoming := rest }
  | _, _ => none

/-- The SDK calls the tool of a request. -/
def invoke (x : Nat) (name : JsString) (args : Graph) (caller : Option Thrown) (uuid : JsString) :
    Option (AuditedMcpServer δ) := do
  let exchange ← s.exchanges[x]?
  if exchange.toolCall && !exchange.rejected && exchange.invocation.isNone &&
      server.visibleTools.any (fun tool => tool.name == name) then
    some { s with
      runtime := s.runtime.invoke server.rt
        { principal := server.identity, name, args, caller, requestId := server.requestId
          request := some exchange.request, scope := server.scope, uuid }
      exchanges := s.exchanges.set x { exchange with invocation := some s.runtime.invocations.length } }
  else none

/-- The messages the SDK may make up itself as the answer to a request. -/
def Exchange.accepts (exchange : Exchange) : Message → Bool
  | .error id _ _ _ => id == some exchange.id
  | .result id value => id == exchange.id && (!exchange.toolCall || value.isErrorTrue)
  | .other _ => false

/-- The SDK answers a request with a message of its own. -/
def respond (x : Nat) (message : Message) (uuid : JsString) : Option (AuditedMcpServer δ) := do
  let exchange ← s.exchanges[x]?
  if !exchange.rejected && !exchange.responded && Exchange.accepts exchange message then
    let s' := s.send server message (some exchange.request) (some x) uuid
    some { s' with exchanges := s'.exchanges.set x { exchange with responded := true } }
  else none

/-- The SDK answers a `tools/call` request with what the tool's `invoke` returned. -/
def respondTool (x : Nat) (uuid : JsString) : Option (AuditedMcpServer δ) := do
  let exchange ← s.exchanges[x]?
  let i ← exchange.invocation
  let inv ← s.runtime.invocations[i]?
  match inv.caller with
  | .answered _ value =>
    if !exchange.responded then
      let s' := s.send server (.result exchange.id value) (some exchange.request) (some x) uuid
      some { s' with exchanges := s'.exchanges.set x { exchange with responded := true } }
    else none
  | _ => none

/-- Other code does not run in the requests of this transport. -/
def isForeign : SecureRuntime.Label δ → Bool
  | .invoke call =>
    call.request.all (fun q => !s.exchanges.any (fun exchange => exchange.request == q))
  | _ => true

/-! ## The machine -/

inductive Label (δ : Type)
  /-- The transport receives a message. -/
  | receive (message : Incoming)
  | start
  | deliver (uuid : JsString)
  | invoke (x : Nat) (name : JsString) (args : Graph) (caller : Option Thrown) (uuid : JsString)
  | respond (x : Nat) (message : Message) (uuid : JsString)
  | respondTool (x : Nat) (uuid : JsString)
  /-- The SDK sends a message outside of any request. -/
  | emit (message : Message) (uuid : JsString)
  | audited (k : Nat)
  /-- A step of the runtime: of a call, of the dispatcher, of the controller, or of other code. -/
  | runtime (label : SecureRuntime.Label δ)

def step : Label δ → Option (AuditedMcpServer δ)
  | .receive message => some { s with incoming := s.incoming ++ [message] }
  | .start => some { s with started := true }
  | .deliver uuid => s.deliver server uuid
  | .invoke x name args caller uuid => s.invoke server x name args caller uuid
  | .respond x message uuid => s.respond server x message uuid
  | .respondTool x uuid => s.respondTool server x uuid
  | .emit message uuid =>
    match message with
    | .result _ _ => none
    | _ => some (s.send server message none none uuid)
  | .audited k => s.audited k
  | .runtime label =>
    if s.isForeign label then
      (s.runtime.step server.rt label).map (fun runtime => { s with runtime })
    else none

def machine (server : ServerSetup) (δ : Type) : Machine (AuditedMcpServer δ) (Label δ) :=
  { init := { runtime := (SecureRuntime.machine server.rt δ).init }
    step := fun s l => s.step server l }

end AuditedMcpServer

end SecureMcp
