import SecureMcp.Audit.Dispatcher
import SecureMcp.Audit.Event
import SecureMcp.Execution.Controller
import SecureMcp.Input

set_option autoImplicit false

/-! # `SecureRuntime.invoke` (`src/runtime.ts`)

The runtime puts the dispatcher and the controller together. A call of `invoke` is two `async`
functions: the one handed to `execution.run`, whose progress is an `OperationPhase`, and `invoke`
itself, which awaits `execution.run` and then perhaps a record, whose progress is a `CallerPhase`.
Each label runs one of them, or one of the components, from one `await` to the next.

What code outside the runtime decides is in the labels: the verdict of the input schema, what the
tool handler returns or throws, the sink's promises, the timers, the aborts of callers, other writes
to the dispatcher, and the clocks. `δ` is the type of what input schemas produce. -/

namespace SecureMcp

structure Limits where
  maxConcurrent : Nat
  maxInputBytes : Nat
  maxInputElements : Nat
  maxOutputBytes : Nat
deriving DecidableEq, Repr

structure RuntimeConfig where
  allowedTools : List JsString
  readOnly : Bool
  maxPending : Nat
  limits : Limits
deriving DecidableEq

/-- What `create` fixes: the configuration and the registered tools, in order. -/
structure RuntimeSetup where
  config : RuntimeConfig
  registry : List ToolPolicy
  sha256 : Bytes → Bytes

namespace RuntimeSetup

variable (rt : RuntimeSetup)

/-- `this.registry.get(name)`. -/
def get (name : JsString) : Option ToolPolicy := rt.registry.find? (fun tool => tool.name == name)

def policy : PolicyOptions :=
  { allowedTools := rt.config.allowedTools, readOnly := rt.config.readOnly }

end RuntimeSetup

/-! ## Results -/

/-- The value of a property is truthy. -/
def Scalar.truthy : Scalar → Bool
  | .null => false
  | .bool value => value
  | .number literal =>
    (literal.text.takeWhile (fun unit => unit != 0x65 && unit != 0x45)).any
      (fun unit => 0x31 ≤ unit && unit ≤ 0x39)
  | .string text => !text.isEmpty

/-- `value.isError` as a condition; `none` when reading the property throws. -/
def Graph.isError (value : Graph) : Option Bool :=
  match value.root with
  | .scalar .null => none
  | .scalar _ => some false
  | .ref address =>
    match value.node address with
    | .array _ _ => some false
    | .object entries _ =>
      match entries.find? (fun entry => entry.1 == js "isError") with
      | some (_, .scalar scalar) => some scalar.truthy
      | some (_, .ref _) => some true
      | none => some false

/-- `{ content: [{ type: 'text', text: outcome }], isError: true }`. -/
def errorResult (outcome : Outcome) : Graph where
  size := 3
  node := fun address =>
    match address with
    | 0 => .object [(js "content", .ref 1), (js "isError", .scalar (.bool true))]
    | 1 => .array [.ref 2]
    | 2 => .object [(js "type", .scalar (.string (js "text"))),
        (js "text", .scalar (.string (js outcome.text)))]
  root := .ref 0

/-- `outcome` of a returned result. -/
def resultOutcome (isError : Bool) : Outcome := if isError then .tool_error else .success

/-! ## One call -/

/-- How `inputSchema.safeParseAsync(args)` settled. -/
inductive Validation (δ : Type)
  | threw
  | failure
  | success (data : δ)

/-- The function handed to `execution.run`. -/
inductive OperationPhase (δ : Type)
  | idle
  /-- Awaiting `safeParseAsync`. -/
  | validating
  /-- Awaiting the `allowed` record, the write of this number. -/
  | allowing (write : Nat) (data : δ)
  /-- Awaiting `tool.invoke`. -/
  | handling (data : δ)
  /-- Awaiting the `success` or `tool_error` record. -/
  | recording (write : Nat) (value : Graph)
  /-- It threw before that record. -/
  | threw (error : Thrown)
  /-- It is over, after that record settled. -/
  | recorded (result : Except Thrown Graph)
  /-- `execution` has seen it settle. -/
  | settled

/-- `invoke` itself. -/
inductive CallerPhase
  /-- Awaiting `execution.run`. -/
  | running
  /-- Awaiting the record of the `catch` block. -/
  | concluding (write : Nat) (outcome : Outcome)
  | answered (outcome : Outcome) (value : Graph)

/-- The arguments of one call of `invoke` and what surrounds it. -/
structure Call where
  principal : Principal
  name : JsString
  args : Graph
  /-- The reason of `signal` when it is aborted already. -/
  caller : Option Thrown := none
  requestId : Option JsString := none
  /-- `currentAuditRequest()`, by its number. -/
  request : Option Nat := none
  /-- The audit scope it runs in. -/
  scope : Option Nat := none
  /-- What `randomUUID()` would return. -/
  uuid : JsString

structure Invocation (δ : Type) where
  call : Call
  tool : Option ToolPolicy
  context : AuditContext
  start : Int
  /-- The row of `execution.run`, once that was called. -/
  run : Option Nat := none
  operation : OperationPhase δ := .idle
  caller : CallerPhase := .running
  /-- Bookkeeping only, like the fields below: `Date.now()` at the call. -/
  invokedAt : Int
  /-- The writes handed to the dispatcher, in order. -/
  records : List Nat := []
  /-- What `inputSchema` was run on. -/
  schemaRuns : List Graph := []
  /-- What the last successful run of `inputSchema` produced. -/
  parsed : Option δ := none
  /-- What the handler was entered with. -/
  entered : List δ := []

/-- The store of the `AsyncLocalStorage` that `connect` runs each request in. -/
structure AuditRequestContext where
  requestId : JsString
  toolOutcomeRecorded : Bool := false
deriving DecidableEq

/-- The promise `closing` of `SecureRuntime.close`. -/
inductive RuntimeClosing
  /-- Awaiting this call of `execution.close`. -/
  | awaitingExecution (k : Nat)
  /-- Awaiting the disposers. -/
  | disposing
  /-- Awaiting this call of `audit.close`. -/
  | awaitingAudit (remaining k : Nat)
  | resolved (remaining : Nat)
  | rejected
deriving DecidableEq, Repr

structure SecureRuntime (δ : Type) where
  audit : AuditDispatcher AuditEvent
  execution : ExecutionController Graph
  invocations : List (Invocation δ) := []
  requests : List AuditRequestContext := []
  /-- A `Map`, in insertion order. -/
  counts : List (Outcome × Nat) := []
  clock : Clock := {}
  closing : Option RuntimeClosing := none

/-- `counts.set(outcome, (counts.get(outcome) ?? 0) + 1)`. -/
def increment (counts : List (Outcome × Nat)) (outcome : Outcome) : List (Outcome × Nat) :=
  match counts with
  | [] => [(outcome, 1)]
  | (first, n) :: rest =>
    if first = outcome then (first, n + 1) :: rest else (first, n) :: increment rest outcome

/-- `counts.get(outcome) ?? 0`. -/
def countOf (counts : List (Outcome × Nat)) (outcome : Outcome) : Nat :=
  match counts.find? (fun entry => entry.1 == outcome) with
  | some (_, n) => n
  | none => 0

namespace SecureRuntime

variable {δ : Type} (rt : RuntimeSetup) (s : SecureRuntime δ)

/-! ### Shared steps -/

/-- `boundedSignal` of a call: its reason once it is aborted. -/
def signal (inv : Invocation δ) : Option Thrown := do
  let row ← inv.run
  let r ← s.execution.runs[row]?
  r.signal

/-- `record(…, event, outcome, start)`, up to the sink's promise. -/
def record (inv : Invocation δ) (outcome : Outcome) : AuditDispatcher AuditEvent :=
  s.audit.write (recordEvent inv.context .tool outcome inv.start s.clock) inv.call.scope

def setInvocation (i : Nat) (inv : Invocation δ) : SecureRuntime δ :=
  { s with invocations := s.invocations.set i inv }

/-- `request.toolOutcomeRecorded = true`, if there is a request. -/
def markRecorded (request : Option Nat) : List AuditRequestContext :=
  match request with
  | none => s.requests
  | some q => s.requests.modify q (fun context => { context with toolOutcomeRecorded := true })

/-! ### The call -/

/-- What the `try` block throws before `execution.run`. -/
def refusal (call : Call) (tool : Option ToolPolicy) : Option Thrown :=
  match tool with
  | none => some (.runtimeFailure .denied)
  | some tool =>
    if !mayInvoke rt.policy call.principal tool s.clock.date then some (.runtimeFailure .denied)
    else if !call.args.withinInputElementLimit rt.config.limits.maxInputElements then
      some (.runtimeFailure .invalid_input)
    else
      match call.args.byteLength with
      | none => some (.other "Converting circular structure to JSON")
      | some length =>
        if rt.config.limits.maxInputBytes < length then some (.runtimeFailure .invalid_input)
        else none

/-- The `catch` block up to its `await`, for the call that becomes or is row `inv`: the dispatcher,
    the counters and the row after it. -/
def fail (inv : Invocation δ) (error : Thrown) :
    AuditDispatcher AuditEvent × List (Outcome × Nat) × Invocation δ :=
  let outcome := Outcome.failure (failureCode error)
  if failureCode error = .audit_unavailable then
    (s.audit, increment s.counts outcome,
      { inv with caller := .answered outcome (errorResult outcome) })
  else
    (s.record inv outcome, s.counts,
      { inv with
        caller := .concluding s.audit.writes.length outcome
        records := inv.records ++ [s.audit.writes.length] })

/-- The row of a call as `invoke` sets it up: the tool it looks up and the context of its records. -/
def opened (call : Call) : Invocation δ :=
  let tool := rt.get call.name
  let request := call.request.bind (fun q => s.requests[q]?)
  { call, tool
    context := auditContext rt.sha256 call.principal
      (match tool with
        | some tool => tool.name
        | none => js "unknown")
      ((call.requestId.or (request.map AuditRequestContext.requestId)).getD call.uuid)
    start := s.clock.performance
    invokedAt := s.clock.date }

/-- `invoke` up to its first `await`. -/
def invoke (call : Call) : SecureRuntime δ :=
  let inv := s.opened rt call
  match s.refusal rt call inv.tool with
  | some error =>
    let (audit, counts, inv) := s.fail inv error
    { s with audit, counts, invocations := s.invocations ++ [inv] }
  | none =>
    { s with
      execution := s.execution.run call.caller
      invocations := s.invocations ++ [{ inv with run := some s.execution.runs.length }] }

/-! ### The operation -/

/-- The promise job that starts it: it is refused over an aborted signal, or calls
    `inputSchema.safeParseAsync(args)`. -/
def start (i : Nat) : Option (SecureRuntime δ) := do
  let inv ← s.invocations[i]?
  let row ← inv.run
  let execution ← s.execution.start row
  match s.signal inv with
  | some _ => some ({ s with execution }.setInvocation i { inv with operation := .settled })
  | none =>
    some ({ s with execution }.setInvocation i
      { inv with operation := .validating, schemaRuns := inv.schemaRuns ++ [inv.call.args] })

/-- After `await safeParseAsync`, up to the `allowed` record. -/
def validated (i : Nat) (validation : Validation δ) : Option (SecureRuntime δ) := do
  let inv ← s.invocations[i]?
  match inv.operation with
  | .validating =>
    match validation, s.signal inv with
    | .threw, _ =>
      some (s.setInvocation i { inv with operation := .threw (.runtimeFailure .invalid_input) })
    | .failure, some reason | .success _, some reason =>
      some (s.setInvocation i { inv with operation := .threw reason })
    | .failure, none =>
      some (s.setInvocation i { inv with operation := .threw (.runtimeFailure .invalid_input) })
    | .success data, none =>
      some ({ s with audit := s.record inv .allowed }.setInvocation i
        { inv with
          operation := .allowing s.audit.writes.length data
          parsed := some data
          records := inv.records ++ [s.audit.writes.length] })
  | _ => none

/-- After the `allowed` record: the call of `tool.invoke`. -/
def admitted (i : Nat) : Option (SecureRuntime δ) := do
  let inv ← s.invocations[i]?
  match inv.operation with
  | .allowing write data =>
    let w ← s.audit.writes[write]?
    match w.delivery, s.signal inv with
    | .rejected, _ =>
      some (s.setInvocation i { inv with operation := .threw (.runtimeFailure .audit_unavailable) })
    | .fulfilled, some reason => some (s.setInvocation i { inv with operation := .threw reason })
    | .fulfilled, none =>
      some (s.setInvocation i
        { inv with operation := .handling data, entered := inv.entered ++ [data] })
    | _, _ => none
  | _ => none

/-- What follows a result of the handler: the size check, then the record. -/
def afterHandler (inv : Invocation δ) (value : Graph) : Except Thrown Outcome :=
  match s.signal inv with
  | some reason => .error reason
  | none =>
    match value.byteLength, value.isError with
    | none, _ => .error (.other "Converting circular structure to JSON")
    | some length, isError =>
      if rt.config.limits.maxOutputBytes < length then .error (.runtimeFailure .output_too_large)
      else
        match isError with
        | none => .error (.other "Cannot read properties of null")
        | some isError => .ok (resultOutcome isError)

/-- After `await tool.invoke`, up to the `success` or `tool_error` record. -/
def handled (i : Nat) (result : Except Thrown Graph) : Option (SecureRuntime δ) := do
  let inv ← s.invocations[i]?
  match inv.operation with
  | .handling _ =>
    match result with
    | .error error => some (s.setInvocation i { inv with operation := .threw error })
    | .ok value =>
      match s.afterHandler rt inv value with
      | .error error => some (s.setInvocation i { inv with operation := .threw error })
      | .ok outcome =>
        some ({ s with audit := s.record inv outcome }.setInvocation i
          { inv with
            operation := .recording s.audit.writes.length value
            records := inv.records ++ [s.audit.writes.length] })
  | _ => none

/-- After that record. -/
def recorded (i : Nat) : Option (SecureRuntime δ) := do
  let inv ← s.invocations[i]?
  match inv.operation with
  | .recording write value =>
    let w ← s.audit.writes[write]?
    match w.delivery with
    | .rejected =>
      some (s.setInvocation i
        { inv with operation := .recorded (.error (.runtimeFailure .audit_unavailable)) })
    | .fulfilled =>
      some ({ s with requests := s.markRecorded inv.call.request }.setInvocation i
        { inv with operation := .recorded (.ok value) })
    | _ => none
  | _ => none

/-- The promise `work` of `execution.run` settles with the operation's promise. -/
def settled (i : Nat) : Option (SecureRuntime δ) := do
  let inv ← s.invocations[i]?
  let row ← inv.run
  match inv.operation with
  | .threw error =>
    let execution ← s.execution.settle row (.error error)
    some ({ s with execution }.setInvocation i { inv with operation := .settled })
  | .recorded result =>
    let execution ← s.execution.settle row result
    some ({ s with execution }.setInvocation i { inv with operation := .settled })
  | _ => none

/-! ### The answer -/

/-- How the promise of `execution.run` has settled. -/
def runResult (row : Nat) : Option (Except Thrown Graph) := do
  let r ← s.execution.runs[row]?
  r.result

/-- `invoke` after `await execution.run`, up to its return or the record of the `catch` block. -/
def answered (i : Nat) : Option (SecureRuntime δ) := do
  let inv ← s.invocations[i]?
  let row ← inv.run
  let result ← s.runResult row
  match inv.caller with
  | .running =>
    let s' := { s with execution := (s.execution.answer row).getD s.execution }
    let failed := fun error =>
      let (audit, counts, inv) := s.fail inv error
      ({ s' with audit, counts } : SecureRuntime δ).setInvocation i inv
    match result with
    | .error error => some (failed error)
    | .ok value =>
      match value.isError with
      | none => some (failed (.other "Cannot read properties of null"))
      | some isError =>
        let outcome := resultOutcome isError
        some ({ s' with counts := increment s.counts outcome }.setInvocation i
          { inv with caller := .answered outcome value })
  | _ => none

/-- The `catch` block after its record, and `finally`. -/
def concluded (i : Nat) : Option (SecureRuntime δ) := do
  let inv ← s.invocations[i]?
  match inv.caller with
  | .concluding write outcome =>
    let w ← s.audit.writes[write]?
    match w.delivery with
    | .fulfilled =>
      some ({ s with
          requests := s.markRecorded inv.call.request
          counts := increment s.counts outcome }.setInvocation i
        { inv with caller := .answered outcome (errorResult outcome) })
    | .rejected =>
      let outcome := Outcome.failure .audit_unavailable
      some ({ s with counts := increment s.counts outcome }.setInvocation i
        { inv with caller := .answered outcome (errorResult outcome) })
    | _ => none
  | _ => none

/-! ### Metrics -/

def metrics : JsString :=
  js "# TYPE secure_mcp_active gauge\nsecure_mcp_active " ++ js (toString s.execution.running) ++
    js "\n" ++ js "# TYPE secure_mcp_calls_total counter\n" ++
    s.counts.flatMap (fun entry =>
      js ("secure_mcp_calls_total\x7boutcome=\"" ++ entry.1.text ++ "\"\x7d " ++ toString entry.2 ++
        "\n")) ++
    s.audit.state.flatMap (fun entry =>
      js ("secure_mcp_audit_" ++ entry.1 ++ " " ++ toString entry.2 ++ "\n"))

/-! ### Closing -/

/-- `close`: every call returns the promise of the first one. -/
def close : SecureRuntime δ :=
  match s.closing with
  | some _ => s
  | none =>
    { s with
      execution := s.execution.close
      closing := some (.awaitingExecution s.execution.closes.length) }

/-- After `await this.execution.close(…)`: dispose, or go on to `this.audit.close()`. -/
def closeExecution : Option (SecureRuntime δ) := do
  match ← s.closing with
  | .awaitingExecution k =>
    let returned ← s.execution.closes[k]?
    match ← returned with
    | 0 => some { s with closing := some .disposing }
    | remaining =>
      some { s with
        audit := s.audit.close
        closing := some (.awaitingAudit remaining s.audit.closes.length) }
  | _ => none

/-- The disposers have settled. -/
def disposed (ok : Bool) : Option (SecureRuntime δ) := do
  match ← s.closing with
  | .disposing =>
    if ok then
      some { s with
        audit := s.audit.close
        closing := some (.awaitingAudit 0 s.audit.closes.length) }
    else some { s with closing := some .rejected }
  | _ => none

/-- After `await this.audit.close()`. -/
def closeAudit : Option (SecureRuntime δ) := do
  match ← s.closing with
  | .awaitingAudit remaining k =>
    let c ← s.audit.closes[k]?
    match c.phase with
    | .resolved pending => some { s with closing := some (.resolved (remaining + pending)) }
    | .rejected => some { s with closing := some .rejected }
    | _ => none
  | _ => none

end SecureRuntime

/-! ## The machine -/

/-- The steps of the controller that are not taken by `invoke`. -/
def ExecutionController.Label.isOutside {τ : Type} : ExecutionController.Label τ → Bool
  | .run _ | .start _ | .settle _ _ | .answer _ => false
  | .expire _ | .abort _ _ | .close | .drainSettled | .drainExpire | .drainResume
  | .closeReturn _ => true

namespace SecureRuntime

variable {δ : Type}

inductive Label (δ : Type)
  /-- Time passes: the date is set to any value, `performance.now()` goes on. -/
  | tick (date : Int) (elapsed : Nat)
  /-- `connect` runs a request in a new context. -/
  | openRequest (requestId : JsString)
  | invoke (call : Call)
  | start (i : Nat)
  | validated (i : Nat) (validation : Validation δ)
  | admitted (i : Nat)
  | handled (i : Nat) (result : Except Thrown Graph)
  | recorded (i : Nat)
  | settled (i : Nat)
  | answered (i : Nat)
  | concluded (i : Nat)
  | close
  | closeExecution
  | disposed (ok : Bool)
  | closeAudit
  /-- A step of the dispatcher: a promise, a timer, or a write of other code. -/
  | audit (label : AuditDispatcher.Label AuditEvent)
  /-- A step of the controller: a timer, an abort of a caller, or a step of `close`. -/
  | execution (label : ExecutionController.Label Graph)

def step (rt : RuntimeSetup) (s : SecureRuntime δ) : Label δ → Option (SecureRuntime δ)
  | .tick date elapsed =>
    some { s with clock := { date, performance := s.clock.performance + elapsed } }
  | .openRequest requestId => some { s with requests := s.requests ++ [{ requestId }] }
  | .invoke call =>
    -- a store is an object that `connect` has made
    if call.request.all (fun q => decide (q < s.requests.length)) then some (s.invoke rt call)
    else none
  | .start i => s.start i
  | .validated i validation => s.validated i validation
  | .admitted i => s.admitted i
  | .handled i result => s.handled rt i result
  | .recorded i => s.recorded i
  | .settled i => s.settled i
  | .answered i => s.answered i
  | .concluded i => s.concluded i
  | .close => some s.close
  | .closeExecution => s.closeExecution
  | .disposed ok => s.disposed ok
  | .closeAudit => s.closeAudit
  | .audit label => (s.audit.step label).map (fun audit => { s with audit })
  | .execution label =>
    if label.isOutside then (s.execution.step label).map (fun execution => { s with execution })
    else none

def machine (rt : RuntimeSetup) (δ : Type) : Machine (SecureRuntime δ) (Label δ) :=
  { init :=
      { audit := { capacity := rt.config.maxPending }
        execution := { maxConcurrent := rt.config.limits.maxConcurrent } }
    step := step rt }

end SecureRuntime

end SecureMcp
