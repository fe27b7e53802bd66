import SecureMcp.Lib.Machine
import SecureMcp.Lib.Table

set_option autoImplicit false

/-! # `AuditDispatcher` (`src/audit.ts`)

The dispatcher's fields and methods, over any event type. JavaScript runs one synchronous stretch
of code at a time, so the machine has one label per stretch: a call of `write` or `close` up to
its first `await`, a promise callback, a timer callback, or the code after an `await`. Any stretch
that is ready may run next, in any order; the one order that is kept is that a timer callback
never runs while the promise job that calls the sink is still queued.

A promise created by the code is one of two small state machines. `Work` is the promise `work`
of `deliver` (and the promise around `sink.close`); `Delivery` is the race between that promise and
the timer, together with the `async` function that awaits the race. -/

namespace SecureMcp

/-! ## Promises -/

/-- The promise `work` of one `deliver`. -/
inductive Work
  /-- `deliver` threw before making it. -/
  | refused
  /-- The promise job that calls the sink is queued. -/
  | deferred
  /-- The sink was called and returned a promise that has not settled. -/
  | called
  | fulfilled
  | rejected
deriving DecidableEq, Repr

/-- What the called hook did: it threw, or it returned a settled value or a pending promise. -/
inductive SinkReturn
  | promise
  | returned
  | threw
deriving DecidableEq, Repr

/-- `Promise.race([work, timer])` and the `async` function that awaits it. -/
inductive Delivery
  | racing
  /-- The race is fulfilled; the code after `await` has not run. -/
  | won
  /-- The race is rejected; the `catch` block has not run. -/
  | lost
  | fulfilled
  | rejected
deriving DecidableEq, Repr

/-- The three things that can happen to a delivery from outside, in the order they did. -/
inductive Outside
  | sinkFulfilled
  | sinkRejected
  | timer
deriving DecidableEq, Repr

/-- Accepted and not settled: the promise is in `pending`. -/
def Work.unsettled : Work → Bool
  | .deferred | .called => true
  | .refused | .fulfilled | .rejected => false

def Work.ofSettled (ok : Bool) : Work := if ok then .fulfilled else .rejected

/-- The first settlement decides a race; later ones are ignored. -/
def Delivery.settle : Delivery → Bool → Delivery
  | .racing, ok => if ok then .won else .lost
  | d, _ => d

/-- The promise returned by `deliver` has settled. -/
def Delivery.settled : Delivery → Bool
  | .fulfilled | .rejected => true
  | .racing | .won | .lost => false

/-- One call of `write`. -/
structure Write (ε : Type) where
  event : ε
  /-- The store of `AsyncLocalStorage` at the call: the audit scope it belongs to. -/
  scope : Option Nat
  work : Work
  delivery : Delivery
  /-- Bookkeeping only: no method reads it. -/
  observed : List Outside := []

/-- The sink's promise settles, or the hook returned or threw at once. -/
def Write.settleWork {ε : Type} (w : Write ε) (ok : Bool) : Write ε :=
  { w with
    work := Work.ofSettled ok
    delivery := w.delivery.settle ok
    observed := w.observed ++ [if ok then .sinkFulfilled else .sinkRejected] }

/-- The timer of `deliver` rejects its side of the race. -/
def Write.expire {ε : Type} (w : Write ε) : Write ε :=
  { w with delivery := w.delivery.settle false, observed := w.observed ++ [.timer] }

/-- One call of `AuditDispatcher.close`. -/
inductive ClosePhase
  /-- Awaiting the race between the snapshot of `pending` and the timer. -/
  | draining
  /-- The race is decided; the code after `await` has not run. -/
  | drained
  /-- Awaiting `this.sinkClosing`. -/
  | awaitingSink (remaining : Nat)
  | resolved (remaining : Nat)
  | rejected
deriving DecidableEq, Repr

structure CloseCall where
  snapshot : List Nat
  phase : ClosePhase := .draining
  /-- `timeoutMs` has elapsed since this call. -/
  elapsed : Bool := false
deriving DecidableEq, Repr

/-- The promise `closeSink()`: the deferred call of `sink.close` raced with a timer. -/
structure SinkClosing where
  work : Work := .deferred
  delivery : Delivery := .racing
deriving DecidableEq, Repr

/-! ## The dispatcher -/

structure AuditDispatcher (ε : Type) where
  capacity : Nat
  /-- Every call of `write` so far. -/
  writes : List (Write ε) := []
  pending : List Nat := []
  failures : Nat := 0
  dropped : Nat := 0
  closes : List CloseCall := []
  sinkClosing : Option SinkClosing := none
  /-- Bookkeeping only: the writes handed to the sink, in order. -/
  handed : List Nat := []
  /-- Bookkeeping only: how often `sink.close` was invoked. -/
  sinkCloseCalls : Nat := 0

namespace AuditDispatcher

variable {ε : Type} (d : AuditDispatcher ε)

def healthy : Bool := d.failures == 0 && d.dropped == 0

/-- `state`, as `Object.entries` lists it. -/
def state : List (String × Nat) :=
  [("pending", d.pending.length), ("failures", d.failures), ("dropped", d.dropped)]

/-- The events that the sink was called with, in order. -/
def sunk : List ε := d.handed.filterMap (fun i => (d.writes[i]?).map Write.event)

/-- `deliver` throws before it calls the sink. -/
def refuses : Bool := !d.healthy || decide (d.capacity ≤ d.pending.length)

/-- The synchronous part of `write` and of `deliver`. -/
def write (event : ε) (scope : Option Nat) : AuditDispatcher ε :=
  if d.refuses then
    { d with
      dropped := d.dropped + 1
      writes := d.writes ++ [{ event, scope, work := .refused, delivery := .rejected }] }
  else
    { d with
      pending := d.pending ++ [d.writes.length]
      writes := d.writes ++ [{ event, scope, work := .deferred, delivery := .racing }] }

/-- The settlement of `work`: `work.finally` frees the slot, then the race sees it. -/
def settleWork (i : Nat) (w : Write ε) (ok : Bool) : AuditDispatcher ε :=
  { d with pending := d.pending.erase i, writes := d.writes.set i (w.settleWork ok) }

/-- The promise job `() => this.sink(event)`. -/
def callSink (i : Nat) (ret : SinkReturn) : Option (AuditDispatcher ε) := do
  let w ← d.writes[i]?
  if w.work = .deferred then
    let d' := { d with handed := d.handed ++ [i] }
    match ret with
    | .promise => some { d' with writes := d.writes.set i { w with work := .called } }
    | .returned => some (d'.settleWork i w true)
    | .threw => some (d'.settleWork i w false)
  else none

/-- The promise returned by the sink settles. -/
def settle (i : Nat) (ok : Bool) : Option (AuditDispatcher ε) := do
  let w ← d.writes[i]?
  if w.work = .called then some (d.settleWork i w ok) else none

/-- A promise job that calls the sink is queued. -/
def callQueued : Bool := d.writes.any (fun w => w.work == .deferred)

/-- The timer of a delivery; it is armed until the code after `await` clears it. -/
def expire (i : Nat) : Option (AuditDispatcher ε) := do
  let w ← d.writes[i]?
  if !d.callQueued && !w.delivery.settled && !w.observed.contains .timer then
    some { d with writes := d.writes.set i w.expire }
  else none

/-- The code of `deliver` after the race is decided. -/
def resume (i : Nat) : Option (AuditDispatcher ε) := do
  let w ← d.writes[i]?
  match w.delivery with
  | .won => some { d with writes := d.writes.set i { w with delivery := .fulfilled } }
  | .lost =>
    some { d with
      failures := d.failures + 1
      writes := d.writes.set i { w with delivery := .rejected } }
  | _ => none

/-! ### Closing -/

/-- `close()` up to its first `await`: the snapshot of `pending` and the timer. -/
def close : AuditDispatcher ε :=
  { d with closes := d.closes ++ [{ snapshot := d.pending }] }

/-- `Promise.allSettled([...this.pending])` settles: no promise of the snapshot is left. -/
def drain (k : Nat) : Option (AuditDispatcher ε) := do
  let c ← d.closes[k]?
  if c.phase = .draining ∧ c.snapshot.all (fun i => !d.pending.contains i) then
    some { d with closes := d.closes.set k { c with phase := .drained } }
  else none

/-- The timer of one `close` call. -/
def closeExpire (k : Nat) : Option (AuditDispatcher ε) := do
  let c ← d.closes[k]?
  if !d.callQueued && (c.phase = .draining ∨ c.phase = .drained) && !c.elapsed then
    some { d with closes := d.closes.set k { c with phase := .drained, elapsed := true } }
  else none

/-- `close` after its race: count what is left and start `closeSink` once. -/
def closeResume (k : Nat) : Option (AuditDispatcher ε) := do
  let c ← d.closes[k]?
  if c.phase = .drained then
    some { d with
      closes := d.closes.set k { c with phase := .awaitingSink d.pending.length }
      sinkClosing := d.sinkClosing.or (some {}) }
  else none

/-- The promise job `() => this.sink.close?.()`. -/
def callSinkClose (ret : SinkReturn) : Option (AuditDispatcher ε) := do
  let c ← d.sinkClosing
  if c.work = .deferred then
    let d' := { d with sinkCloseCalls := d.sinkCloseCalls + 1 }
    match ret with
    | .promise => some { d' with sinkClosing := some { c with work := .called } }
    | .returned =>
      some { d' with sinkClosing := some { work := .fulfilled, delivery := c.delivery.settle true } }
    | .threw =>
      some { d' with sinkClosing := some { work := .rejected, delivery := c.delivery.settle false } }
  else none

def settleSinkClose (ok : Bool) : Option (AuditDispatcher ε) := do
  let c ← d.sinkClosing
  if c.work = .called then
    some { d with
      sinkClosing := some { work := Work.ofSettled ok, delivery := c.delivery.settle ok } }
  else none

def expireSinkClose : Option (AuditDispatcher ε) := do
  let c ← d.sinkClosing
  if !d.callQueued && c.work ≠ .deferred && c.delivery = .racing then
    some { d with sinkClosing := some { c with delivery := .lost } }
  else none

/-- `closeSink` after its race. -/
def resumeSinkClose : Option (AuditDispatcher ε) := do
  let c ← d.sinkClosing
  match c.delivery with
  | .won => some { d with sinkClosing := some { c with delivery := .fulfilled } }
  | .lost =>
    some { d with
      failures := d.failures + 1
      sinkClosing := some { c with delivery := .rejected } }
  | _ => none

/-- `close` after `await this.sinkClosing`. -/
def closeReturn (k : Nat) : Option (AuditDispatcher ε) := do
  let c ← d.closes[k]?
  let sink ← d.sinkClosing
  match c.phase, sink.delivery with
  | .awaitingSink remaining, .fulfilled =>
    some { d with closes := d.closes.set k { c with phase := .resolved remaining } }
  | .awaitingSink _, .rejected =>
    some { d with closes := d.closes.set k { c with phase := .rejected } }
  | _, _ => none

/-! ## The machine -/

inductive Label (ε : Type)
  | write (event : ε) (scope : Option Nat)
  | callSink (i : Nat) (ret : SinkReturn)
  | settle (i : Nat) (ok : Bool)
  | expire (i : Nat)
  | resume (i : Nat)
  | close
  | drain (k : Nat)
  | closeExpire (k : Nat)
  | closeResume (k : Nat)
  | callSinkClose (ret : SinkReturn)
  | settleSinkClose (ok : Bool)
  | expireSinkClose
  | resumeSinkClose
  | closeReturn (k : Nat)
deriving DecidableEq, Repr

def step : Label ε → Option (AuditDispatcher ε)
  | .write event scope => some (d.write event scope)
  | .callSink i ret => d.callSink i ret
  | .settle i ok => d.settle i ok
  | .expire i => d.expire i
  | .resume i => d.resume i
  | .close => some d.close
  | .drain k => d.drain k
  | .closeExpire k => d.closeExpire k
  | .closeResume k => d.closeResume k
  | .callSinkClose ret => d.callSinkClose ret
  | .settleSinkClose ok => d.settleSinkClose ok
  | .expireSinkClose => d.expireSinkClose
  | .resumeSinkClose => d.resumeSinkClose
  | .closeReturn k => d.closeReturn k

/-- A new dispatcher over some sink; the sink's behaviour is in the labels. -/
def machine (ε : Type) (capacity : Nat) : Machine (AuditDispatcher ε) (Label ε) :=
  { init := { capacity }, step := step }

end AuditDispatcher

end SecureMcp
