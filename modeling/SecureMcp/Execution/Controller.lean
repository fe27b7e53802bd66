import SecureMcp.Lib.Machine
import SecureMcp.Lib.Table
import SecureMcp.Errors

set_option autoImplicit false

/-! # `ExecutionController` (`src/execution.ts`)

One row per call of `run`, in the order of the calls. A row follows three things that end at
different times: the operation behind `work`, the signal the operation is given, and the race
between `work` and the abort of that signal, which is what the caller awaits. The slot is held
until the operation settles, whatever the caller was told.

As in the dispatcher, a label is one synchronous stretch of code: a call up to its first `await`,
the deferred start of an operation, its settlement, a timer, an abort of the caller's signal, or the
code after an `await`. -/

namespace SecureMcp

/-- The promise `work` of one `run`. -/
inductive Operation
  /-- `run` threw before taking a slot. -/
  | refused (code : FailureCode)
  /-- The promise job that starts the operation is queued. -/
  | deferred
  | running
  | settled
deriving DecidableEq, Repr

/-- `Promise.race([work, aborted])`. -/
inductive Race (τ : Type)
  | pending
  /-- The operation settled first, with its own value or error. -/
  | operation (result : Except Thrown τ)
  /-- The signal was aborted first; `onAbort` rejects with this code. -/
  | aborted (code : FailureCode)

namespace Race

variable {τ : Type}

/-- The first settlement decides. -/
def settle (race next : Race τ) : Race τ :=
  match race with
  | .pending => next
  | settled => settled

def isPending : Race τ → Bool
  | .pending => true
  | _ => false

end Race

/-- One call of `run`. -/
structure Run (τ : Type) where
  operation : Operation
  /-- `controller.signal.reason`; only `RuntimeFailure`s are ever passed to `controller.abort`. -/
  reason : Option FailureCode := none
  /-- The caller's own signal, with its reason once it is aborted. -/
  caller : Option Thrown := none
  /-- `AbortSignal.any([caller, controller.signal])`: the reason of whichever aborted first. -/
  signal : Option Thrown := none
  race : Race τ := .pending
  /-- The deadline timer is armed. -/
  timer : Bool := true
  /-- `run` has returned to its caller. -/
  answered : Bool := false
  /-- Bookkeeping only: how often the operation was started. -/
  started : Nat := 0

namespace Run

variable {τ : Type} (r : Run τ)

/-- The entry is in `active`: accepted, and the operation has not settled. -/
def occupies : Bool :=
  match r.operation with
  | .deferred | .running => true
  | .refused _ | .settled => false

/-- How the promise of `run` settles. -/
def result : Option (Except Thrown τ) :=
  match r.operation, r.race with
  | .refused code, _ => some (.error (.runtimeFailure code))
  | _, .pending => none
  | _, .operation result => some result
  | _, .aborted code => some (.error (.runtimeFailure code))

/-- What the listener `onAbort` rejects with: it reads the controller's reason when it runs. -/
def onAbort : FailureCode :=
  match r.reason with
  | some code => code
  | none => .cancelled

/-- A source of `signal` is aborted with `reason`: the first one aborts `signal` too. -/
def abortSignal (reason : Thrown) : Run τ :=
  match r.signal with
  | some _ => r
  | none => { r with signal := some reason, race := r.race.settle (.aborted r.onAbort) }

/-- `controller.abort(new RuntimeFailure(code))`; a second abort does nothing. -/
def abortController (code : FailureCode) : Run τ :=
  match r.reason with
  | some _ => r
  | none => ({ r with reason := some code } : Run τ).abortSignal (.runtimeFailure code)

/-- The caller's signal is aborted with any reason. -/
def abortCaller (reason : Thrown) : Run τ :=
  match r.caller with
  | some _ => r
  | none => ({ r with caller := some reason } : Run τ).abortSignal reason

/-- `work` settles: the race sees it, the timer is cleared and the entry leaves `active`. -/
def settle (result : Except Thrown τ) : Run τ :=
  { r with operation := .settled, race := r.race.settle (.operation result), timer := false }

end Run

inductive DrainPhase
  /-- Awaiting the race between the settlements and the grace timer. -/
  | waiting
  /-- The race is decided; the code after `await` has not run. -/
  | decided
  | resolved (remaining : Nat)
deriving DecidableEq, Repr

/-- The promise of `drain`. -/
structure Drain where
  snapshot : List Nat
  phase : DrainPhase := .waiting
  /-- The grace timer has fired. -/
  elapsed : Bool := false
deriving DecidableEq, Repr

structure ExecutionController (τ : Type) where
  maxConcurrent : Nat
  runs : List (Run τ) := []
  active : List Nat := []
  closing : Bool := false
  shutdown : Option Drain := none
  /-- What each call of `close` has resolved to. -/
  closes : List (Option Nat) := []

namespace ExecutionController

variable {τ : Type} (c : ExecutionController τ)

def running : Nat := c.active.length

/-- The refusals at the head of `run`, in the source's order. -/
def refusal (caller : Option Thrown) : Option FailureCode :=
  if c.closing then some .shutting_down
  else if caller.isSome then some .cancelled
  else if c.maxConcurrent ≤ c.active.length then some .busy
  else none

/-- `run` up to its `await`; `caller` is the abort reason of a signal that is already aborted. -/
def run (caller : Option Thrown) : ExecutionController τ :=
  match c.refusal caller with
  | some code =>
    { c with runs := c.runs ++
        [{ operation := .refused code, timer := false }] }
  | none =>
    { c with
      runs := c.runs ++ [{ operation := .deferred }]
      active := c.active ++ [c.runs.length] }

/-- `entry.settled`: the operation of row `i` settles. -/
def settleRun (i : Nat) (r : Run τ) (result : Except Thrown τ) : ExecutionController τ :=
  { c with runs := c.runs.set i (r.settle result), active := c.active.erase i }

/-- The promise job `() => { signal.throwIfAborted(); return operation(signal); }`. -/
def start (i : Nat) : Option (ExecutionController τ) := do
  let r ← c.runs[i]?
  if r.operation = .deferred then
    match r.signal with
    | some reason => some (c.settleRun i r (.error reason))
    | none =>
      some { c with runs := c.runs.set i { r with operation := .running, started := r.started + 1 } }
  else none

/-- The promise returned by the operation settles. -/
def settle (i : Nat) (result : Except Thrown τ) : Option (ExecutionController τ) := do
  let r ← c.runs[i]?
  if r.operation = .running then some (c.settleRun i r result) else none

/-- The deadline timer. -/
def expire (i : Nat) : Option (ExecutionController τ) := do
  let r ← c.runs[i]?
  if r.timer then
    some { c with
      runs := c.runs.set i (({ r with timer := false } : Run τ).abortController .timeout) }
  else none

/-- The caller aborts its signal; a refused `run` has no listener on it. -/
def abort (i : Nat) (reason : Thrown) : Option (ExecutionController τ) := do
  let r ← c.runs[i]?
  match r.operation with
  | .refused _ => none
  | _ => some { c with runs := c.runs.set i (r.abortCaller reason) }

/-- `run` after its race: the listener is removed and the caller is answered. -/
def answer (i : Nat) : Option (ExecutionController τ) := do
  let r ← c.runs[i]?
  if !r.race.isPending && !r.answered then
    some { c with runs := c.runs.set i { r with answered := true } }
  else none

/-! ### Closing -/

/-- `drain` up to its `await`: refuse new runs and abort every active one. -/
def drain : ExecutionController τ :=
  { c with
    closing := true
    runs := c.runs.mapIdx
      (fun i r => if c.active.contains i then r.abortController .shutting_down else r)
    shutdown := some { snapshot := c.active } }

/-- `close`: every call returns the promise of the first `drain`. -/
def close : ExecutionController τ :=
  let c' := match c.shutdown with
    | some _ => c
    | none => c.drain
  { c' with closes := c'.closes ++ [none] }

/-- `Promise.all` of the snapshot's settlements. -/
def drainSettled : Option (ExecutionController τ) := do
  let s ← c.shutdown
  if s.phase = .waiting ∧ s.snapshot.all (fun i => !c.active.contains i) then
    some { c with shutdown := some { s with phase := .decided } }
  else none

/-- The grace timer. -/
def drainExpire : Option (ExecutionController τ) := do
  let s ← c.shutdown
  if (s.phase = .waiting ∨ s.phase = .decided) ∧ s.elapsed = false then
    some { c with shutdown := some { s with phase := .decided, elapsed := true } }
  else none

/-- `drain` after its race: `return this.active.size`. -/
def drainResume : Option (ExecutionController τ) := do
  let s ← c.shutdown
  if s.phase = .decided then
    some { c with shutdown := some { s with phase := .resolved c.active.length } }
  else none

/-- A caller of `close` sees the promise resolve. -/
def closeReturn (k : Nat) : Option (ExecutionController τ) := do
  let s ← c.shutdown
  let returned ← c.closes[k]?
  match s.phase, returned with
  | .resolved remaining, none => some { c with closes := c.closes.set k (some remaining) }
  | _, _ => none

/-! ## The machine -/

inductive Label (τ : Type)
  | run (caller : Option Thrown)
  | start (i : Nat)
  | settle (i : Nat) (result : Except Thrown τ)
  | expire (i : Nat)
  | abort (i : Nat) (reason : Thrown)
  | answer (i : Nat)
  | close
  | drainSettled
  | drainExpire
  | drainResume
  | closeReturn (k : Nat)

def step : Label τ → Option (ExecutionController τ)
  | .run caller => some (c.run caller)
  | .start i => c.start i
  | .settle i result => c.settle i result
  | .expire i => c.expire i
  | .abort i reason => c.abort i reason
  | .answer i => c.answer i
  | .close => some c.close
  | .drainSettled => c.drainSettled
  | .drainExpire => c.drainExpire
  | .drainResume => c.drainResume
  | .closeReturn k => c.closeReturn k

def machine (τ : Type) (maxConcurrent : Nat) : Machine (ExecutionController τ) (Label τ) :=
  { init := { maxConcurrent }, step := step }

end ExecutionController

end SecureMcp
