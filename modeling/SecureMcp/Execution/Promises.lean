import SecureMcp.Execution.Controller

set_option autoImplicit false

/-! # The promises of one `run` (`src/execution.ts`)

`ExecutionController` takes an abort and the settlement of an operation for single steps. Here they are
taken apart: the promise queue with the jobs of one accepted `run`, the promises `work`, `aborted` and
their race, and the three signals. Between two jobs of this `run` anything else may happen that code
does: the operation settles, the caller aborts, `close` is called. The deadline is a timer, and timers
wait until the queue is empty. An abort of the caller's signal first runs the listeners of that signal,
which are other code, and then those of the merged one; no job and no timer runs in between, nor before
`operation(signal)` has returned.

`occurred` and `reached` are bookkeeping: the causes in the order in which they happen, and in
the order in which this `run` gets to see them. -/

namespace SecureMcp

/-- A job of the promise queue. -/
inductive PromiseJob
  /-- `() => { signal.throwIfAborted(); return operation(signal); }`. -/
  | start
  /-- `work` subscribes to the promise the operation has returned. -/
  | subscribe
  /-- That promise has settled: so does `work`. -/
  | adopt
  /-- The first `then` behind `entry.settled`. -/
  | unwrap
  /-- Its `finally`. -/
  | cleanup
  /-- The race sees `work`. -/
  | raceWork
  /-- The race sees `aborted`. -/
  | raceAborted
  /-- `run` after its `await`. -/
  | resume
deriving DecidableEq, Repr

/-- `operation(signal)`. -/
inductive OperationCall (τ : Type)
  | uncalled
  /-- It has not yet returned, and may itself abort the caller or call `close`. -/
  | running
  | threw (error : Thrown)
  /-- It returned a promise: whether `work` has subscribed to it, and how it has settled. -/
  | returned (subscribed : Bool) (result : Option (Except Thrown τ))

/-- How the operation has settled. -/
def OperationCall.settlement {τ : Type} : OperationCall τ → Option (Except Thrown τ)
  | uncalled | running => none
  | threw error => some (.error error)
  | returned _ result => result

/-- What may end a `run`. -/
inductive Cause (τ : Type)
  | operation (result : Except Thrown τ)
  | timeout
  | shutdown
  | cancelled

/-- How a `run` settles over a cause. -/
def Cause.verdict {τ : Type} : Cause τ → Except Thrown τ
  | operation result => result
  | timeout => .error (.runtimeFailure .timeout)
  | shutdown => .error (.runtimeFailure .shutting_down)
  | cancelled => .error (.runtimeFailure .cancelled)

structure RunPromises (τ : Type) where
  jobs : List PromiseJob := [.start]
  /-- `caller.reason`. -/
  caller : Option Thrown := none
  /-- `controller.signal.reason`. -/
  controller : Option FailureCode := none
  /-- `signal.reason`. -/
  signal : Option Thrown := none
  /-- The listeners of the caller's signal run; those of `signal` are next. -/
  dispatching : Bool := false
  operation : OperationCall τ := .uncalled
  work : Option (Except Thrown τ) := none
  /-- What `aborted` was rejected with. -/
  aborted : Option FailureCode := none
  race : Option (Except Thrown τ) := none
  /-- The promise of `run`. -/
  result : Option (Except Thrown τ) := none
  /-- The entry is in `active`. -/
  active : Bool := true
  timer : Bool := true
  /-- `onAbort` is a listener of `signal`. -/
  listening : Bool := true
  occurred : List (Cause τ) := []
  reached : List (Cause τ) := []

namespace RunPromises

variable {τ : Type} (s : RunPromises τ)

/-! ## Promises and signals -/

def occurs (cause : Cause τ) : RunPromises τ := { s with occurred := s.occurred ++ [cause] }

def reaches (cause : Cause τ) : RunPromises τ := { s with reached := s.reached ++ [cause] }

/-- The job at the head of the queue is taken. -/
def take (rest : List PromiseJob) : RunPromises τ := { s with jobs := rest }

def settleWork (result : Except Thrown τ) : RunPromises τ :=
  { s with work := some result, jobs := s.jobs ++ [.unwrap, .raceWork] }

/-- The first promise of the race that is seen to settle settles the race. -/
def settleRace (value : Option (Except Thrown τ)) : RunPromises τ :=
  match s.race with
  | some _ => s
  | none => { s with race := value, jobs := s.jobs ++ [.resume] }

/-- `controller.signal.reason instanceof RuntimeFailure ? … : new RuntimeFailure('cancelled')`. -/
def abortCode : FailureCode := s.controller.getD .cancelled

def rejection : Option (Except Thrown τ) := s.aborted.map (fun code => .error (.runtimeFailure code))

/-- The `abort` event of `signal`. -/
def onAbort : RunPromises τ :=
  if s.listening && s.aborted.isNone then
    { s with aborted := some s.abortCode, jobs := s.jobs ++ [.raceAborted] }
  else s

/-- `controller.abort(new RuntimeFailure(code))`: nothing but `signal` follows this controller. -/
def abortController (code : FailureCode) (cause : Cause τ) : RunPromises τ :=
  match s.controller with
  | some _ => s
  | none =>
    let s : RunPromises τ := { s.reaches cause with controller := some code }
    match s.signal with
    | some _ => s
    | none => ({ s with signal := some (.runtimeFailure code) } : RunPromises τ).onAbort

/-! ## Steps -/

/-- No code of this `run`, and none it has called, is on the stack. -/
def idle : Bool :=
  match s.operation with
  | .running => false
  | _ => !s.dispatching

/-- The job at the head of the queue. -/
def run : PromiseJob → List PromiseJob → Option (RunPromises τ)
  | .start, rest =>
    match s.signal with
    | some reason => some ((s.take rest).settleWork (.error reason))
    | none => some { s with jobs := rest, operation := .running }
  | .subscribe, rest =>
    match s.operation with
    | .returned _ none => some { s with jobs := rest, operation := .returned true none }
    | .returned _ (some result) =>
      some { s with jobs := rest ++ [.adopt], operation := .returned true (some result) }
    | _ => none
  | .adopt, rest =>
    match s.operation with
    | .returned _ (some result) =>
      some (((s.take rest).reaches (.operation result)).settleWork result)
    | _ => none
  | .unwrap, rest => some { s with jobs := rest ++ [.cleanup] }
  | .cleanup, rest => some { s with jobs := rest, active := false, timer := false }
  | .raceWork, rest => some ((s.take rest).settleRace s.work)
  | .raceAborted, rest => some ((s.take rest).settleRace s.rejection)
  | .resume, rest => some { s with jobs := rest, result := s.race, listening := false }

/-- `operation(signal)` throws, or returns a promise. -/
def leave (threw : Option Thrown) : Option (RunPromises τ) :=
  match s.operation, s.dispatching, threw with
  | .running, false, some error =>
    let s : RunPromises τ := { s with operation := .threw error }
    some (((s.occurs (.operation (.error error))).reaches (.operation (.error error))).settleWork
      (.error error))
  | .running, false, none =>
    some { s with jobs := s.jobs ++ [.subscribe], operation := .returned false none }
  | _, _, _ => none

/-- The promise returned by the operation settles. -/
def settle (result : Except Thrown τ) : Option (RunPromises τ) :=
  match s.operation with
  | .returned subscribed none =>
    some { s.occurs (.operation result) with
      operation := .returned subscribed (some result)
      jobs := if subscribed then s.jobs ++ [.adopt] else s.jobs }
  | _ => none

/-- The deadline timer, once no promise job is left. -/
def expire : Option (RunPromises τ) :=
  if s.timer && s.idle && s.jobs.isEmpty then
    let s : RunPromises τ := { s.occurs .timeout with timer := false }
    some (s.abortController .timeout .timeout)
  else none

/-- `close` reaches this entry, if it is still active. -/
def close : RunPromises τ :=
  if s.active then (s.occurs .shutdown).abortController .shutting_down .shutdown else s

/-- The caller aborts its signal, up to the listeners of that signal. -/
def abort (reason : Thrown) : Option (RunPromises τ) :=
  match s.caller, s.signal with
  | some _, _ => none
  | none, some _ => some { s.occurs .cancelled with caller := some reason }
  | none, none =>
    some { s.occurs .cancelled with
      caller := some reason
      signal := some reason
      dispatching := true }

/-- The listeners of `signal`, after those of the caller's signal. -/
def dispatch : Option (RunPromises τ) :=
  if s.dispatching then
    let s : RunPromises τ := { s.reaches .cancelled with dispatching := false }
    some s.onAbort
  else none

/-! ## The machine -/

inductive Label (τ : Type)
  /-- The next job. -/
  | job
  | leave (threw : Option Thrown)
  | settle (result : Except Thrown τ)
  | expire
  | close
  | abort (reason : Thrown)
  | dispatch

def step : Label τ → Option (RunPromises τ)
  | .job =>
    match s.idle, s.jobs with
    | true, job :: rest => s.run job rest
    | _, _ => none
  | .leave threw => s.leave threw
  | .settle result => s.settle result
  | .expire => s.expire
  | .close => some s.close
  | .abort reason => s.abort reason
  | .dispatch => s.dispatch

/-- An accepted `run`, from its `await` on. -/
def machine (τ : Type) : Machine (RunPromises τ) (Label τ) :=
  { init := {}, step := step }

end RunPromises

end SecureMcp
