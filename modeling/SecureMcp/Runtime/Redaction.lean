import SecureMcp.Execution.Payloads
import SecureMcp.Runtime.Invoke

set_option autoImplicit false

/-! # The runtime without content

`redact` takes out of a runtime everything that callers and tools can choose freely: names, arguments,
parsed data, results up to `isError`, and the messages of exceptions that are no `RuntimeFailure`.
What is left runs by itself: every step commutes with `redact` (`step_redact`), except for the two
that bring content in, a call and a result of a handler. -/

namespace SecureMcp

/-! ## Values -/

/-- Only the code of a `RuntimeFailure` is kept. -/
def Thrown.redact : Thrown → Thrown
  | .runtimeFailure code => .runtimeFailure code
  | .other _ => .other ""

theorem failureCode_redact (error : Thrown) : failureCode error.redact = failureCode error := by
  cases error <;> rfl

namespace Graph

/-- `null`. -/
def blank : Graph where
  size := 0
  node := fun address => address.elim0
  root := .scalar .null

/-- Only `isError` is kept. -/
def redact (value : Graph) : Graph :=
  match value.isError with
  | none => blank
  | some isError =>
    { size := 1
      node := fun _ => .object [(js "isError", .scalar (.bool isError))]
      root := .ref 0 }

@[simp] theorem isError_redact (value : Graph) : value.redact.isError = value.isError := by
  unfold redact
  cases value.isError with
  | none => rfl
  | some flag => cases flag <;> rfl

end Graph

def redactResult : Except Thrown Graph → Except Thrown Graph := mapResult Thrown.redact Graph.redact

def ExecutionController.redact (c : ExecutionController Graph) : ExecutionController Graph :=
  c.map Thrown.redact Graph.redact

/-! ## Rows -/

variable {δ : Type}

def Call.redact (call : Call) : Call := { call with name := [], args := .blank, caller := none }

def Validation.redact : Validation δ → Validation Unit
  | .threw => .threw
  | .failure => .failure
  | .success _ => .success ()

def OperationPhase.redact : OperationPhase δ → OperationPhase Unit
  | .idle => .idle
  | .validating => .validating
  | .allowing write _ => .allowing write ()
  | .handling _ => .handling ()
  | .recording write value => .recording write value.redact
  | .threw error => .threw error.redact
  | .recorded result => .recorded (redactResult result)
  | .settled => .settled

/-- The result of a failed call was made by the runtime. -/
def CallerPhase.redact : CallerPhase → CallerPhase
  | .running => .running
  | .concluding write outcome => .concluding write outcome
  | .answered (.failure code) value => .answered (.failure code) value
  | .answered outcome value => .answered outcome value.redact

def Invocation.redact (inv : Invocation δ) : Invocation Unit :=
  { call := inv.call.redact
    tool := inv.tool
    context := inv.context
    start := inv.start
    run := inv.run
    operation := inv.operation.redact
    caller := inv.caller.redact
    invokedAt := inv.invokedAt
    records := inv.records
    schemaRuns := inv.schemaRuns.map (fun _ => .blank)
    parsed := inv.parsed.map (fun _ => ())
    entered := inv.entered.map (fun _ => ()) }

namespace SecureRuntime

def redact (s : SecureRuntime δ) : SecureRuntime Unit :=
  { audit := s.audit
    execution := s.execution.redact
    invocations := s.invocations.map Invocation.redact
    requests := s.requests
    counts := s.counts
    clock := s.clock
    closing := s.closing }

/-- The label of the redacted step; a call stays as it is. -/
def Label.redact : Label δ → Label Unit
  | .tick date elapsed => .tick date elapsed
  | .openRequest requestId => .openRequest requestId
  | .invoke call => .invoke call
  | .start i => .start i
  | .validated i validation => .validated i validation.redact
  | .admitted i => .admitted i
  | .handled i result => .handled i (redactResult result)
  | .recorded i => .recorded i
  | .settled i => .settled i
  | .answered i => .answered i
  | .concluded i => .concluded i
  | .close => .close
  | .closeExecution => .closeExecution
  | .disposed ok => .disposed ok
  | .closeAudit => .closeAudit
  | .audit label => .audit label
  | .execution label => .execution (label.map Thrown.redact Graph.redact)

/-- The step takes no new arguments and no new result. -/
def Label.isContentless : Label δ → Bool
  | .invoke _ | .handled _ (.ok _) => false
  | _ => true

/-! ## Parts of a step -/

variable (s : SecureRuntime δ) (inv : Invocation δ)

@[simp] theorem invocations_redact (i : Nat) :
    s.redact.invocations[i]? = s.invocations[i]?.map Invocation.redact := List.getElem?_map

theorem runtimeFailure_redact (code : FailureCode) :
    Thrown.redact (.runtimeFailure code) = .runtimeFailure code := rfl

theorem signal_redact : s.redact.signal inv.redact = (s.signal inv).map Thrown.redact := by
  unfold signal
  cases hrun : inv.run with
  | none => simp [Invocation.redact, hrun]
  | some row =>
      have hrow : s.redact.execution.runs[row]? = s.execution.runs[row]?.map
          (Run.map Thrown.redact Graph.redact) := ExecutionController.runs_map row
      simp only [Invocation.redact, hrun, Option.bind_eq_bind, Option.bind_some, hrow]
      cases s.execution.runs[row]? <;> rfl

theorem runResult_redact (row : Nat) : s.redact.runResult row = (s.runResult row).map redactResult := by
  have hrow : s.redact.execution.runs[row]? = s.execution.runs[row]?.map
      (Run.map Thrown.redact Graph.redact) := ExecutionController.runs_map row
  unfold runResult
  rw [hrow]
  cases s.execution.runs[row]? with
  | none => rfl
  | some r => exact Run.result_map r runtimeFailure_redact

theorem setInvocation_redact (i : Nat) :
    (s.setInvocation i inv).redact = s.redact.setInvocation i inv.redact := by
  simp [setInvocation, redact, List.map_set]

/-- Only the code of an exception reaches the `catch` block. -/
theorem fail_redact {error error' : Thrown} (h : failureCode error = failureCode error') :
    s.redact.fail inv.redact error =
      ((s.fail inv error').1, (s.fail inv error').2.1, (s.fail inv error').2.2.redact) := by
  unfold fail
  rw [h]
  split <;> rfl

/-! ## Each function -/

variable {s} {rt : RuntimeSetup}

theorem start_redact (i : Nat) : s.redact.start i = (s.start i).map redact := by
  unfold start
  rw [invocations_redact]
  cases s.invocations[i]? with
  | none => rfl
  | some inv =>
      simp only [Option.map_some, Option.bind_eq_bind, Option.bind_some, signal_redact]
      rw [show inv.redact.run = inv.run from rfl]
      cases inv.run with
      | none => rfl
      | some row =>
          simp only [Option.bind_some, show s.redact.execution.start row =
            (s.execution.start row).map ExecutionController.redact from ExecutionController.start_map row]
          cases s.execution.start row with
          | none => rfl
          | some execution =>
              cases s.signal inv with
              | some reason =>
                  simp only [Option.map_some, Option.bind_some, setInvocation_redact]
                  rfl
              | none =>
                  simp only [Option.map_some, Option.map_none, Option.bind_some, setInvocation_redact,
                    Invocation.redact, List.map_append]
                  rfl

theorem validated_redact (i : Nat) (validation : Validation δ) :
    s.redact.validated i validation.redact = (s.validated i validation).map redact := by
  unfold validated
  rw [invocations_redact]
  cases s.invocations[i]? with
  | none => rfl
  | some inv =>
      simp only [Option.map_some, Option.bind_eq_bind, Option.bind_some, signal_redact]
      rw [show inv.redact.operation = inv.operation.redact from rfl]
      cases inv.operation with
      | validating =>
          cases validation <;> cases s.signal inv <;>
            (dsimp only [OperationPhase.redact, Validation.redact, Option.map_some, Option.map_none]
             rw [setInvocation_redact]
             rfl)
      | _ => rfl

theorem admitted_redact (i : Nat) : s.redact.admitted i = (s.admitted i).map redact := by
  unfold admitted
  rw [invocations_redact]
  cases s.invocations[i]? with
  | none => rfl
  | some inv =>
      simp only [Option.map_some, Option.bind_eq_bind, Option.bind_some, signal_redact]
      rw [show inv.redact.operation = inv.operation.redact from rfl]
      cases inv.operation with
      | allowing write data =>
          dsimp only [OperationPhase.redact]
          rw [show s.redact.audit = s.audit from rfl]
          cases s.audit.writes[write]? with
          | none => rfl
          | some w =>
              simp only [Option.bind_some]
              cases w.delivery <;> cases s.signal inv <;>
                simp [setInvocation_redact, Invocation.redact, OperationPhase.redact, runtimeFailure_redact]
      | _ => rfl

/-- A handler that throws. -/
theorem handled_error_redact (i : Nat) (error : Thrown) :
    s.redact.handled rt i (.error error.redact) = (s.handled rt i (.error error)).map redact := by
  unfold handled
  rw [invocations_redact]
  cases s.invocations[i]? with
  | none => rfl
  | some inv =>
      simp only [Option.map_some, Option.bind_eq_bind, Option.bind_some]
      rw [show inv.redact.operation = inv.operation.redact from rfl]
      cases inv.operation with
      | handling data =>
          dsimp only [OperationPhase.redact]
          rw [Option.map_some, setInvocation_redact]
          rfl
      | _ => rfl

theorem recorded_redact (i : Nat) : s.redact.recorded i = (s.recorded i).map redact := by
  unfold recorded
  rw [invocations_redact]
  cases s.invocations[i]? with
  | none => rfl
  | some inv =>
      simp only [Option.map_some, Option.bind_eq_bind, Option.bind_some]
      rw [show inv.redact.operation = inv.operation.redact from rfl]
      cases inv.operation with
      | recording write value =>
          dsimp only [OperationPhase.redact]
          rw [show s.redact.audit = s.audit from rfl]
          cases s.audit.writes[write]? with
          | none => rfl
          | some w =>
              simp only [Option.bind_some]
              cases w.delivery <;> simp [setInvocation_redact] <;> rfl
      | _ => rfl

theorem settled_redact (i : Nat) : s.redact.settled i = (s.settled i).map redact := by
  unfold settled
  rw [invocations_redact]
  cases s.invocations[i]? with
  | none => rfl
  | some inv =>
      simp only [Option.map_some, Option.bind_eq_bind, Option.bind_some]
      rw [show inv.redact.run = inv.run from rfl,
        show inv.redact.operation = inv.operation.redact from rfl]
      cases inv.run with
      | none => rfl
      | some row =>
          have hsettle : ∀ result, s.redact.execution.settle row (redactResult result) =
              (s.execution.settle row result).map ExecutionController.redact :=
            fun result => ExecutionController.settle_map row result
          cases inv.operation with
          | threw error =>
              have herror : s.redact.execution.settle row (.error error.redact) =
                  (s.execution.settle row (.error error)).map ExecutionController.redact :=
                hsettle (.error error)
              simp only [Option.bind_some, OperationPhase.redact, herror]
              cases s.execution.settle row (.error error) with
              | none => rfl
              | some execution =>
                  simp only [Option.map_some, Option.bind_some, setInvocation_redact]
                  rfl
          | recorded result =>
              simp only [Option.bind_some, OperationPhase.redact, hsettle]
              cases s.execution.settle row result with
              | none => rfl
              | some execution =>
                  simp only [Option.map_some, Option.bind_some, setInvocation_redact]
                  rfl
          | _ => rfl

/-- The `catch` block records failures only. -/
theorem concluded_redact (i : Nat) (hfailure : ∀ inv write outcome, s.invocations[i]? = some inv →
      inv.caller = .concluding write outcome → ∃ code, outcome = .failure code) :
    s.redact.concluded i = (s.concluded i).map redact := by
  unfold concluded
  rw [invocations_redact]
  cases hi : s.invocations[i]? with
  | none => rfl
  | some inv =>
      simp only [Option.map_some, Option.bind_eq_bind, Option.bind_some]
      rw [show inv.redact.caller = inv.caller.redact from rfl]
      cases hcaller : inv.caller with
      | running => rfl
      | concluding write outcome =>
          obtain ⟨code, rfl⟩ := hfailure inv write outcome hi hcaller
          dsimp only [CallerPhase.redact]
          rw [show s.redact.audit = s.audit from rfl]
          cases s.audit.writes[write]? with
          | none => rfl
          | some w =>
              simp only [Option.bind_some]
              cases w.delivery <;> simp [setInvocation_redact] <;> rfl
      | answered outcome value => cases outcome <;> rfl

theorem answered_redact (i : Nat) : s.redact.answered i = (s.answered i).map redact := by
  unfold answered
  rw [invocations_redact]
  cases s.invocations[i]? with
  | none => rfl
  | some inv =>
      simp only [Option.map_some, Option.bind_eq_bind, Option.bind_some]
      rw [show inv.redact.run = inv.run from rfl, show inv.redact.caller = inv.caller.redact from rfl]
      cases inv.run with
      | none => rfl
      | some row =>
          simp only [Option.bind_some, runResult_redact]
          cases s.runResult row with
          | none => rfl
          | some result =>
              simp only [Option.map_some, Option.bind_some]
              cases inv.caller with
              | running =>
                  have hanswer : (s.redact.execution.answer row).getD s.redact.execution =
                      ((s.execution.answer row).getD s.execution).redact := by
                    rw [show s.redact.execution.answer row = (s.execution.answer row).map
                      ExecutionController.redact from ExecutionController.answer_map row]
                    cases s.execution.answer row <;> rfl
                  cases result with
                  | error error =>
                      dsimp only [CallerPhase.redact, redactResult, mapResult]
                      rw [fail_redact s inv (failureCode_redact error), hanswer, Option.map_some,
                        setInvocation_redact]
                      rfl
                  | ok value =>
                      dsimp only [CallerPhase.redact, redactResult, mapResult]
                      rw [Graph.isError_redact]
                      cases value.isError with
                      | none =>
                          dsimp only
                          rw [fail_redact s inv rfl, hanswer, Option.map_some, setInvocation_redact]
                          rfl
                      | some isError =>
                          dsimp only
                          rw [hanswer, Option.map_some, setInvocation_redact]
                          cases isError <;> rfl
              | concluding write outcome => rfl
              | answered outcome value => cases outcome <;> rfl

theorem closeExecution_redact : s.redact.closeExecution = s.closeExecution.map redact := by
  unfold closeExecution
  rw [show s.redact.closing = s.closing from rfl]
  cases s.closing with
  | none => rfl
  | some closing =>
      cases closing with
      | awaitingExecution k =>
          dsimp only [Option.bind_eq_bind, Option.bind_some]
          rw [show s.redact.execution.closes = s.execution.closes from rfl]
          cases s.execution.closes[k]? with
          | none => rfl
          | some returned =>
              cases returned with
              | none => rfl
              | some remaining => cases remaining <;> rfl
      | _ => rfl

theorem disposed_redact (ok : Bool) : s.redact.disposed ok = (s.disposed ok).map redact := by
  unfold disposed
  rw [show s.redact.closing = s.closing from rfl]
  cases s.closing with
  | none => rfl
  | some closing =>
      cases closing with
      | disposing => cases ok <;> rfl
      | _ => rfl

theorem closeAudit_redact : s.redact.closeAudit = s.closeAudit.map redact := by
  unfold closeAudit
  rw [show s.redact.closing = s.closing from rfl]
  cases s.closing with
  | none => rfl
  | some closing =>
      cases closing with
      | awaitingAudit remaining k =>
          dsimp only [Option.bind_eq_bind, Option.bind_some]
          rw [show s.redact.audit.closes = s.audit.closes from rfl]
          cases s.audit.closes[k]? with
          | none => rfl
          | some c =>
              dsimp only [Option.bind_some]
              cases c.phase <;> rfl
      | _ => rfl

theorem close_redact : s.redact.close = s.close.redact := by
  unfold close
  rw [show s.redact.closing = s.closing from rfl]
  cases s.closing with
  | some _ => rfl
  | none =>
      have hclose : s.redact.execution.close = s.execution.close.redact :=
        (ExecutionController.close_map runtimeFailure_redact).symm
      dsimp only
      rw [hclose]
      rfl

theorem execution_redact (label : ExecutionController.Label Graph) :
    s.redact.step rt (Label.redact (δ := δ) (.execution label)) = (s.step rt (.execution label)).map redact := by
  have houtside : (label.map Thrown.redact Graph.redact).isOutside = label.isOutside := by
    cases label <;> rfl
  have hstep : s.redact.execution.step (label.map Thrown.redact Graph.redact) =
      (s.execution.step label).map ExecutionController.redact :=
    ExecutionController.step_map runtimeFailure_redact label
  unfold step Label.redact
  dsimp only
  rw [houtside, hstep]
  split
  · cases s.execution.step label <;> rfl
  · rfl

/-- A step that takes no content in goes the same way without the content of the state. -/
theorem step_redact {l : Label δ} (hl : l.isContentless = true)
    (hfailure : ∀ (i : Nat) inv write outcome, s.invocations[i]? = some inv →
      inv.caller = .concluding write outcome → ∃ code, outcome = .failure code) :
    s.redact.step rt l.redact = (s.step rt l).map redact := by
  cases l with
  | tick date elapsed | openRequest requestId => rfl
  | invoke call => exact absurd hl (by simp [Label.isContentless])
  | start i => exact start_redact i
  | validated i validation => exact validated_redact i validation
  | admitted i => exact admitted_redact i
  | handled i result =>
      cases result with
      | error error =>
          show s.redact.handled rt i (.error error.redact) = (s.handled rt i (.error error)).map redact
          exact handled_error_redact i error
      | ok value => exact absurd hl (by simp [Label.isContentless])
  | recorded i => exact recorded_redact i
  | settled i => exact settled_redact i
  | answered i => exact answered_redact i
  | concluded i => exact concluded_redact i (hfailure i)
  | close => exact congrArg some close_redact
  | closeExecution => exact closeExecution_redact
  | disposed ok => exact disposed_redact ok
  | closeAudit => exact closeAudit_redact
  | audit label =>
      show (s.audit.step label).map _ = ((s.audit.step label).map _).map redact
      cases s.audit.step label <;> rfl
  | execution label => exact execution_redact label

end SecureRuntime

end SecureMcp
