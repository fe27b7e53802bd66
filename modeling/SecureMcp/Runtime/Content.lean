import SecureMcp.Budget
import SecureMcp.Runtime.Evidence
import SecureMcp.Runtime.Redaction

set_option autoImplicit false

/-! # Records, metrics and errors carry no content

Two runs of a runtime that differ only in what callers and tools choose freely (`Label.Alike`) hand
the same records to the sink, show the same metrics and answer with the same errors. The runs are
compared through `redact`: steps without content commute with it, and a call or a result of a handler
is seen by `redact` only up to the verdicts of the checks. -/

namespace SecureMcp

/-! ## What two runs may differ in -/

/-- `args` pass the checks against the limits. -/
def RuntimeSetup.acceptsInput (rt : RuntimeSetup) (args : Graph) : Bool :=
  args.withinInputElementLimit rt.config.limits.maxInputElements &&
    args.byteLength.all (fun length => decide (length ≤ rt.config.limits.maxInputBytes))

/-- Whether a result is too large; `none` when `JSON.stringify` throws. -/
def RuntimeSetup.exceedsOutput (rt : RuntimeSetup) (value : Graph) : Option Bool :=
  value.byteLength.map (fun length => decide (rt.config.limits.maxOutputBytes < length))

/-- The same `RuntimeFailure`, or two exceptions that are none. -/
inductive Thrown.Alike : Thrown → Thrown → Prop
  | runtimeFailure (code : FailureCode) : Alike (.runtimeFailure code) (.runtimeFailure code)
  | other (message message' : String) : Alike (.other message) (.other message')

theorem Thrown.Alike.redact {error error' : Thrown} (h : error.Alike error') :
    error.redact = error'.redact := by
  cases h <;> rfl

structure Graph.Alike (rt : RuntimeSetup) (value value' : Graph) : Prop where
  isError : value.isError = value'.isError
  exceedsOutput : rt.exceedsOutput value = rt.exceedsOutput value'

/-- Two calls by one principal: of one registered tool with arguments on which the checks against the
    limits agree, or of two names that are not registered with any arguments. -/
structure Call.Alike (rt : RuntimeSetup) (call call' : Call) : Prop where
  principal : call.principal = call'.principal
  name : (call.name = call'.name ∧ rt.acceptsInput call.args = rt.acceptsInput call'.args) ∨
    (rt.get call.name = none ∧ rt.get call'.name = none)
  caller : Option.Rel Thrown.Alike call.caller call'.caller
  requestId : call.requestId = call'.requestId
  request : call.request = call'.request
  scope : call.scope = call'.scope
  uuid : call.uuid = call'.uuid

theorem Call.Alike.refl {rt : RuntimeSetup} (call : Call) : call.Alike rt call := by
  refine ⟨rfl, Or.inl ⟨rfl, rfl⟩, ?_, rfl, rfl, rfl, rfl⟩
  cases call.caller with
  | none => exact .none
  | some reason => exact .some (by cases reason <;> constructor)

theorem Call.Alike.get {rt : RuntimeSetup} {call call' : Call} (h : call.Alike rt call') :
    rt.get call.name = rt.get call'.name := by
  rcases h.name with ⟨hname, -⟩ | ⟨hnone, hnone'⟩
  · rw [hname]
  · rw [hnone, hnone']

theorem Call.Alike.caller_redact {rt : RuntimeSetup} {call call' : Call} (h : call.Alike rt call') :
    call.caller.map Thrown.redact = call'.caller.map Thrown.redact := by
  have hcaller := h.caller
  revert hcaller
  cases call.caller <;> cases call'.caller
  · exact fun _ => rfl
  · exact fun hcaller => nomatch hcaller
  · exact fun hcaller => nomatch hcaller
  · rintro ⟨hreason⟩
    exact congrArg some hreason.redact

namespace SecureRuntime

variable {δ : Type}

inductive Label.Alike (rt : RuntimeSetup) : Label δ → Label δ → Prop
  | same (l : Label δ) : Alike rt l l
  | invoke (call call' : Call) (h : call.Alike rt call') : Alike rt (.invoke call) (.invoke call')
  /-- The schema accepts both arguments. -/
  | parsed (i : Nat) (data data' : δ) :
      Alike rt (.validated i (.success data)) (.validated i (.success data'))
  | returned (i : Nat) (value value' : Graph) (h : value.Alike rt value') :
      Alike rt (.handled i (.ok value)) (.handled i (.ok value'))
  | threw (i : Nat) (error error' : Thrown) (h : error.Alike error') :
      Alike rt (.handled i (.error error)) (.handled i (.error error'))
  | aborted (i : Nat) (reason reason' : Thrown) (h : reason.Alike reason') :
      Alike rt (.execution (.abort i reason)) (.execution (.abort i reason'))

/-- The result of a call that ended in the `catch` block. -/
def errorAt (s : SecureRuntime δ) (i : Nat) : Option Graph :=
  match (s.invocations[i]?).map Invocation.caller with
  | some (.answered (.failure _) value) => some value
  | _ => none

variable {rt : RuntimeSetup} {s t : SecureRuntime δ}

/-! ## Redacted states -/

theorem errorAt_redact (s : SecureRuntime δ) (i : Nat) : s.redact.errorAt i = s.errorAt i := by
  unfold errorAt
  rw [invocations_redact]
  cases s.invocations[i]? with
  | none => rfl
  | some inv =>
      simp only [Option.map_some]
      rw [show inv.redact.caller = inv.caller.redact from rfl]
      cases inv.caller with
      | answered outcome value => cases outcome <;> rfl
      | _ => rfl

theorem metrics_redact (s : SecureRuntime δ) : s.redact.metrics = s.metrics := rfl

theorem redact_eq_iff : s.redact = t.redact ↔ s.audit = t.audit ∧
    s.execution.redact = t.execution.redact ∧
    s.invocations.map Invocation.redact = t.invocations.map Invocation.redact ∧
    s.requests = t.requests ∧ s.counts = t.counts ∧ s.clock = t.clock ∧ s.closing = t.closing := by
  unfold redact
  rw [SecureRuntime.mk.injEq]

/-- Rows of two runtimes that agree up to content. -/
theorem rows_of_redact (h : s.redact = t.redact) (i : Nat) :
    (s.invocations[i]? = none ∧ t.invocations[i]? = none) ∨
      ∃ inv inv', s.invocations[i]? = some inv ∧ t.invocations[i]? = some inv' ∧
        inv.redact = inv'.redact := by
  have hrow : s.redact.invocations[i]? = t.redact.invocations[i]? := by rw [h]
  rw [invocations_redact, invocations_redact] at hrow
  cases hs : s.invocations[i]? with
  | none =>
      rw [hs] at hrow
      exact Or.inl ⟨rfl, Option.map_eq_none_iff.mp hrow.symm⟩
  | some inv =>
      rw [hs] at hrow
      obtain ⟨inv', ht, hinv⟩ := Option.map_eq_some_iff.mp hrow.symm
      exact Or.inr ⟨inv, inv', rfl, ht, hinv.symm⟩

/-! ## Content that comes in -/

/-- The checks of `invoke` before `execution.run` ask no more of the arguments than `acceptsInput`. -/
theorem refusal_eq (s : SecureRuntime δ) (call : Call) (tool : Option ToolPolicy) :
    s.refusal rt call tool = match tool with
      | none => some (.runtimeFailure .denied)
      | some tool =>
        if !mayInvoke rt.policy call.principal tool s.clock.date then some (.runtimeFailure .denied)
        else if rt.acceptsInput call.args then none
        else some (.runtimeFailure .invalid_input) := by
  unfold refusal
  cases tool with
  | none => rfl
  | some tool =>
      dsimp only
      split
      · rfl
      · unfold RuntimeSetup.acceptsInput
        cases hwithin : call.args.withinInputElementLimit rt.config.limits.maxInputElements with
        | false => rfl
        | true =>
            obtain ⟨length, hlength⟩ := Option.isSome_iff_exists.mp (Graph.byteLength_of_within hwithin)
            rw [hlength]
            by_cases hle : length ≤ rt.config.limits.maxInputBytes
            · simp [hle, Nat.not_lt.mpr hle]
            · simp [hle, Nat.lt_of_not_le hle]

theorem refusal_alike {call call' : Call} (h : s.redact = t.redact) (hcall : call.Alike rt call') :
    s.refusal rt call (rt.get call.name) = t.refusal rt call' (rt.get call'.name) := by
  obtain ⟨-, -, -, -, -, hclock, -⟩ := redact_eq_iff.mp h
  rw [refusal_eq, refusal_eq, ← hcall.get, hcall.principal, hclock]
  cases hget : rt.get call.name with
  | none => rfl
  | some tool =>
      rcases hcall.name with ⟨-, haccepts⟩ | ⟨hnone, -⟩
      · dsimp only
        rw [haccepts]
      · exact absurd (hnone.symm.trans hget) (by simp)

theorem opened_alike {call call' : Call} (h : s.redact = t.redact) (hcall : call.Alike rt call') :
    (s.opened rt call).redact = (t.opened rt call').redact := by
  obtain ⟨-, -, -, hrequests, -, hclock, -⟩ := redact_eq_iff.mp h
  unfold opened Invocation.redact Call.redact
  dsimp only
  rw [hcall.get, hcall.principal, hcall.requestId, hcall.request, hcall.scope, hcall.uuid, hclock,
    hrequests]

theorem invoke_alike {call call' : Call} (h : s.redact = t.redact) (hcall : call.Alike rt call') :
    (s.invoke rt call).redact = (t.invoke rt call').redact := by
  obtain ⟨haudit, hexecution, hinvocations, hrequests, hcounts, hclock, hclosing⟩ := redact_eq_iff.mp h
  have hopened := opened_alike h hcall
  unfold invoke
  dsimp only
  rw [show (s.opened rt call).tool = rt.get call.name from rfl,
    show (t.opened rt call').tool = rt.get call'.name from rfl, refusal_alike h hcall]
  cases t.refusal rt call' (rt.get call'.name) with
  | some error =>
      have hfail := fail_redact s (s.opened rt call) (rfl : failureCode error = failureCode error)
      rw [h, hopened, fail_redact t (t.opened rt call') rfl] at hfail
      obtain ⟨haudit', hcounts', hrow⟩ : (t.fail (t.opened rt call') error).1 =
          (s.fail (s.opened rt call) error).1 ∧ _ ∧ _ := by
        simpa only [Prod.mk.injEq] using hfail
      refine redact_eq_iff.mpr ⟨haudit'.symm, hexecution, ?_, hrequests, hcounts'.symm, hclock, hclosing⟩
      rw [List.map_append, List.map_append, hinvocations]
      exact congrArg (fun row => _ ++ [row]) hrow.symm
  | none =>
      have hlength : s.execution.runs.length = t.execution.runs.length := by
        have hruns := congrArg (fun c : ExecutionController Graph => c.runs.length) hexecution
        simpa [ExecutionController.redact, ExecutionController.map] using hruns
      have hrun : (s.execution.run call.caller).redact = (t.execution.run call'.caller).redact := by
        show ExecutionController.map _ _ _ = ExecutionController.map _ _ _
        rw [ExecutionController.run_map, ExecutionController.run_map, hcall.caller_redact]
        exact congrArg (fun c : ExecutionController Graph => c.run _) hexecution
      refine redact_eq_iff.mpr ⟨haudit, hrun, ?_, hrequests, hcounts, hclock, hclosing⟩
      rw [List.map_append, List.map_append, hinvocations, hlength]
      exact congrArg (fun row : Invocation Unit =>
        _ ++ [{ row with run := some t.execution.runs.length }]) hopened

theorem signal_alike {inv inv' : Invocation δ} (h : s.redact = t.redact)
    (hinv : inv.redact = inv'.redact) :
    (s.signal inv).map Thrown.redact = (t.signal inv').map Thrown.redact := by
  rw [← signal_redact, ← signal_redact, h, hinv]

/-- The checks of a result, up to the messages of what they throw. -/
theorem afterHandler_alike {inv inv' : Invocation δ} {value value' : Graph} (h : s.redact = t.redact)
    (hinv : inv.redact = inv'.redact) (hvalue : value.Alike rt value') :
    mapResult Thrown.redact id (s.afterHandler rt inv value) =
      mapResult Thrown.redact id (t.afterHandler rt inv' value') := by
  have hsignal := signal_alike h hinv
  have hexceeds := hvalue.exceedsOutput
  unfold RuntimeSetup.exceedsOutput at hexceeds
  unfold afterHandler
  rw [hvalue.isError]
  cases hs : s.signal inv with
  | some reason =>
      rw [hs] at hsignal
      obtain ⟨reason', ht, hreason⟩ := Option.map_eq_some_iff.mp hsignal.symm
      rw [ht]
      exact congrArg Except.error hreason.symm
  | none =>
      rw [hs] at hsignal
      rw [Option.map_eq_none_iff.mp hsignal.symm]
      dsimp only
      cases hlength : value.byteLength with
      | none =>
          rw [hlength] at hexceeds
          rw [Option.map_eq_none_iff.mp hexceeds.symm]
      | some length =>
          rw [hlength] at hexceeds
          obtain ⟨length', hlength', hverdict⟩ := Option.map_eq_some_iff.mp hexceeds.symm
          rw [hlength']
          simp only [decide_eq_decide] at hverdict
          simp only [hverdict]

theorem threw_alike {inv inv' : Invocation δ} {error error' : Thrown} (i : Nat)
    (h : s.redact = t.redact) (hinv : inv.redact = inv'.redact) (herror : error.redact = error'.redact) :
    (s.setInvocation i { inv with operation := .threw error }).redact =
      (t.setInvocation i { inv' with operation := .threw error' }).redact := by
  rw [setInvocation_redact, setInvocation_redact]
  show s.redact.setInvocation i { inv.redact with operation := .threw error.redact } = _
  rw [h, hinv, herror]
  rfl

theorem recording_alike {inv inv' : Invocation δ} {value value' : Graph} (i : Nat)
    (h : s.redact = t.redact) (hinv : inv.redact = inv'.redact) (hvalue : value.redact = value'.redact)
    (outcome : Outcome) :
    ({ s with audit := s.record inv outcome }.setInvocation i
        { inv with
          operation := .recording s.audit.writes.length value
          records := inv.records ++ [s.audit.writes.length] }).redact =
      ({ t with audit := t.record inv' outcome }.setInvocation i
        { inv' with
          operation := .recording t.audit.writes.length value'
          records := inv'.records ++ [t.audit.writes.length] }).redact := by
  rw [setInvocation_redact, setInvocation_redact]
  show { s.redact with audit := s.redact.record inv.redact outcome }.setInvocation i
    { inv.redact with
      operation := .recording s.redact.audit.writes.length value.redact
      records := inv.redact.records ++ [s.redact.audit.writes.length] } = _
  rw [h, hinv, hvalue]
  rfl

/-- Awaiting `tool.invoke`. -/
private def isHandling : OperationPhase δ → Bool
  | .handling _ => true
  | _ => false

private theorem isHandling_redact (operation : OperationPhase δ) :
    isHandling operation.redact = isHandling operation := by
  cases operation <;> rfl

theorem handled_alike {i : Nat} {value value' : Graph} (h : s.redact = t.redact)
    (hvalue : value.Alike rt value') :
    (s.handled rt i (.ok value)).map redact = (t.handled rt i (.ok value')).map redact := by
  unfold handled
  rcases rows_of_redact h i with ⟨hs, ht⟩ | ⟨inv, inv', hs, ht, hinv⟩
  · rw [hs, ht]
    rfl
  · have hredacted : isHandling inv.operation.redact = isHandling inv'.operation.redact :=
      congrArg (fun row : Invocation Unit => isHandling row.operation) hinv
    have hoperation : isHandling inv.operation = isHandling inv'.operation := by
      simpa only [isHandling_redact] using hredacted
    have hafter := afterHandler_alike h hinv hvalue
    have hredact : value.redact = value'.redact := by
      unfold Graph.redact
      rw [hvalue.isError]
    rw [hs, ht]
    dsimp only [Option.bind_eq_bind, Option.bind_some]
    cases hop : inv.operation with
    | handling data =>
        cases hop' : inv'.operation with
        | handling data' =>
            dsimp only
            cases hresult : s.afterHandler rt inv value with
            | error error =>
                cases hresult' : t.afterHandler rt inv' value' with
                | error error' =>
                    rw [hresult, hresult'] at hafter
                    have herror : error.redact = error'.redact := Except.error.inj hafter
                    exact congrArg some (threw_alike i h hinv herror)
                | ok outcome' =>
                    rw [hresult, hresult'] at hafter
                    exact nomatch hafter
            | ok outcome =>
                cases hresult' : t.afterHandler rt inv' value' with
                | error error' =>
                    rw [hresult, hresult'] at hafter
                    exact nomatch hafter
                | ok outcome' =>
                    rw [hresult, hresult'] at hafter
                    obtain rfl : outcome = outcome' := Except.ok.inj hafter
                    exact congrArg some (recording_alike i h hinv hredact outcome)
        | _ =>
            rw [hop, hop'] at hoperation
            exact absurd hoperation (by simp [isHandling])
    | _ =>
        cases hop' : inv'.operation with
        | handling data' =>
            rw [hop, hop'] at hoperation
            exact absurd hoperation (by simp [isHandling])
        | _ => rfl

/-! ## Every step, every run -/

theorem concluding_failure (h : (machine rt δ).Reachable s) (i : Nat) (inv : Invocation δ) (write : Nat)
    (outcome : Outcome) (hi : s.invocations[i]? = some inv)
    (hcaller : inv.caller = .concluding write outcome) : ∃ code, outcome = .failure code := by
  obtain ⟨_, _, hcode⟩ := (Evidence.of_reachable h i inv hi).concluding write outcome hcaller
  exact hcode

/-- Two runtimes that agree up to content, after any runs. -/
def Agree (rt : RuntimeSetup) (s t : SecureRuntime δ) : Prop :=
  (machine rt δ).Reachable s ∧ (machine rt δ).Reachable t ∧ s.redact = t.redact

/-- The same label without content, or labels whose content is redacted. -/
theorem Agree.contentless {l l' : Label δ} (h : Agree rt s t) (hl : l.isContentless = true)
    (hl' : l'.isContentless = true) (hredact : l.redact = l'.redact) :
    (s.step rt l).map redact = (t.step rt l').map redact := by
  obtain ⟨hs, ht, hst⟩ := h
  rw [← step_redact hl (concluding_failure hs), ← step_redact hl' (concluding_failure ht), hst, hredact]

theorem Agree.invoke {call call' : Call} (h : Agree rt s t) (hcall : call.Alike rt call') :
    (s.step rt (.invoke call)).map redact = (t.step rt (.invoke call')).map redact := by
  obtain ⟨-, -, hst⟩ := h
  obtain ⟨-, -, -, hrequests, -⟩ := redact_eq_iff.mp hst
  unfold step
  dsimp only
  rw [hcall.request, hrequests]
  split
  · exact congrArg some (invoke_alike hst hcall)
  · rfl

theorem Agree.step {l l' : Label δ} (h : Agree rt s t) (hl : l.Alike rt l') :
    (s.step rt l).map redact = (t.step rt l').map redact := by
  cases hl with
  | same =>
      cases l with
      | invoke call => exact h.invoke (.refl call)
      | handled i result =>
          cases result with
          | error error => exact h.contentless rfl rfl rfl
          | ok value => exact handled_alike h.2.2 ⟨rfl, rfl⟩
      | _ => exact h.contentless rfl rfl rfl
  | invoke call call' hcall => exact h.invoke hcall
  | parsed i data data' => exact h.contentless rfl rfl rfl
  | returned i value value' hvalue => exact handled_alike h.2.2 hvalue
  | threw i error error' herror =>
      exact h.contentless rfl rfl (congrArg (fun e => Label.handled i (.error e)) herror.redact)
  | aborted i reason reason' hreason =>
      exact h.contentless rfl rfl (congrArg (fun e => Label.execution (.abort i e)) hreason.redact)

theorem lockstep (rt : RuntimeSetup) (δ : Type) :
    Machine.Lockstep (machine rt δ) (machine rt δ) (Agree rt) (Label.Alike rt) := by
  refine ⟨⟨Machine.reachable_init, Machine.reachable_init, rfl⟩, fun s t l k h hl => ?_⟩
  have hstep := h.step hl
  show Option.Rel (Agree rt) (s.step rt l) (t.step rt k)
  cases hs : s.step rt l with
  | none =>
      rw [hs] at hstep
      rw [Option.map_eq_none_iff.mp hstep.symm]
      exact .none
  | some s' =>
      rw [hs] at hstep
      obtain ⟨t', ht, hredact⟩ := Option.map_eq_some_iff.mp hstep.symm
      rw [ht]
      exact .some ⟨h.1.snoc hs, h.2.1.snoc ht, hredact.symm⟩

/-- Two sequences of steps that differ only in arguments with the same verdicts, in unregistered
    names, in results with the same `isError` and size verdict and in exceptions that are no
    `RuntimeFailure`: both are runs or neither is, and after both the sink was called with the same
    records, the metrics are the same text, and every call that the runtime itself answered with an
    error got the same error. -/
theorem no_content (rt : RuntimeSetup) (ls ls' : List (Label δ))
    (h : List.Forall₂ (Label.Alike rt) ls ls') :
    ((machine rt δ).exec (machine rt δ).init ls).isSome =
        ((machine rt δ).exec (machine rt δ).init ls').isSome ∧
      ∀ s s', (machine rt δ).exec (machine rt δ).init ls = some s →
        (machine rt δ).exec (machine rt δ).init ls' = some s' →
        s.audit.sunk = s'.audit.sunk ∧ s.metrics = s'.metrics ∧ ∀ i, s.errorAt i = s'.errorAt i := by
  have hruns := (lockstep rt δ).runs (lockstep rt δ).init h
  revert hruns
  cases (machine rt δ).exec (machine rt δ).init ls <;>
    cases (machine rt δ).exec (machine rt δ).init ls'
  · exact fun _ => ⟨rfl, by simp⟩
  · exact fun hruns => nomatch hruns
  · exact fun hruns => nomatch hruns
  · rintro ⟨-, -, hredact⟩
    refine ⟨rfl, fun s s' hs hs' => ?_⟩
    obtain rfl := Option.some.inj hs
    obtain rfl := Option.some.inj hs'
    obtain ⟨haudit, -⟩ := redact_eq_iff.mp hredact
    refine ⟨by rw [haudit], ?_, fun i => ?_⟩
    · rw [← metrics_redact, hredact, metrics_redact]
    · rw [← errorAt_redact, hredact, errorAt_redact]

/-- A tool that throws, then a name that is not registered; `args` and `message` are the content. -/
def failingTool (args : Graph) (message name : String) : List (Label String) :=
  [.invoke { notesCall with args }, .start 0, .validated 0 (.success message),
    .audit (.callSink 0 .returned), .audit (.resume 0), .admitted 0,
    .handled 0 (.error (.other message)), .settled 0, .answered 0, .audit (.callSink 1 .returned),
    .audit (.resume 1), .concluded 0, .invoke { notesCall with name := js name },
    .audit (.callSink 2 .returned), .audit (.resume 2), .concluded 1]

theorem no_content_failingTool :
    ∃ s s', (machine notesRuntime String).exec (machine notesRuntime String).init
        (failingTool notesArgs "SECRET_TOKEN" "random-attacker-label") = some s ∧
      (machine notesRuntime String).exec (machine notesRuntime String).init
        (failingTool notesResult "other" "unknown") = some s' ∧
      s.counts = [(.failure .internal, 1), (.failure .denied, 1)] ∧ s.audit.sunk.length = 3 ∧
      (s.errorAt 0).isSome = true ∧ s.audit.sunk = s'.audit.sunk ∧ s.metrics = s'.metrics ∧
      s.errorAt 0 = s'.errorAt 0 := by
  have hrun : ∃ s s', (machine notesRuntime String).exec (machine notesRuntime String).init
        (failingTool notesArgs "SECRET_TOKEN" "random-attacker-label") = some s ∧
      (machine notesRuntime String).exec (machine notesRuntime String).init
        (failingTool notesResult "other" "unknown") = some s' ∧
      s.counts = [(.failure .internal, 1), (.failure .denied, 1)] ∧ s.audit.sunk.length = 3 ∧
      (s.errorAt 0).isSome = true := ⟨_, _, rfl, rfl, rfl, rfl, rfl⟩
  obtain ⟨s, s', hexec, hexec', hcounts, hlength, herror⟩ := hrun
  have halike : List.Forall₂ (Label.Alike notesRuntime)
      (failingTool notesArgs "SECRET_TOKEN" "random-attacker-label")
      (failingTool notesResult "other" "unknown") := by
    refine .cons (.invoke _ _ ⟨rfl, Or.inl ⟨rfl, by decide⟩, .none, rfl, rfl, rfl, rfl⟩) (.cons (.same _)
      (.cons (.parsed _ _ _) (.cons (.same _) (.cons (.same _) (.cons (.same _)
        (.cons (.threw _ _ _ (.other _ _)) (.cons (.same _) (.cons (.same _) (.cons (.same _)
          (.cons (.same _) (.cons (.same _) (.cons (.invoke _ _ ?_) (.cons (.same _) (.cons (.same _)
            (.cons (.same _) .nil)))))))))))))))
    exact ⟨rfl, Or.inr ⟨by decide, by decide⟩, .none, rfl, rfl, rfl, rfl⟩
  obtain ⟨hsunk, hmetrics, herrors⟩ :=
    (no_content notesRuntime _ _ halike).2 s s' hexec hexec'
  exact ⟨s, s', hexec, hexec', hcounts, hlength, herror, hsunk, hmetrics, herrors 0⟩

end SecureRuntime

end SecureMcp
