import SecureMcp.Audit.Accounting
import SecureMcp.Execution.Slots
import SecureMcp.Runtime.Invoke

set_option autoImplicit false

/-! # What a step of the runtime can do

`Effect` lists the ways in which a step of the runtime changes its state, one constructor for each
way a call can move on, and one for everything that leaves the calls alone. From it follow the two
projections, onto the dispatcher and onto the controller, and the frame rule for the calls that do
not move. -/

namespace SecureMcp

variable {δ : Type}

/-- The operation is awaiting something it can still fail at without having recorded a result. -/
def OperationPhase.isEarly : OperationPhase δ → Bool
  | .validating | .allowing _ _ | .handling _ => true
  | _ => false

namespace SecureRuntime

/-- What the `catch` block does before its `await`. -/
inductive Fails (s : SecureRuntime δ) (inv : Invocation δ) (code : FailureCode) :
    AuditDispatcher AuditEvent → List (Outcome × Nat) → Invocation δ → Prop
  | unrecorded (hcode : code = .audit_unavailable) :
      Fails s inv code s.audit (increment s.counts (.failure code))
        { inv with caller := .answered (.failure code) (errorResult (.failure code)) }
  | recording (hcode : code ≠ .audit_unavailable) :
      Fails s inv code (s.record inv (.failure code)) s.counts
        { inv with
          caller := .concluding s.audit.writes.length (.failure code)
          records := inv.records ++ [s.audit.writes.length] }

theorem fail_cases (s : SecureRuntime δ) (inv : Invocation δ) (error : Thrown) :
    Fails s inv (failureCode error) (s.fail inv error).1 (s.fail inv error).2.1
      (s.fail inv error).2.2 := by
  unfold fail
  by_cases hcode : failureCode error = .audit_unavailable
  · simp only [hcode, if_true]
    exact .unrecorded rfl
  · simp only [hcode, if_false]
    exact .recording hcode

/-- The step of the controller that is taken on its own. -/
def Label.control : Label δ → Option (ExecutionController.Label Graph)
  | .close => some .close
  | .execution label => some label
  | _ => none

/-- A step that is not one of a call. -/
def Label.isQuiet : Label δ → Bool
  | .tick _ _ | .openRequest _ | .close | .closeExecution | .disposed _ | .closeAudit | .audit _
  | .execution _ => true
  | _ => false

/-- How a step changes the calls, and the components with them. -/
inductive Effect (rt : RuntimeSetup) (s : SecureRuntime δ) (l : Label δ) : SecureRuntime δ → Prop
  | quiet (s' : SecureRuntime δ) (hinvocations : s'.invocations = s.invocations)
      (hcounts : s'.counts = s.counts)
      (haudit : s'.audit = s.audit ∨
        ∃ l', (l = .audit l' ∨ l' = .close) ∧ s.audit.step l' = some s'.audit)
      (hexecution : s'.execution = s.execution ∨
        ∃ l', l.control = some l' ∧ l'.isOutside = true ∧
          s.execution.step l' = some s'.execution)
      (hrequests : s'.requests = s.requests ∨
        ∃ requestId, s'.requests = s.requests ++ [{ requestId := requestId }])
      (hquiet : l.isQuiet = true) : Effect rt s l s'
  | refused (call : Call) (error : Thrown) (audit : AuditDispatcher AuditEvent)
      (counts : List (Outcome × Nat)) (inv' : Invocation δ)
      (hrequest : ∀ q, call.request = some q → q < s.requests.length)
      (herror : s.refusal rt call (rt.get call.name) = some error)
      (hfails : Fails s (s.opened rt call) (failureCode error) audit counts inv')
      (hlabel : l = .invoke call) :
      Effect rt s l { s with audit, counts, invocations := s.invocations ++ [inv'] }
  | accepted (call : Call) (hrequest : ∀ q, call.request = some q → q < s.requests.length)
      (hnone : s.refusal rt call (rt.get call.name) = none) (hlabel : l = .invoke call) :
      Effect rt s l { s with
        execution := s.execution.run call.caller
        invocations := s.invocations ++
          [{ s.opened rt call with run := some s.execution.runs.length }] }
  /-- The operation is not started: its signal is aborted. -/
  | halted (i row : Nat) (inv : Invocation δ) (r : Run Graph) (reason : Thrown)
      (hi : s.invocations[i]? = some inv) (hrun : inv.run = some row)
      (hrow : s.execution.runs[row]? = some r) (hop : r.operation = .deferred)
      (hsignal : r.signal = some reason) :
      Effect rt s l { s with
        execution := s.execution.settleRun row r (.error reason)
        invocations := s.invocations.set i { inv with operation := .settled } }
  | started (i row : Nat) (inv : Invocation δ) (r : Run Graph)
      (hi : s.invocations[i]? = some inv) (hrun : inv.run = some row)
      (hrow : s.execution.runs[row]? = some r) (hop : r.operation = .deferred)
      (hsignal : r.signal = none) :
      Effect rt s l { s with
        execution :=
          { s.execution with
            runs := s.execution.runs.set row
              { r with operation := .running, started := r.started + 1 } }
        invocations := s.invocations.set i
          { inv with operation := .validating, schemaRuns := inv.schemaRuns ++ [inv.call.args] } }
  | threw (i : Nat) (inv : Invocation δ) (error : Thrown) (hi : s.invocations[i]? = some inv)
      (hearly : OperationPhase.isEarly inv.operation = true)
      (hsettled : ∀ write data, inv.operation = .allowing write data →
        ∃ w, s.audit.writes[write]? = some w ∧ w.delivery.settled = true) :
      Effect rt s l { s with
        invocations := s.invocations.set i { inv with operation := .threw error } }
  | allowed (i : Nat) (inv : Invocation δ) (data : δ) (hi : s.invocations[i]? = some inv)
      (hphase : inv.operation = .validating) (hsignal : s.signal inv = none) :
      Effect rt s l { s with
        audit := s.record inv .allowed
        invocations := s.invocations.set i
          { inv with
            operation := .allowing s.audit.writes.length data
            parsed := some data
            records := inv.records ++ [s.audit.writes.length] } }
  | entered (i write : Nat) (inv : Invocation δ) (data : δ) (w : Write AuditEvent)
      (hi : s.invocations[i]? = some inv) (hphase : inv.operation = .allowing write data)
      (hwrite : s.audit.writes[write]? = some w) (hdelivery : w.delivery = .fulfilled)
      (hsignal : s.signal inv = none) :
      Effect rt s l { s with
        invocations := s.invocations.set i
          { inv with operation := .handling data, entered := inv.entered ++ [data] } }
  | handled (i : Nat) (inv : Invocation δ) (data : δ) (value : Graph) (outcome : Outcome)
      (hi : s.invocations[i]? = some inv) (hphase : inv.operation = .handling data)
      (hafter : s.afterHandler rt inv value = .ok outcome) :
      Effect rt s l { s with
        audit := s.record inv outcome
        invocations := s.invocations.set i
          { inv with
            operation := .recording s.audit.writes.length value
            records := inv.records ++ [s.audit.writes.length] } }
  | recordLost (i write : Nat) (inv : Invocation δ) (value : Graph) (w : Write AuditEvent)
      (hi : s.invocations[i]? = some inv) (hphase : inv.operation = .recording write value)
      (hwrite : s.audit.writes[write]? = some w) (hdelivery : w.delivery = .rejected) :
      Effect rt s l { s with
        invocations := s.invocations.set i
          { inv with operation := .recorded (.error (.runtimeFailure .audit_unavailable)) } }
  | recordKept (i write : Nat) (inv : Invocation δ) (value : Graph) (w : Write AuditEvent)
      (hi : s.invocations[i]? = some inv) (hphase : inv.operation = .recording write value)
      (hwrite : s.audit.writes[write]? = some w) (hdelivery : w.delivery = .fulfilled) :
      Effect rt s l { s with
        requests := s.markRecorded inv.call.request
        invocations := s.invocations.set i { inv with operation := .recorded (.ok value) } }
  | settled (i row : Nat) (inv : Invocation δ) (r : Run Graph) (result : Except Thrown Graph)
      (hi : s.invocations[i]? = some inv) (hrun : inv.run = some row)
      (hrow : s.execution.runs[row]? = some r) (hop : r.operation = .running)
      (hphase : (∃ error, inv.operation = .threw error ∧ result = .error error) ∨
        inv.operation = .recorded result) :
      Effect rt s l { s with
        execution := s.execution.settleRun row r result
        invocations := s.invocations.set i { inv with operation := .settled } }
  | failed (i row : Nat) (inv inv' : Invocation δ) (error : Thrown)
      (audit : AuditDispatcher AuditEvent) (counts : List (Outcome × Nat))
      (hi : s.invocations[i]? = some inv) (hrun : inv.run = some row)
      (hcaller : inv.caller = .running)
      (hresult : s.runResult row = some (.error error) ∨
        ∃ value, s.runResult row = some (.ok value) ∧ value.isError = none)
      (hfails : Fails s inv (failureCode error) audit counts inv') :
      Effect rt s l { s with
        execution := (s.execution.answer row).getD s.execution
        audit, counts
        invocations := s.invocations.set i inv' }
  | returned (i row : Nat) (inv : Invocation δ) (value : Graph) (isError : Bool)
      (hi : s.invocations[i]? = some inv) (hrun : inv.run = some row)
      (hcaller : inv.caller = .running) (hresult : s.runResult row = some (.ok value))
      (herror : value.isError = some isError) :
      Effect rt s l { s with
        execution := (s.execution.answer row).getD s.execution
        counts := increment s.counts (resultOutcome isError)
        invocations := s.invocations.set i
          { inv with caller := .answered (resultOutcome isError) value } }
  | concluded (i write : Nat) (inv : Invocation δ) (outcome : Outcome) (w : Write AuditEvent)
      (hi : s.invocations[i]? = some inv) (hcaller : inv.caller = .concluding write outcome)
      (hwrite : s.audit.writes[write]? = some w) (hdelivery : w.delivery = .fulfilled) :
      Effect rt s l { s with
        requests := s.markRecorded inv.call.request
        counts := increment s.counts outcome
        invocations := s.invocations.set i
          { inv with caller := .answered outcome (errorResult outcome) } }
  | unconcluded (i write : Nat) (inv : Invocation δ) (outcome : Outcome) (w : Write AuditEvent)
      (hi : s.invocations[i]? = some inv) (hcaller : inv.caller = .concluding write outcome)
      (hwrite : s.audit.writes[write]? = some w) (hdelivery : w.delivery = .rejected) :
      Effect rt s l { s with
        counts := increment s.counts (.failure .audit_unavailable)
        invocations := s.invocations.set i
          { inv with
            caller := .answered (.failure .audit_unavailable)
              (errorResult (.failure .audit_unavailable)) } }

variable {rt : RuntimeSetup} {s s' : SecureRuntime δ} {l : Label δ}

/-! ## Each function -/

theorem invoke_effect (call : Call)
    (hrequest : ∀ q, call.request = some q → q < s.requests.length) :
    Effect rt s (.invoke call) (s.invoke rt call) := by
  unfold invoke
  cases hr : s.refusal rt call (s.opened rt call).tool with
  | some error =>
      simp only [hr]
      exact .refused call error _ _ _ hrequest hr (fail_cases s _ error) rfl
  | none =>
      simp only [hr]
      exact .accepted call hrequest hr rfl

theorem start_effect {i : Nat} (h : s.start i = some s') : Effect rt s l s' := by
  obtain ⟨inv, hi, h⟩ := Option.bind_eq_some_iff.mp h
  obtain ⟨row, hrun, h⟩ := Option.bind_eq_some_iff.mp h
  obtain ⟨execution, hstart, h⟩ := Option.bind_eq_some_iff.mp h
  obtain ⟨r, hrow, hstart⟩ := Option.bind_eq_some_iff.mp hstart
  have hsig : s.signal inv = r.signal := by simp [signal, hrun, hrow]
  rw [hsig] at h
  split at hstart
  · next hop =>
      split at hstart
      · next reason hsignal =>
          rw [hsignal] at h
          obtain rfl := Option.some.inj hstart
          exact Option.some.inj h ▸ .halted i row inv r reason hi hrun hrow hop hsignal
      · next hsignal =>
          rw [hsignal] at h
          obtain rfl := Option.some.inj hstart
          exact Option.some.inj h ▸ .started i row inv r hi hrun hrow hop hsignal
  · exact absurd hstart (by simp)

/-- An operation that awaits no `allowed` record. -/
private theorem not_allowing (s : SecureRuntime δ) (inv : Invocation δ)
    (h : ∀ write data, inv.operation ≠ .allowing write data) :
    ∀ write data, inv.operation = .allowing write data →
      ∃ w, s.audit.writes[write]? = some w ∧ w.delivery.settled = true :=
  fun write data hop => absurd hop (h write data)

theorem validated_effect {i : Nat} {validation : Validation δ}
    (h : s.validated i validation = some s') : Effect rt s l s' := by
  obtain ⟨inv, hi, h⟩ := Option.bind_eq_some_iff.mp h
  cases hphase : inv.operation with
  | validating =>
      have hearly : OperationPhase.isEarly inv.operation = true := by rw [hphase]; rfl
      have hsettled := not_allowing s inv (by simp [hphase])
      simp only [hphase] at h
      cases validation with
      | threw => exact Option.some.inj h ▸ .threw i inv _ hi hearly hsettled
      | failure =>
          cases hs : s.signal inv with
          | some reason =>
              simp only [hs] at h
              exact Option.some.inj h ▸ .threw i inv _ hi hearly hsettled
          | none =>
              simp only [hs] at h
              exact Option.some.inj h ▸ .threw i inv _ hi hearly hsettled
      | success data =>
          cases hs : s.signal inv with
          | some reason =>
              simp only [hs] at h
              exact Option.some.inj h ▸ .threw i inv _ hi hearly hsettled
          | none =>
              simp only [hs] at h
              exact Option.some.inj h ▸ .allowed i inv data hi hphase hs
  | _ => simp [hphase] at h

theorem admitted_effect {i : Nat} (h : s.admitted i = some s') : Effect rt s l s' := by
  obtain ⟨inv, hi, h⟩ := Option.bind_eq_some_iff.mp h
  cases hphase : inv.operation with
  | allowing write data =>
      have hearly : OperationPhase.isEarly inv.operation = true := by rw [hphase]; rfl
      simp only [hphase] at h
      obtain ⟨w, hwrite, h⟩ := Option.bind_eq_some_iff.mp h
      have hsettled : w.delivery.settled = true → ∀ write data, inv.operation = .allowing write data →
          ∃ w, s.audit.writes[write]? = some w ∧ w.delivery.settled = true := by
        intro hw write' data' hop
        obtain ⟨rfl, _⟩ := OperationPhase.allowing.inj (hphase.symm.trans hop)
        exact ⟨w, hwrite, hw⟩
      cases hdelivery : w.delivery with
      | rejected =>
          simp only [hdelivery] at h
          exact Option.some.inj h ▸ .threw i inv _ hi hearly (hsettled (by rw [hdelivery]; rfl))
      | fulfilled =>
          simp only [hdelivery] at h
          cases hs : s.signal inv with
          | some reason =>
              simp only [hs] at h
              exact Option.some.inj h ▸ .threw i inv _ hi hearly (hsettled (by rw [hdelivery]; rfl))
          | none =>
              simp only [hs] at h
              exact Option.some.inj h ▸ .entered i write inv data w hi hphase hwrite hdelivery hs
      | _ => simp [hdelivery] at h
  | _ => simp [hphase] at h

theorem handled_effect {i : Nat} {result : Except Thrown Graph}
    (h : s.handled rt i result = some s') : Effect rt s l s' := by
  obtain ⟨inv, hi, h⟩ := Option.bind_eq_some_iff.mp h
  cases hphase : inv.operation with
  | handling data =>
      have hearly : OperationPhase.isEarly inv.operation = true := by rw [hphase]; rfl
      have hsettled := not_allowing s inv (by simp [hphase])
      simp only [hphase] at h
      cases result with
      | error error => exact Option.some.inj h ▸ .threw i inv _ hi hearly hsettled
      | ok value =>
          cases hafter : s.afterHandler rt inv value with
          | error error =>
              simp only [hafter] at h
              exact Option.some.inj h ▸ .threw i inv _ hi hearly hsettled
          | ok outcome =>
              simp only [hafter] at h
              exact Option.some.inj h ▸ .handled i inv data value outcome hi hphase hafter
  | _ => simp [hphase] at h

theorem recorded_effect {i : Nat} (h : s.recorded i = some s') : Effect rt s l s' := by
  obtain ⟨inv, hi, h⟩ := Option.bind_eq_some_iff.mp h
  cases hphase : inv.operation with
  | recording write value =>
      simp only [hphase] at h
      obtain ⟨w, hwrite, h⟩ := Option.bind_eq_some_iff.mp h
      cases hdelivery : w.delivery with
      | rejected =>
          simp only [hdelivery] at h
          exact Option.some.inj h ▸ .recordLost i write inv value w hi hphase hwrite hdelivery
      | fulfilled =>
          simp only [hdelivery] at h
          exact Option.some.inj h ▸ .recordKept i write inv value w hi hphase hwrite hdelivery
      | _ => simp [hdelivery] at h
  | _ => simp [hphase] at h

private theorem settle_cases {row : Nat} {result : Except Thrown Graph}
    {execution : ExecutionController Graph} (h : s.execution.settle row result = some execution) :
    ∃ r, s.execution.runs[row]? = some r ∧ r.operation = .running ∧
      execution = s.execution.settleRun row r result := by
  obtain ⟨r, hrow, h⟩ := Option.bind_eq_some_iff.mp h
  split at h
  · next hop => exact ⟨r, hrow, hop, (Option.some.inj h).symm⟩
  · exact absurd h (by simp)

theorem settled_effect {i : Nat} (h : s.settled i = some s') : Effect rt s l s' := by
  obtain ⟨inv, hi, h⟩ := Option.bind_eq_some_iff.mp h
  obtain ⟨row, hrun, h⟩ := Option.bind_eq_some_iff.mp h
  cases hphase : inv.operation with
  | threw error =>
      simp only [hphase] at h
      obtain ⟨execution, hsettle, h⟩ := Option.bind_eq_some_iff.mp h
      obtain ⟨r, hrow, hop, rfl⟩ := settle_cases hsettle
      exact Option.some.inj h ▸ .settled i row inv r _ hi hrun hrow hop (Or.inl ⟨error, hphase, rfl⟩)
  | recorded result =>
      simp only [hphase] at h
      obtain ⟨execution, hsettle, h⟩ := Option.bind_eq_some_iff.mp h
      obtain ⟨r, hrow, hop, rfl⟩ := settle_cases hsettle
      exact Option.some.inj h ▸ .settled i row inv r _ hi hrun hrow hop (Or.inr hphase)
  | _ => simp [hphase] at h

theorem answered_effect {i : Nat} (h : s.answered i = some s') : Effect rt s l s' := by
  obtain ⟨inv, hi, h⟩ := Option.bind_eq_some_iff.mp h
  obtain ⟨row, hrun, h⟩ := Option.bind_eq_some_iff.mp h
  obtain ⟨result, hresult, h⟩ := Option.bind_eq_some_iff.mp h
  cases hcaller : inv.caller with
  | running =>
      simp only [hcaller] at h
      cases result with
      | error error =>
          exact Option.some.inj h ▸
            .failed i row inv _ error _ _ hi hrun hcaller (Or.inl hresult) (fail_cases s inv error)
      | ok value =>
          cases herror : value.isError with
          | none =>
              simp only [herror] at h
              exact Option.some.inj h ▸
                .failed i row inv _ _ _ _ hi hrun hcaller (Or.inr ⟨value, hresult, herror⟩)
                  (fail_cases s inv _)
          | some isError =>
              simp only [herror] at h
              exact Option.some.inj h ▸
                .returned i row inv value isError hi hrun hcaller hresult herror
  | _ => simp [hcaller] at h

theorem concluded_effect {i : Nat} (h : s.concluded i = some s') : Effect rt s l s' := by
  obtain ⟨inv, hi, h⟩ := Option.bind_eq_some_iff.mp h
  cases hcaller : inv.caller with
  | concluding write outcome =>
      simp only [hcaller] at h
      obtain ⟨w, hwrite, h⟩ := Option.bind_eq_some_iff.mp h
      cases hdelivery : w.delivery with
      | fulfilled =>
          simp only [hdelivery] at h
          exact Option.some.inj h ▸ .concluded i write inv outcome w hi hcaller hwrite hdelivery
      | rejected =>
          simp only [hdelivery] at h
          exact Option.some.inj h ▸ .unconcluded i write inv outcome w hi hcaller hwrite hdelivery
      | _ => simp [hdelivery] at h
  | _ => simp [hcaller] at h

/-- A step of `close` that moves its promise and at most calls `audit.close`. -/
private theorem quiet_closing (closing : Option RuntimeClosing) (audit : AuditDispatcher AuditEvent)
    (haudit : audit = s.audit ∨
      ∃ l', (l = .audit l' ∨ l' = .close) ∧ s.audit.step l' = some audit)
    (hquiet : l.isQuiet = true) : Effect rt s l { s with audit, closing } :=
  .quiet _ rfl rfl haudit (Or.inl rfl) (Or.inl rfl) hquiet

theorem close_effect : Effect rt s .close s.close := by
  unfold close
  cases s.closing with
  | some _ => exact .quiet _ rfl rfl (Or.inl rfl) (Or.inl rfl) (Or.inl rfl) rfl
  | none => exact .quiet _ rfl rfl (Or.inl rfl) (Or.inr ⟨.close, rfl, rfl, rfl⟩) (Or.inl rfl) rfl

theorem closeExecution_effect (h : s.closeExecution = some s') : Effect rt s .closeExecution s' := by
  obtain ⟨closing, hclosing, h⟩ := Option.bind_eq_some_iff.mp h
  cases closing with
  | awaitingExecution k =>
      obtain ⟨returned, hk, h⟩ := Option.bind_eq_some_iff.mp h
      obtain ⟨remaining, _, h⟩ := Option.bind_eq_some_iff.mp h
      cases remaining with
      | zero => exact Option.some.inj h ▸ quiet_closing _ _ (Or.inl rfl) rfl
      | succ n =>
          exact Option.some.inj h ▸ quiet_closing _ _ (Or.inr ⟨.close, Or.inr rfl, rfl⟩) rfl
  | _ => exact absurd h (by simp)

theorem disposed_effect {ok : Bool} (h : s.disposed ok = some s') : Effect rt s (.disposed ok) s' := by
  obtain ⟨closing, hclosing, h⟩ := Option.bind_eq_some_iff.mp h
  cases closing with
  | disposing =>
      cases ok with
      | true => exact Option.some.inj h ▸ quiet_closing _ _ (Or.inr ⟨.close, Or.inr rfl, rfl⟩) rfl
      | false => exact Option.some.inj h ▸ quiet_closing _ _ (Or.inl rfl) rfl
  | _ => exact absurd h (by simp)

theorem closeAudit_effect (h : s.closeAudit = some s') : Effect rt s .closeAudit s' := by
  obtain ⟨closing, hclosing, h⟩ := Option.bind_eq_some_iff.mp h
  cases closing with
  | awaitingAudit remaining k =>
      obtain ⟨c, hk, h⟩ := Option.bind_eq_some_iff.mp h
      split at h
      · exact Option.some.inj h ▸ quiet_closing _ _ (Or.inl rfl) rfl
      · exact Option.some.inj h ▸ quiet_closing _ _ (Or.inl rfl) rfl
      · exact absurd h (by simp)
  | _ => exact absurd h (by simp)

theorem step_effect (h : s.step rt l = some s') : Effect rt s l s' := by
  cases l with
  | tick date elapsed =>
      exact Option.some.inj h ▸ .quiet _ rfl rfl (Or.inl rfl) (Or.inl rfl) (Or.inl rfl) rfl
  | openRequest requestId =>
      exact Option.some.inj h ▸
        .quiet _ rfl rfl (Or.inl rfl) (Or.inl rfl) (Or.inr ⟨requestId, rfl⟩) rfl
  | invoke call =>
      simp only [step] at h
      split at h
      · next hrequest =>
          refine Option.some.inj h ▸ invoke_effect call (fun q hq => ?_)
          simpa [hq] using hrequest
      · exact absurd h (by simp)
  | start i => exact start_effect h
  | validated i validation => exact validated_effect h
  | admitted i => exact admitted_effect h
  | handled i result => exact handled_effect h
  | recorded i => exact recorded_effect h
  | settled i => exact settled_effect h
  | answered i => exact answered_effect h
  | concluded i => exact concluded_effect h
  | close => exact Option.some.inj h ▸ close_effect
  | closeExecution => exact closeExecution_effect h
  | disposed ok => exact disposed_effect h
  | closeAudit => exact closeAudit_effect h
  | audit label =>
      obtain ⟨audit, haudit, rfl⟩ := Option.map_eq_some_iff.mp h
      exact .quiet _ rfl rfl (Or.inr ⟨label, Or.inl rfl, haudit⟩) (Or.inl rfl) (Or.inl rfl) rfl
  | execution label =>
      simp only [step] at h
      split at h
      · next houtside =>
          obtain ⟨execution, hexecution, rfl⟩ := Option.map_eq_some_iff.mp h
          exact .quiet _ rfl rfl (Or.inl rfl) (Or.inr ⟨label, rfl, houtside, hexecution⟩)
            (Or.inl rfl) rfl
      · exact absurd h (by simp)

/-! ## The components -/

theorem Fails.audit {inv inv' : Invocation δ} {code : FailureCode}
    {audit : AuditDispatcher AuditEvent} {counts : List (Outcome × Nat)}
    (h : Fails s inv code audit counts inv') :
    audit = s.audit ∨ ∃ l, s.audit.step l = some audit := by
  cases h with
  | unrecorded => exact Or.inl rfl
  | recording => exact Or.inr ⟨.write _ _, rfl⟩

/-- A step of the runtime is at most one step of the dispatcher. -/
theorem Effect.audit (he : Effect rt s l s') :
    s'.audit = s.audit ∨ ∃ l, s.audit.step l = some s'.audit := by
  cases he with
  | quiet s' hinvocations hcounts haudit hexecution hrequests =>
      rcases haudit with hsame | ⟨l', _, hl'⟩
      · exact Or.inl hsame
      · exact Or.inr ⟨l', hl'⟩
  | refused call error audit counts inv' hrequest herror hfails => exact hfails.audit
  | failed i row inv inv' error audit counts hi hrun hcaller hresult hfails => exact hfails.audit
  | allowed | handled => exact Or.inr ⟨.write _ _, rfl⟩
  | _ => exact Or.inl rfl

/-- The controller's answer to a refused run is no step of it. -/
theorem answer_step (row : Nat) : (s.execution.answer row).getD s.execution = s.execution ∨
    ∃ l, s.execution.step l = some ((s.execution.answer row).getD s.execution) := by
  cases ha : s.execution.answer row with
  | none => exact Or.inl rfl
  | some execution => exact Or.inr ⟨.answer row, ha⟩

/-- A step of the runtime is at most one step of the controller. -/
theorem Effect.execution (he : Effect rt s l s') :
    s'.execution = s.execution ∨ ∃ l, s.execution.step l = some s'.execution := by
  cases he with
  | quiet s' hinvocations hcounts haudit hexecution hrequests =>
      rcases hexecution with hsame | ⟨l', _, _, hl'⟩
      · exact Or.inl hsame
      · exact Or.inr ⟨l', hl'⟩
  | accepted call => exact Or.inr ⟨.run call.caller, rfl⟩
  | halted i row inv r reason hi hrun hrow hop hsignal =>
      exact Or.inr ⟨.start row, by
        simp [ExecutionController.step, ExecutionController.start, hrow, hop, hsignal]⟩
  | started i row inv r hi hrun hrow hop hsignal =>
      refine Or.inr ⟨.start row, ?_⟩
      unfold ExecutionController.step ExecutionController.start
      simp [hrow, hop, hsignal]
  | settled i row inv r result hi hrun hrow hop hphase =>
      exact Or.inr ⟨.settle row result, by
        simp [ExecutionController.step, ExecutionController.settle, hrow, hop]⟩
  | failed i row => exact answer_step row
  | returned i row => exact answer_step row
  | _ => exact Or.inl rfl

theorem projects_audit (rt : RuntimeSetup) (δ : Type) :
    Machine.Projects (machine rt δ) (AuditDispatcher.machine AuditEvent rt.config.maxPending)
      SecureRuntime.audit (fun _ _ => True) (fun _ _ => True) := by
  refine ⟨rfl, fun s l s' _ _ hstep => ?_⟩
  rcases (step_effect hstep).audit with hsame | ⟨l', hl'⟩
  · rw [hsame]
    exact Machine.LeadsIn.refl _
  · exact Machine.LeadsIn.single trivial hl'

theorem projects_execution (rt : RuntimeSetup) (δ : Type) :
    Machine.Projects (machine rt δ)
      (ExecutionController.machine Graph rt.config.limits.maxConcurrent)
      SecureRuntime.execution (fun _ _ => True) (fun _ _ => True) := by
  refine ⟨rfl, fun s l s' _ _ hstep => ?_⟩
  rcases (step_effect hstep).execution with hsame | ⟨l', hl'⟩
  · rw [hsame]
    exact Machine.LeadsIn.refl _
  · exact Machine.LeadsIn.single trivial hl'

theorem audit_reachable (h : (machine rt δ).Reachable s) :
    (AuditDispatcher.machine AuditEvent rt.config.maxPending).Reachable s.audit :=
  (projects_audit rt δ).reachableIn h

theorem execution_reachable (h : (machine rt δ).Reachable s) :
    (ExecutionController.machine Graph rt.config.limits.maxConcurrent).Reachable s.execution :=
  (projects_execution rt δ).reachableIn h

end SecureRuntime

/-! ## Calls that do not move -/

/-- What a row of the controller keeps as long as its own call does not move: only an abort can
    reach it. -/
structure Run.Kept {τ : Type} (r r' : Run τ) : Prop where
  operation : r'.operation = r.operation
  signal : r.signal.isSome = true → r'.signal = r.signal
  race : r'.race = r.race ∨ r.race = .pending ∧ r'.signal.isSome = true ∧ ∃ code, r'.race = .aborted code

namespace Run

variable {τ : Type}

theorem Kept.refl (r : Run τ) : r.Kept r := ⟨rfl, fun _ => rfl, Or.inl rfl⟩

theorem abortSignal_kept (r : Run τ) (reason : Thrown) : r.Kept (r.abortSignal reason) := by
  unfold abortSignal
  cases hs : r.signal with
  | some first => exact .refl r
  | none =>
      refine ⟨rfl, by simp [hs], ?_⟩
      cases hrace : r.race with
      | pending => exact Or.inr ⟨rfl, rfl, _, rfl⟩
      | operation result => exact Or.inl rfl
      | aborted code => exact Or.inl rfl

theorem abortController_kept (r : Run τ) (code : FailureCode) : r.Kept (r.abortController code) := by
  unfold abortController
  cases r.reason with
  | some first => exact .refl r
  | none =>
      obtain ⟨hop, hsignal, hrace⟩ :=
        abortSignal_kept ({ r with reason := some code } : Run τ) (.runtimeFailure code)
      exact ⟨hop, hsignal, hrace⟩

theorem abortCaller_kept (r : Run τ) (reason : Thrown) : r.Kept (r.abortCaller reason) := by
  unfold abortCaller
  cases r.caller with
  | some first => exact .refl r
  | none =>
      obtain ⟨hop, hsignal, hrace⟩ :=
        abortSignal_kept ({ r with caller := some reason } : Run τ) reason
      exact ⟨hop, hsignal, hrace⟩

end Run

namespace ExecutionController

variable {τ : Type} {c c' : ExecutionController τ} {l : Label τ}

private theorem kept_set {row j : Nat} {r r' b : Run τ} (hrow : c.runs[row]? = some r)
    (hkept : r.Kept r') (hj : c.runs[j]? = some b) :
    ∃ b', (c.runs.set row r')[j]? = some b' ∧ b.Kept b' := by
  by_cases hjr : j = row
  · subst hjr
    rw [hrow] at hj
    obtain rfl := Option.some.inj hj
    exact ⟨r', Table.getElem?_set_of_some hrow, hkept⟩
  · exact ⟨b, by rw [Table.getElem?_set_of_ne hjr]; exact hj, .refl b⟩

/-- The steps outside the calls only abort rows. -/
theorem kept_of_outside (h : c.step l = some c') (hl : l.isOutside = true) {j : Nat} {b : Run τ}
    (hj : c.runs[j]? = some b) : ∃ b', c'.runs[j]? = some b' ∧ b.Kept b' := by
  cases l with
  | run caller | start row | settle row result | answer row => exact absurd hl (by simp [Label.isOutside])
  | expire row =>
      obtain ⟨r, hrow, h⟩ := Option.bind_eq_some_iff.mp h
      split at h
      · obtain rfl := Option.some.inj h
        obtain ⟨hop, hsignal, hrace⟩ := Run.abortController_kept { r with timer := false } .timeout
        exact kept_set hrow ⟨hop, hsignal, hrace⟩ hj
      · exact absurd h (by simp)
  | abort row reason =>
      obtain ⟨r, hrow, h⟩ := Option.bind_eq_some_iff.mp h
      split at h
      · exact absurd h (by simp)
      · obtain rfl := Option.some.inj h
        exact kept_set hrow (Run.abortCaller_kept r reason) hj
  | close =>
      obtain rfl := Option.some.inj h
      unfold close
      cases c.shutdown with
      | some s => exact ⟨b, hj, .refl b⟩
      | none =>
          refine ⟨_, by simp only [drain_runs, List.getElem?_mapIdx, hj]; rfl, ?_⟩
          split
          · exact Run.abortController_kept b _
          · exact .refl b
  | drainSettled | drainExpire | drainResume =>
      obtain ⟨s, _, h⟩ := Option.bind_eq_some_iff.mp h
      split at h
      · obtain rfl := Option.some.inj h
        exact ⟨b, hj, .refl b⟩
      · exact absurd h (by simp)
  | closeReturn k =>
      obtain ⟨s, _, h⟩ := Option.bind_eq_some_iff.mp h
      obtain ⟨returned, _, h⟩ := Option.bind_eq_some_iff.mp h
      split at h
      · obtain rfl := Option.some.inj h
        exact ⟨b, hj, .refl b⟩
      · exact absurd h (by simp)

end ExecutionController

namespace SecureRuntime

variable {rt : RuntimeSetup} {s s' : SecureRuntime δ} {l : Label δ}

/-- What a step leaves alone of what a call that does not move refers to. -/
structure Frame (s s' : SecureRuntime δ) (inv : Invocation δ) : Prop where
  writes : ∀ (w : Nat) x, s.audit.writes[w]? = some x →
    ∃ x', s'.audit.writes[w]? = some x' ∧ x.Evolves x'
  runs : ∀ row r, inv.run = some row → s.execution.runs[row]? = some r →
    ∃ r', s'.execution.runs[row]? = some r' ∧ r.Kept r'

theorem Effect.writes (he : Effect rt s l s') : ∀ (w : Nat) x, s.audit.writes[w]? = some x →
    ∃ x', s'.audit.writes[w]? = some x' ∧ x.Evolves x' := by
  intro w x hw
  rcases he.audit with hsame | ⟨l, hl⟩
  · exact ⟨x, by rw [hsame]; exact hw, .refl x⟩
  · exact (AuditDispatcher.step_effect hl).evolves hw

theorem Frame.of_same {inv : Invocation δ} (he : Effect rt s l s')
    (hruns : s'.execution.runs = s.execution.runs) : Frame s s' inv :=
  ⟨he.writes, fun _ r _ hr => ⟨r, by rw [hruns]; exact hr, .refl r⟩⟩

/-- Only the row of another call is replaced. -/
theorem Frame.of_set {inv : Invocation δ} (he : Effect rt s l s') {row : Nat} {r' : Run Graph}
    (hruns : s'.execution.runs = s.execution.runs.set row r') (hne : inv.run ≠ some row) :
    Frame s s' inv := by
  refine ⟨he.writes, fun j r hj hr => ⟨r, ?_, .refl r⟩⟩
  rw [hruns, Table.getElem?_set_of_ne (fun hjr => hne (by rw [hj, hjr]))]
  exact hr

theorem answer_runs (c : ExecutionController Graph) (row : Nat) :
    ((c.answer row).getD c).runs = c.runs ∨ ∃ r, c.runs[row]? = some r ∧
      ((c.answer row).getD c).runs = c.runs.set row { r with answered := true } := by
  cases ha : c.answer row with
  | none => exact Or.inl rfl
  | some c' =>
      obtain ⟨r, hr, ha⟩ := Option.bind_eq_some_iff.mp ha
      split at ha
      · obtain rfl := Option.some.inj ha
        exact Or.inr ⟨r, hr, rfl⟩
      · exact absurd ha (by simp)

/-- Answering a row changes nothing that `Run.Kept` is about. -/
theorem answer_kept (c : ExecutionController Graph) {row j : Nat} {b : Run Graph}
    (hj : c.runs[j]? = some b) :
    ∃ b', ((c.answer row).getD c).runs[j]? = some b' ∧ b.Kept b' := by
  rcases answer_runs c row with hsame | ⟨r, hr, hset⟩
  · exact ⟨b, by rw [hsame]; exact hj, .refl b⟩
  · rw [hset]
    by_cases hjr : j = row
    · subst hjr
      rw [hr] at hj
      obtain rfl := Option.some.inj hj
      exact ⟨_, Table.getElem?_set_of_some hr, ⟨rfl, fun _ => rfl, Or.inl rfl⟩⟩
    · exact ⟨b, by rw [Table.getElem?_set_of_ne hjr]; exact hj, .refl b⟩

theorem Frame.of_answer {inv : Invocation δ} (he : Effect rt s l s') {row : Nat}
    (hexecution : s'.execution = (s.execution.answer row).getD s.execution) : Frame s s' inv :=
  ⟨he.writes, fun j r _ hr => by rw [hexecution]; exact answer_kept s.execution hr⟩

theorem Frame.of_outside {inv : Invocation δ} (he : Effect rt s l s')
    (hexecution : s'.execution = s.execution ∨ ∃ l', l.control = some l' ∧ l'.isOutside = true ∧
      s.execution.step l' = some s'.execution) : Frame s s' inv := by
  rcases hexecution with hsame | ⟨l', _, hout, hl⟩
  · exact .of_same he (by rw [hsame])
  · exact ⟨he.writes, fun j r _ hr => ExecutionController.kept_of_outside hl hout hr⟩

/-- A new call appends a row. -/
theorem Frame.of_run {inv : Invocation δ} (he : Effect rt s l s') {caller : Option Thrown}
    (hexecution : s'.execution = s.execution.run caller) : Frame s s' inv := by
  refine ⟨he.writes, fun j r _ hr => ⟨r, ?_, .refl r⟩⟩
  rw [hexecution]
  unfold ExecutionController.run
  split <;> exact Table.getElem?_append_of_some hr

end SecureRuntime

end SecureMcp
