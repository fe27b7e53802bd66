import SecureMcp.Runtime.Steps

set_option autoImplicit false

/-! # Admission safety

What holds when a tool handler is entered. `Sound` ties the row of one call to the row of the
controller that runs its operation and to the `allowed` record it has written; it is kept by every
step (`Linked.effect`). The theorem reads the entry step off it. -/

namespace SecureMcp

variable {δ : Type}

/-! ## The invariant of one call -/

/-- The checks of `invoke` before `execution.run`, at the time of the call. -/
structure Call.Admitted (rt : RuntimeSetup) (call : Call) (now : Int) : Prop where
  registered : ∃ tool, rt.get call.name = some tool ∧
    mayInvoke rt.policy call.principal tool now = true
  within : call.args.withinInputElementLimit rt.config.limits.maxInputElements = true
  size : ∃ length, call.args.byteLength = some length ∧ length ≤ rt.config.limits.maxInputBytes

/-- Which states of `work` an operation's progress goes with. -/
def OperationPhase.Matches : OperationPhase δ → Operation → Prop
  | .idle, .refused _ | .idle, .deferred => True
  | .settled, .settled => True
  | .idle, _ | .settled, _ => False
  | _, operation => operation = .running

/-- An operation that neither runs nor has settled has not been started. -/
theorem OperationPhase.Matches.eq_idle {phase : OperationPhase δ} {operation : Operation}
    (h : phase.Matches operation) (hrunning : operation ≠ .running) (hsettled : operation ≠ .settled) :
    phase = .idle := by
  cases phase with
  | idle => rfl
  | settled => cases operation <;> first | exact absurd rfl hsettled | exact absurd h id
  | _ => exact absurd h hrunning

theorem OperationPhase.Matches.eq_settled {phase : OperationPhase δ} (h : phase.Matches .settled) :
    phase = .settled := by
  cases phase with
  | settled => rfl
  | idle => exact absurd h id
  | _ => cases h

/-- The promise of `execution.run` has settled. -/
def Run.Answerable {τ : Type} (r : Run τ) : Prop :=
  (∃ code, r.operation = .refused code) ∨ r.race.isPending = false

namespace SecureRuntime

/-- The write of this number is the record of this outcome for this call. -/
def Wrote (s : SecureRuntime δ) (inv : Invocation δ) (write : Nat) (outcome : Outcome) : Prop :=
  ∃ w clock, s.audit.writes[write]? = some w ∧
    w.event = recordEvent inv.context .tool outcome inv.start clock ∧ w.scope = inv.call.scope

/-- The schema ran once, on the arguments, and the handler got what it produced. -/
def Invocation.Parsed (inv : Invocation δ) (data : δ) : Prop :=
  inv.schemaRuns = [inv.call.args] ∧ inv.parsed = some data

/-- What has happened to a call before its operation got where it is. -/
def Invocation.History (s : SecureRuntime δ) (inv : Invocation δ) : Prop :=
  match inv.operation with
  | .idle => inv.schemaRuns = [] ∧ inv.entered = []
  | .validating => inv.schemaRuns = [inv.call.args] ∧ inv.entered = []
  | .allowing write data =>
    Invocation.Parsed inv data ∧ inv.entered = [] ∧ write ∈ inv.records ∧ s.Wrote inv write .allowed
  | .handling data => Invocation.Parsed inv data ∧ inv.entered = [data]
  | _ => inv.entered = [] ∨ ∃ data, Invocation.Parsed inv data ∧ inv.entered = [data]

structure Sound (rt : RuntimeSetup) (s : SecureRuntime δ) (inv : Invocation δ) : Prop where
  admitted : inv.run.isSome = true → inv.call.Admitted rt inv.invokedAt
  /-- A call that never reached `execution.run` has no operation and does not await one. -/
  refused : inv.run = none → inv.operation = .idle ∧ inv.caller ≠ .running
  slot : ∀ row, inv.run = some row → ∃ r, s.execution.runs[row]? = some r ∧
    inv.operation.Matches r.operation ∧ (inv.caller ≠ .running → r.Answerable)
  history : Invocation.History s inv

structure Linked (rt : RuntimeSetup) (s : SecureRuntime δ) : Prop where
  /-- No two calls share a row of the controller. -/
  owners : ∀ (i j : Nat) a b row, s.invocations[i]? = some a → s.invocations[j]? = some b →
    a.run = some row → b.run = some row → i = j
  rows : ∀ (i : Nat) inv, s.invocations[i]? = some inv → Sound rt s inv

variable {rt : RuntimeSetup} {s s' : SecureRuntime δ} {inv inv' : Invocation δ}
  {l : Label δ}

/-! ## Calls that do not move -/

theorem Wrote.frame {write : Nat} {outcome : Outcome} (h : s.Wrote inv write outcome)
    (hframe : Frame s s' inv) : s'.Wrote inv write outcome := by
  obtain ⟨w, clock, hw, hevent, hscope⟩ := h
  obtain ⟨w', hw', hev⟩ := hframe.writes write w hw
  exact ⟨w', clock, hw', hev.event.trans hevent, hev.scope.trans hscope⟩

theorem Run.Kept.answerable {τ : Type} {r r' : Run τ} (hkept : r.Kept r') (h : r.Answerable) :
    r'.Answerable := by
  rcases h with ⟨code, hop⟩ | hrace
  · exact Or.inl ⟨code, by rw [hkept.operation]; exact hop⟩
  · rcases hkept.race with hsame | ⟨hpending, _⟩
    · exact Or.inr (by rw [hsame]; exact hrace)
    · rw [hpending] at hrace
      exact absurd hrace (by simp [Race.isPending])

theorem Invocation.History.frame (h : Invocation.History s inv) (hframe : Frame s s' inv) :
    Invocation.History s' inv := by
  unfold Invocation.History at h ⊢
  cases hphase : inv.operation with
  | allowing write data =>
      simp only [hphase] at h ⊢
      exact ⟨h.1, h.2.1, h.2.2.1, h.2.2.2.frame hframe⟩
  | _ =>
      simp only [hphase] at h ⊢
      exact h

theorem Sound.frame (h : Sound rt s inv) (hframe : Frame s s' inv) : Sound rt s' inv := by
  refine ⟨h.admitted, h.refused, fun row hrun => ?_, h.history.frame hframe⟩
  obtain ⟨r, hr, hmatches, hanswered⟩ := h.slot row hrun
  obtain ⟨r', hr', hkept⟩ := hframe.runs row r hrun hr
  exact ⟨r', hr', by rw [hkept.operation]; exact hmatches,
    fun hc => Run.Kept.answerable hkept (hanswered hc)⟩

/-! ## Calls that move -/

theorem admitted_of_refusal {call : Call}
    (h : s.refusal rt call (rt.get call.name) = none) : call.Admitted rt s.clock.date := by
  unfold refusal at h
  cases htool : rt.get call.name with
  | none => simp [htool] at h
  | some t =>
      simp only [htool] at h
      split at h
      · exact absurd h (by simp)
      · next hmay =>
          split at h
          · exact absurd h (by simp)
          · next hwithin =>
              cases hlen : call.args.byteLength with
              | none => simp [hlen] at h
              | some length =>
                  simp only [hlen] at h
                  split at h
                  · exact absurd h (by simp)
                  · next hsize =>
                      exact ⟨⟨t, htool, by simpa using hmay⟩, by simpa using hwithin, length, hlen,
                        Nat.le_of_not_lt hsize⟩

/-- The row of a call keeps what `Sound` says when its operation goes on over the same run. -/
theorem Sound.advance (h : Sound rt s inv) (hexecution : s'.execution = s.execution)
    (hstatic : inv'.call = inv.call ∧ inv'.invokedAt = inv.invokedAt ∧ inv'.run = inv.run ∧
      inv'.caller = inv.caller)
    (hsome : inv.run.isSome = true)
    (hmatches : ∀ op, inv.operation.Matches op → inv'.operation.Matches op)
    (hhistory : Invocation.History s' inv') : Sound rt s' inv' := by
  obtain ⟨hcall, hinvoked, hrun, hcaller⟩ := hstatic
  refine ⟨fun _ => ?_, fun hnone => ?_, fun row hrow => ?_, hhistory⟩
  · rw [hcall, hinvoked]
    exact h.admitted hsome
  · rw [hrun] at hnone
    simp [hnone] at hsome
  · rw [hrun] at hrow
    obtain ⟨r, hr, hm, ha⟩ := h.slot row hrow
    exact ⟨r, by rw [hexecution]; exact hr, hmatches _ hm, fun hc => ha (by rw [← hcaller]; exact hc)⟩

/-- The operation of a row that was not started has done nothing. -/
theorem Sound.idle (h : Sound rt s inv) {row : Nat} {r : Run Graph} (hrun : inv.run = some row)
    (hrow : s.execution.runs[row]? = some r) (hop : r.operation = .deferred) :
    inv.operation = .idle := by
  obtain ⟨r', hr', hmatches, _⟩ := h.slot row hrun
  obtain rfl := Option.some.inj (hrow.symm.trans hr')
  rw [hop] at hmatches
  exact hmatches.eq_idle (by simp) (by simp)

/-- An operation that is under way belongs to a call with a run. -/
theorem Sound.run_isSome (h : Sound rt s inv) (hphase : inv.operation ≠ .idle) :
    inv.run.isSome = true := by
  cases hrun : inv.run with
  | none => exact absurd (h.refused hrun).1 hphase
  | some row => rfl

theorem Sound.of_fails (h : Sound rt s inv) {code : FailureCode} {audit : AuditDispatcher AuditEvent}
    {counts : List (Outcome × Nat)} (hfails : Fails s inv code audit counts inv')
    (hwrites : ∀ (w : Nat) x, s.audit.writes[w]? = some x →
      ∃ x', s'.audit.writes[w]? = some x' ∧ x.Evolves x')
    (hslot : ∀ row, inv.run = some row → ∃ r, s'.execution.runs[row]? = some r ∧
      inv.operation.Matches r.operation ∧ r.Answerable) : Sound rt s' inv' := by
  have hkeep : ∀ write outcome, s.Wrote inv write outcome → s'.Wrote inv write outcome := by
    intro write outcome hw
    obtain ⟨w, clock, hw, hevent, hscope⟩ := hw
    obtain ⟨w', hw', hev⟩ := hwrites write w hw
    exact ⟨w', clock, hw', hev.event.trans hevent, hev.scope.trans hscope⟩
  have hhistory := h.history
  cases hfails with
  | unrecorded hcode =>
      refine ⟨h.admitted, fun hnone => ⟨(h.refused hnone).1, by simp⟩, fun row hrow => ?_, ?_⟩
      · obtain ⟨r, hr, hm, ha⟩ := hslot row hrow
        exact ⟨r, hr, hm, fun _ => ha⟩
      · unfold Invocation.History at hhistory ⊢
        cases hphase : inv.operation with
        | allowing write data =>
            simp only [hphase] at hhistory ⊢
            exact ⟨hhistory.1, hhistory.2.1, hhistory.2.2.1, hkeep _ _ hhistory.2.2.2⟩
        | _ =>
            simp only [hphase] at hhistory ⊢
            exact hhistory
  | recording hcode =>
      refine ⟨h.admitted, fun hnone => ⟨(h.refused hnone).1, by simp⟩, fun row hrow => ?_, ?_⟩
      · obtain ⟨r, hr, hm, ha⟩ := hslot row hrow
        exact ⟨r, hr, hm, fun _ => ha⟩
      · unfold Invocation.History at hhistory ⊢
        cases hphase : inv.operation with
        | allowing write data =>
            simp only [hphase] at hhistory ⊢
            exact ⟨hhistory.1, hhistory.2.1, List.mem_append_left _ hhistory.2.2.1,
              hkeep _ _ hhistory.2.2.2⟩
        | _ =>
            simp only [hphase] at hhistory ⊢
            exact hhistory

theorem Wrote.of_write (outcome : Outcome) (audit : AuditDispatcher AuditEvent)
    (haudit : audit = s.record inv outcome) (hs' : s'.audit = audit)
    (hinv : inv'.context = inv.context ∧ inv'.start = inv.start ∧ inv'.call = inv.call) :
    s'.Wrote inv' s.audit.writes.length outcome := by
  obtain ⟨w, hwrites, hevent, hscope, _⟩ := AuditDispatcher.write_row s.audit
    (recordEvent inv.context .tool outcome inv.start s.clock) inv.call.scope
  refine ⟨w, s.clock, ?_, ?_, ?_⟩
  · rw [hs', haudit, record, hwrites]
    exact List.getElem?_concat_length
  · rw [hevent, hinv.1, hinv.2.1]
  · rw [hscope, hinv.2.2]

private theorem settle_answerable {τ : Type} (r : Run τ) (result : Except Thrown τ) :
    (r.settle result).Answerable := by
  refine Or.inr ?_
  show (r.race.settle (.operation result)).isPending = false
  rw [Race.settle_isPending]
  simp [Race.isPending]

/-- The row of `work` once it has settled, seen by its call. -/
theorem Sound.of_settle (h : Sound rt s inv) {row : Nat} {r : Run Graph}
    {result : Except Thrown Graph} (hrun : inv.run = some row)
    (hrow : s.execution.runs[row]? = some r)
    (hruns : s'.execution.runs = s.execution.runs.set row (r.settle result)) :
    Sound rt s' { inv with operation := .settled } := by
  refine ⟨h.admitted, fun hnone => ?_, fun j hj => ?_, ?_⟩
  · exact absurd (hrun.symm.trans hnone) (by simp)
  · have hjr : row = j := Option.some.inj (hrun.symm.trans hj)
    subst hjr
    refine ⟨r.settle result, ?_, trivial, fun _ => settle_answerable r result⟩
    rw [hruns]
    exact Table.getElem?_set_of_some hrow
  · have hhistory := h.history
    unfold Invocation.History at hhistory
    show inv.entered = [] ∨ ∃ data, Invocation.Parsed inv data ∧ inv.entered = [data]
    cases hphase : inv.operation with
    | idle | validating =>
        simp only [hphase] at hhistory
        exact Or.inl hhistory.2
    | allowing write data =>
        simp only [hphase] at hhistory
        exact Or.inl hhistory.2.1
    | handling data =>
        simp only [hphase] at hhistory
        exact Or.inr ⟨data, hhistory⟩
    | _ =>
        simp only [hphase] at hhistory
        exact hhistory

theorem Run.answerable_of_result {τ : Type} {r : Run τ} {result : Except Thrown τ}
    (h : r.result = some result) : r.Answerable := by
  unfold Run.result at h
  cases hop : r.operation with
  | refused code => exact Or.inl ⟨code, hop⟩
  | _ =>
      cases hrace : r.race with
      | pending => simp [hop, hrace] at h
      | _ => exact Or.inr (by rw [hrace]; rfl)

theorem runResult_cases {row : Nat} {result : Except Thrown Graph}
    (h : s.runResult row = some result) :
    ∃ r, s.execution.runs[row]? = some r ∧ r.result = some result :=
  Option.bind_eq_some_iff.mp h

/-- The row a call awaits when its promise has settled. -/
private theorem slot_of_result (h : Sound rt s inv) {row : Nat} {result : Except Thrown Graph}
    (hrun : inv.run = some row) (hresult : s.runResult row = some result) :
    ∀ j, inv.run = some j → ∃ r, ((s.execution.answer row).getD s.execution).runs[j]? = some r ∧
      inv.operation.Matches r.operation ∧ r.Answerable := by
  intro j hj
  have hjr : row = j := Option.some.inj (hrun.symm.trans hj)
  subst hjr
  obtain ⟨r, hr, hmatches, _⟩ := h.slot row hrun
  obtain ⟨r', hr', hresult⟩ := runResult_cases hresult
  rw [hr] at hr'
  obtain rfl := Option.some.inj hr'
  obtain ⟨b, hb, hkept⟩ := answer_kept s.execution hr
  exact ⟨b, hb, by rw [hkept.operation]; exact hmatches, Run.Kept.answerable hkept (Run.answerable_of_result hresult)⟩

/-! ## Every step keeps the invariant -/

theorem Linked.init : Linked rt (machine rt δ).init := ⟨by simp [machine], by simp [machine]⟩

/-- Replacing a row by one with the same run keeps the rows of the controller apart. -/
theorem owners_set (h : Linked rt s) {i : Nat} (hi : s.invocations[i]? = some inv)
    (hrun : inv'.run = inv.run) : ∀ (j k : Nat) a b row,
    (s.invocations.set i inv')[j]? = some a → (s.invocations.set i inv')[k]? = some b →
    a.run = some row → b.run = some row → j = k := by
  have hold : ∀ (j : Nat) a, (s.invocations.set i inv')[j]? = some a →
      ∃ a', s.invocations[j]? = some a' ∧ a.run = a'.run := by
    intro j a hj
    rcases Table.getElem?_set_cases hj with ⟨rfl, rfl⟩ | ⟨_, hsame⟩
    · exact ⟨inv, hi, hrun⟩
    · exact ⟨a, hsame, rfl⟩
  intro j k a b row hj hk ha hb
  obtain ⟨a', hj', hrun'⟩ := hold j a hj
  obtain ⟨b', hk', hrun''⟩ := hold k b hk
  exact h.owners j k a' b' row hj' hk' (hrun'.symm.trans ha) (hrun''.symm.trans hb)

/-- A new row has no run, or one that no earlier call has. -/
theorem owners_append (h : Linked rt s)
    (hrun : inv'.run = none ∨ inv'.run = some s.execution.runs.length) : ∀ (j k : Nat) a b row,
    (s.invocations ++ [inv'])[j]? = some a → (s.invocations ++ [inv'])[k]? = some b →
    a.run = some row → b.run = some row → j = k := by
  have hlt : ∀ (j : Nat) a row, s.invocations[j]? = some a → a.run = some row →
      row < s.execution.runs.length := by
    intro j a row hj ha
    obtain ⟨r, hr, _⟩ := (h.rows j a hj).slot row ha
    exact Table.lt_of_getElem? hr
  have hnew : ∀ row, inv'.run = some row → row = s.execution.runs.length := by
    intro row hrow
    rcases hrun with hnone | hsome
    · rw [hnone] at hrow
      exact absurd hrow (by simp)
    · rw [hsome] at hrow
      exact (Option.some.inj hrow).symm
  intro j k a b row hj hk ha hb
  rcases Table.getElem?_append_cases hj with hold | ⟨hlast, rfl⟩
  · rcases Table.getElem?_append_cases hk with hold' | ⟨_, heq⟩
    · exact h.owners j k a b row hold hold' ha hb
    · have := hlt j a row hold ha
      have := hnew row (heq ▸ hb)
      omega
  · rcases Table.getElem?_append_cases hk with hold' | ⟨hlast', _⟩
    · have := hlt k b row hold' hb
      have := hnew row ha
      omega
    · rw [hlast, hlast']

private theorem run_ne (h : Linked rt s) {i j row : Nat} {b : Invocation δ}
    (hi : s.invocations[i]? = some inv) (hrun : inv.run = some row)
    (hj : s.invocations[j]? = some b) (hne : j ≠ i) : b.run ≠ some row :=
  fun hb => hne (h.owners j i b inv row hj hi hb hrun)

/-- A step that moves one call and frames the others. -/
theorem Linked.set (h : Linked rt s) {i : Nat} (hi : s.invocations[i]? = some inv)
    (hinvocations : s'.invocations = s.invocations.set i inv') (hrun : inv'.run = inv.run)
    (hframe : ∀ (j : Nat) b, j ≠ i → s.invocations[j]? = some b → Frame s s' b)
    (hnew : Sound rt s' inv') : Linked rt s' := by
  constructor
  case owners =>
    rw [hinvocations]
    exact owners_set h hi hrun
  case rows =>
    rw [hinvocations]
    exact Table.forall_set_of_ne (fun j b hne hj => (h.rows j b hj).frame (hframe j b hne hj)) hnew

theorem Linked.effect (h : Linked rt s) (he : Effect rt s l s') : Linked rt s' := by
  have hwrites := he.writes
  have he' := he
  cases he with
  | quiet s' hinvocations hcounts haudit hexecution hrequests =>
      refine ⟨by rw [hinvocations]; exact h.owners, fun i inv hi => ?_⟩
      rw [hinvocations] at hi
      exact (h.rows i inv hi).frame (.of_outside he' hexecution)
  | refused call error audit counts inv' hrequest herror hfails =>
      refine ⟨owners_append h (Or.inl ?_),
        Table.forall_append (fun j b hj => (h.rows j b hj).frame (.of_same he' rfl)) ?_⟩
      · cases hfails <;> rfl
      · cases hfails with
        | unrecorded =>
            exact ⟨by simp [opened], fun _ => ⟨rfl, by simp⟩, by simp [opened], by
              simp [Invocation.History, opened]⟩
        | recording =>
            exact ⟨by simp [opened], fun _ => ⟨rfl, by simp⟩, by simp [opened], by
              simp [Invocation.History, opened]⟩
  | accepted call hrequest hnone =>
      refine ⟨owners_append h (Or.inr rfl),
        Table.forall_append (fun j b hj => (h.rows j b hj).frame (.of_run he' rfl)) ?_⟩
      refine ⟨fun _ => admitted_of_refusal hnone, by simp, fun row hrow => ?_, ⟨rfl, rfl⟩⟩
      obtain rfl := Option.some.inj hrow
      unfold ExecutionController.run
      cases s.execution.refusal call.caller with
      | some code =>
          exact ⟨_, List.getElem?_concat_length, trivial, fun hc => absurd rfl hc⟩
      | none => exact ⟨_, List.getElem?_concat_length, trivial, fun hc => absurd rfl hc⟩
  | halted i row inv r reason hi hrun hrow hop hsignal =>
      exact h.set hi rfl rfl (fun j b hne hj => .of_set he' rfl (run_ne h hi hrun hj hne))
        ((h.rows i inv hi).of_settle hrun hrow rfl)
  | started i row inv r hi hrun hrow hop hsignal =>
      refine h.set hi rfl rfl (fun j b hne hj => .of_set he' rfl (run_ne h hi hrun hj hne)) ?_
      have hsound := h.rows i inv hi
      obtain ⟨r', hr', _, hanswered⟩ := hsound.slot row hrun
      rw [hrow] at hr'
      obtain rfl := Option.some.inj hr'
      have hphase := hsound.idle hrun hrow hop
      have hhistory := hsound.history
      unfold Invocation.History at hhistory
      simp only [hphase] at hhistory
      refine ⟨hsound.admitted, fun hnone => absurd (hrun.symm.trans hnone) (by simp),
        fun j hj => ?_, ?_⟩
      · obtain rfl := Option.some.inj (hrun.symm.trans hj)
        refine ⟨_, Table.getElem?_set_of_some hrow, rfl, fun hc => ?_⟩
        rcases hanswered hc with ⟨code, hcode⟩ | hrace
        · rw [hop] at hcode
          exact absurd hcode (by simp)
        · exact Or.inr hrace
      · exact ⟨by simp [hhistory.1], hhistory.2⟩
  | threw i inv error hi hearly =>
      have hsound := h.rows i inv hi
      have hphase : inv.operation ≠ .idle := by
        intro hidle
        rw [hidle] at hearly
        exact absurd hearly (by simp [OperationPhase.isEarly])
      refine h.set hi rfl rfl (fun _ _ _ _ => .of_same he' rfl) ?_
      refine hsound.advance rfl ⟨rfl, rfl, rfl, rfl⟩ (hsound.run_isSome hphase) ?_ ?_
      · intro op hop
        cases hphase : inv.operation <;> simp_all [OperationPhase.Matches, OperationPhase.isEarly]
      · have hhistory := hsound.history
        unfold Invocation.History at hhistory
        show inv.entered = [] ∨ ∃ data, Invocation.Parsed inv data ∧ inv.entered = [data]
        cases hphase : inv.operation with
        | validating =>
            simp only [hphase] at hhistory
            exact Or.inl hhistory.2
        | allowing write data =>
            simp only [hphase] at hhistory
            exact Or.inl hhistory.2.1
        | handling data =>
            simp only [hphase] at hhistory
            exact Or.inr ⟨data, hhistory⟩
        | _ => simp [hphase, OperationPhase.isEarly] at hearly
  | allowed i inv data hi hphase hsignal =>
      have hsound := h.rows i inv hi
      have hhistory := hsound.history
      unfold Invocation.History at hhistory
      simp only [hphase] at hhistory
      refine h.set hi rfl rfl (fun _ _ _ _ => .of_same he' rfl) ?_
      refine hsound.advance rfl ⟨rfl, rfl, rfl, rfl⟩ (hsound.run_isSome (by simp [hphase])) ?_ ?_
      · intro op hop
        rw [hphase] at hop
        exact hop
      · exact ⟨⟨hhistory.1, rfl⟩, hhistory.2, by simp,
          Wrote.of_write .allowed _ rfl rfl ⟨rfl, rfl, rfl⟩⟩
  | entered i write inv data w hi hphase hwrite hdelivery hsignal =>
      have hsound := h.rows i inv hi
      have hhistory := hsound.history
      unfold Invocation.History at hhistory
      simp only [hphase] at hhistory
      refine h.set hi rfl rfl (fun _ _ _ _ => .of_same he' rfl) ?_
      refine hsound.advance rfl ⟨rfl, rfl, rfl, rfl⟩ (hsound.run_isSome (by simp [hphase])) ?_ ?_
      · intro op hop
        rw [hphase] at hop
        exact hop
      · exact ⟨hhistory.1, by simp [hhistory.2.1]⟩
  | handled i inv data value outcome hi hphase hafter =>
      have hsound := h.rows i inv hi
      have hhistory := hsound.history
      unfold Invocation.History at hhistory
      simp only [hphase] at hhistory
      refine h.set hi rfl rfl (fun _ _ _ _ => .of_same he' rfl) ?_
      refine hsound.advance rfl ⟨rfl, rfl, rfl, rfl⟩ (hsound.run_isSome (by simp [hphase])) ?_ ?_
      · intro op hop
        rw [hphase] at hop
        exact hop
      · exact Or.inr ⟨data, hhistory.1, hhistory.2⟩
  | recordLost i write inv value w hi hphase hwrite hdelivery =>
      have hsound := h.rows i inv hi
      have hhistory := hsound.history
      unfold Invocation.History at hhistory
      simp only [hphase] at hhistory
      refine h.set hi rfl rfl (fun _ _ _ _ => .of_same he' rfl) ?_
      refine hsound.advance rfl ⟨rfl, rfl, rfl, rfl⟩ (hsound.run_isSome (by simp [hphase])) ?_ hhistory
      intro op hop
      rw [hphase] at hop
      exact hop
  | recordKept i write inv value w hi hphase hwrite hdelivery =>
      have hsound := h.rows i inv hi
      have hhistory := hsound.history
      unfold Invocation.History at hhistory
      simp only [hphase] at hhistory
      refine h.set hi rfl rfl (fun _ _ _ _ => .of_same he' rfl) ?_
      refine hsound.advance rfl ⟨rfl, rfl, rfl, rfl⟩ (hsound.run_isSome (by simp [hphase])) ?_ hhistory
      intro op hop
      rw [hphase] at hop
      exact hop
  | settled i row inv r result hi hrun hrow hop hphase =>
      exact h.set hi rfl rfl (fun j b hne hj => .of_set he' rfl (run_ne h hi hrun hj hne))
        ((h.rows i inv hi).of_settle hrun hrow rfl)
  | failed i row inv inv' error audit counts hi hrun hcaller hresult hfails =>
      have hsound := h.rows i inv hi
      have hsame : inv'.run = inv.run := by cases hfails <;> rfl
      refine h.set hi rfl hsame (fun _ _ _ _ => .of_answer he' rfl) ?_
      refine hsound.of_fails hfails hwrites ?_
      rcases hresult with hresult | ⟨value, hresult, _⟩
      · exact slot_of_result hsound hrun hresult
      · exact slot_of_result hsound hrun hresult
  | returned i row inv value isError hi hrun hcaller hresult herror =>
      have hsound := h.rows i inv hi
      refine h.set hi rfl rfl (fun _ _ _ _ => .of_answer he' rfl) ?_
      refine ⟨hsound.admitted, fun hnone => absurd (hrun.symm.trans hnone) (by simp),
        fun j hj => ?_, hsound.history.frame (.of_answer he' rfl)⟩
      obtain ⟨b, hb, hmatches, hanswer⟩ := slot_of_result hsound hrun hresult j hj
      exact ⟨b, hb, hmatches, fun _ => hanswer⟩
  | concluded i write inv outcome w hi hcaller hwrite hdelivery =>
      have hsound := h.rows i inv hi
      refine h.set hi rfl rfl (fun _ _ _ _ => .of_same he' rfl) ?_
      refine ⟨hsound.admitted, fun hnone => ⟨(hsound.refused hnone).1, by simp⟩, fun j hj => ?_,
        hsound.history.frame (.of_same he' rfl)⟩
      obtain ⟨b, hb, hmatches, hanswer⟩ := hsound.slot j hj
      exact ⟨b, hb, hmatches, fun _ => hanswer (by simp [hcaller])⟩
  | unconcluded i write inv outcome w hi hcaller hwrite hdelivery =>
      have hsound := h.rows i inv hi
      refine h.set hi rfl rfl (fun _ _ _ _ => .of_same he' rfl) ?_
      refine ⟨hsound.admitted, fun hnone => ⟨(hsound.refused hnone).1, by simp⟩, fun j hj => ?_,
        hsound.history.frame (.of_same he' rfl)⟩
      obtain ⟨b, hb, hmatches, hanswer⟩ := hsound.slot j hj
      exact ⟨b, hb, hmatches, fun _ => hanswer (by simp [hcaller])⟩

theorem Linked.of_reachable (h : (machine rt δ).Reachable s) : Linked rt s :=
  h.invariant Linked.init (fun _ _ _ _ hs hstep => hs.effect (step_effect hstep))

/-- A call whose operation is under way and whose signal is not aborted is still waited for. -/
theorem Sound.waiting (h : Sound rt s inv) (hslots : ExecutionController.Slots s.execution)
    (hphase : ∀ op, inv.operation.Matches op → op = .running) (hidle : inv.operation ≠ .idle)
    (hsignal : s.signal inv = none) : inv.caller = .running ∧ ∃ row r, inv.run = some row ∧
      s.execution.runs[row]? = some r ∧ r.operation = .running ∧ r.signal = none ∧
      r.race.isPending = true := by
  obtain ⟨row, hrun⟩ := Option.isSome_iff_exists.mp (h.run_isSome hidle)
  obtain ⟨r, hrow, hmatches, hanswered⟩ := h.slot row hrun
  have hop : r.operation = .running := hphase _ hmatches
  have hnone : r.signal = none := by simpa [signal, hrun, hrow] using hsignal
  have hpending : r.race.isPending = true := by
    by_contra hne
    rcases (hslots.rows row r hrow).decided (by simpa using hne) with hs | hs
    · simp [hnone] at hs
    · simp [hop] at hs
  refine ⟨?_, row, r, hrun, hrow, hop, hnone, hpending⟩
  by_contra hne
  rcases hanswered hne with ⟨code, hcode⟩ | hrace
  · rw [hop] at hcode
    exact absurd hcode (by simp)
  · rw [hpending] at hrace
    exact absurd hrace (by simp)

/-! ## Entering the handler -/

/-- What the handler of a call has been entered with. -/
def enteredAt (s : SecureRuntime δ) (i : Nat) : List δ :=
  match s.invocations[i]? with
  | some inv => inv.entered
  | none => []

theorem enteredAt_of_some {i : Nat} (hi : s.invocations[i]? = some inv) :
    s.enteredAt i = inv.entered := by
  simp [enteredAt, hi]

theorem enteredAt_set {i j : Nat} (hi : s.invocations[i]? = some inv)
    (hs' : s'.invocations = s.invocations.set i inv') (hsame : inv'.entered = inv.entered) :
    s'.enteredAt j = s.enteredAt j := by
  by_cases hji : j = i
  · subst hji
    rw [enteredAt_of_some (s := s') (by rw [hs']; exact Table.getElem?_set_of_some hi),
      enteredAt_of_some hi, hsame]
  · simp only [enteredAt, hs', Table.getElem?_set_of_ne hji]

theorem enteredAt_append {j : Nat} (hs' : s'.invocations = s.invocations ++ [inv'])
    (hnil : inv'.entered = []) : s'.enteredAt j = s.enteredAt j := by
  unfold enteredAt
  rw [hs']
  cases hj : s.invocations[j]? with
  | some b => rw [Table.getElem?_append_of_some hj]
  | none =>
      cases hj' : (s.invocations ++ [inv'])[j]? with
      | none => rfl
      | some b =>
          rcases Table.getElem?_append_cases hj' with hold | ⟨_, rfl⟩
          · rw [hj] at hold
            exact absurd hold (by simp)
          · exact hnil

/-- Only the step after the `allowed` record enters a handler. -/
theorem Effect.enteredAt (he : Effect rt s l s') (j : Nat) : s'.enteredAt j = s.enteredAt j ∨
    ∃ write inv data w, s.invocations[j]? = some inv ∧ inv.operation = .allowing write data ∧
      s.audit.writes[write]? = some w ∧ w.delivery = .fulfilled ∧ s.signal inv = none ∧
      s'.enteredAt j = inv.entered ++ [data] ∧ s'.execution = s.execution := by
  cases he with
  | quiet s' hinvocations hcounts haudit hexecution hrequests =>
      exact Or.inl (by simp only [SecureRuntime.enteredAt, hinvocations])
  | refused call error audit counts inv' hrequest herror hfails =>
      exact Or.inl (enteredAt_append rfl (by cases hfails <;> rfl))
  | accepted call hrequest hnone => exact Or.inl (enteredAt_append rfl rfl)
  | entered i write inv data w hi hphase hwrite hdelivery hsignal =>
      by_cases hji : j = i
      · subst hji
        refine Or.inr ⟨write, inv, data, w, hi, hphase, hwrite, hdelivery, hsignal, ?_, rfl⟩
        simp only [SecureRuntime.enteredAt, Table.getElem?_set_of_some hi]
      · exact Or.inl (by simp only [SecureRuntime.enteredAt, Table.getElem?_set_of_ne hji])
  | failed i row inv inv' error audit counts hi hrun hcaller hresult hfails =>
      exact Or.inl (enteredAt_set hi rfl (by cases hfails <;> rfl))
  | halted i row inv r reason hi | started i row inv r hi | threw i inv error hi
  | allowed i inv data hi | handled i inv data value outcome hi | recordLost i write inv value w hi
  | recordKept i write inv value w hi | settled i row inv r result hi
  | returned i row inv value isError hi | concluded i write inv outcome w hi
  | unconcluded i write inv outcome w hi => exact Or.inl (enteredAt_set hi rfl rfl)

/-- Admission safety. Whenever a step enters a tool handler, in any reachable state of any runtime:

    * the call had passed the policy and the input limits when it was made, and its arguments hold
      no reserved key at any depth;
    * the schema was run once, on these arguments, and the handler gets what it produced, for the
      first time;
    * the `allowed` record of this call has been acknowledged by the sink before its timer;
    * nothing has aborted the bounded signal, and no `close` has been called;
    * the operation holds one of at most `maxConcurrent` slots, and its caller is still waiting. -/
theorem admission_safety (h : (machine rt δ).Reachable s)
    (hstep : (machine rt δ).step s l = some s') (i : Nat) (hentered : s'.enteredAt i ≠ s.enteredAt i) :
    ∃ inv row r write w data,
      (s.invocations[i]? = some inv ∧ inv.run = some row ∧ s'.execution.runs[row]? = some r) ∧
      inv.call.Admitted rt inv.invokedAt ∧
      (∀ address, inv.call.args.Reaches inv.call.args.root address →
        inv.call.args.hasReservedToolArgumentKey (.ref address) = false) ∧
      (inv.schemaRuns = [inv.call.args] ∧ inv.parsed = some data ∧ s.enteredAt i = [] ∧
        s'.enteredAt i = [data]) ∧
      (write ∈ inv.records ∧ s.audit.writes[write]? = some w ∧
        (∃ clock, w.event = recordEvent inv.context .tool .allowed inv.start clock) ∧
        w.delivery = .fulfilled ∧ w.observed.head? = some .sinkFulfilled) ∧
      (r.signal = none ∧ r.reason = none ∧ r.caller = none ∧ s'.execution.closing = false) ∧
      (r.operation = .running ∧ row ∈ s'.execution.active ∧
        s'.execution.active.length ≤ rt.config.limits.maxConcurrent) ∧
      inv.caller = .running := by
  have hlinked := Linked.of_reachable h
  have hslots := ExecutionController.Slots.of_reachable (execution_reachable h)
  have hbooks := AuditDispatcher.Accounting.of_reachable (audit_reachable h)
  rcases (step_effect hstep).enteredAt i with hsame |
    ⟨write, inv, data, w, hi, hphase, hwrite, hdelivery, hsignal, hdata, hexecution⟩
  · exact absurd hsame hentered
  · have hsound := hlinked.rows i inv hi
    have hhistory := hsound.history
    unfold Invocation.History at hhistory
    simp only [hphase] at hhistory
    obtain ⟨⟨hschema, hparsed⟩, hnil, hrecord, hwrote⟩ := hhistory
    have hsome := hsound.run_isSome (by simp [hphase])
    obtain ⟨hwait, row, r, hrun, hrow, hop, hnone, _⟩ :=
      hsound.waiting hslots (by simp [hphase, OperationPhase.Matches]) (by simp [hphase]) hsignal
    have hcons := hslots.rows row r hrow
    have hocc : r.occupies = true := by simp [Run.occupies, hop]
    -- an aborted source would have aborted the signal
    have hsources : r.reason = none ∧ r.caller = none := by
      constructor
      · by_contra hne
        have := hcons.sources (Or.inl (Option.isSome_iff_ne_none.mpr hne))
        simp [hnone] at this
      · by_contra hne
        have := hcons.sources (Or.inr (Option.isSome_iff_ne_none.mpr hne))
        simp [hnone] at this
    have hopen : s.execution.closing = false := by
      by_contra hne
      have := hslots.halted (by simpa using hne) row r hrow hocc
      simp [hnone] at this
    have hadmitted := hsound.admitted hsome
    have hw := hbooks.rows write w hwrite
    have hfirst : w.observed.head? = some .sinkFulfilled := by
      refine (hw.fulfilled (fun href => ?_)).mp (Or.inr hdelivery)
      rw [(hw.refused href).1] at hdelivery
      exact absurd hdelivery (by simp)
    obtain ⟨w', clock, hw', hevent, _⟩ := hwrote
    rw [hwrite] at hw'
    obtain rfl := Option.some.inj hw'
    refine ⟨inv, row, r, write, w, data, ⟨hi, hrun, by rw [hexecution]; exact hrow⟩, hadmitted,
      fun address hreach => Graph.reserved_of_within hadmitted.within hreach,
      ⟨hschema, hparsed, by rw [enteredAt_of_some hi, hnil], by rw [hdata, hnil]; rfl⟩,
      ⟨hrecord, hwrite, ⟨clock, hevent⟩, hdelivery, hfirst⟩,
      ⟨hnone, hsources.1, hsources.2, by rw [hexecution]; exact hopen⟩, ⟨hop, ?_, ?_⟩, hwait⟩
    · rw [hexecution]
      exact (hslots.slots.mem row).mpr ⟨r, hrow, hocc⟩
    · rw [hexecution, ← ExecutionController.maxConcurrent_of_reachable (execution_reachable h)]
      exact hslots.bounded

/-- One read-only tool behind the scope `notes:read`, two slots. The digest is the one of the
    local principal, which is the only one the runs below use. -/
def notesRuntime : RuntimeSetup where
  config :=
    { allowedTools := [js "notes"], readOnly := true, maxPending := 8
      limits :=
        { maxConcurrent := 2, maxInputBytes := 1024, maxInputElements := 16
          maxOutputBytes := 1024 } }
  registry := [{ name := js "notes", requiredScopes := [js "notes:read"], readOnly := true }]
  sha256 := fun _ =>
    [129, 134, 29, 111, 218, 112, 157, 175, 26, 163, 68, 36, 49, 25, 220, 246, 128, 99, 171, 14,
      135, 67, 35, 174, 146, 6, 98, 59, 226, 218, 222, 133]

/-- `{"id":"a"}`. -/
def notesArgs : Graph where
  size := 1
  node := fun _ => .object [(js "id", .scalar (.string (js "a")))]
  root := .ref ⟨0, Nat.one_pos⟩

def notesCall : Call where
  principal := { subject := js "local", issuer := js "process", scopes := [js "notes:read"] }
  name := js "notes"
  args := notesArgs
  uuid := js "00000000-0000-4000-8000-000000000000"

/-- `{"content":[]}`. -/
def notesResult : Graph where
  size := 2
  node := fun address =>
    match address with
    | 0 => .object [(js "content", .ref 1)]
    | 1 => .array []
  root := .ref 0

/-- A call whose `allowed` record is acknowledged at once. -/
def admittedCall : List (Label String) :=
  [.invoke notesCall, .start 0, .validated 0 (.success "a"), .audit (.callSink 0 .returned),
    .audit (.resume 0)]

theorem admission_safety_admittedCall :
    ∃ s s' : SecureRuntime String,
      (machine notesRuntime String).exec (machine notesRuntime String).init admittedCall = some s ∧
      (machine notesRuntime String).step s (.admitted 0) = some s' ∧
      s.enteredAt 0 = [] ∧ s'.enteredAt 0 = ["a"] ∧ s'.execution.active.length ≤ 2 := by
  have hrun : ∃ s s' : SecureRuntime String,
      (machine notesRuntime String).exec (machine notesRuntime String).init admittedCall = some s ∧
      (machine notesRuntime String).step s (.admitted 0) = some s' ∧
      s.enteredAt 0 = [] ∧ s'.enteredAt 0 = ["a"] := ⟨_, _, rfl, rfl, rfl, rfl⟩
  obtain ⟨s, s', hexec, hstep, hbefore, hafter⟩ := hrun
  obtain ⟨_, _, _, _, _, _, _, _, _, _, _, _, ⟨_, _, hbound⟩, _⟩ :=
    admission_safety (Machine.leads_of_exec hexec) hstep 0 (by simp [hbefore, hafter])
  exact ⟨s, s', hexec, hstep, hbefore, hafter, hbound⟩

end SecureRuntime

end SecureMcp
