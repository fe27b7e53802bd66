import SecureMcp.Runtime.Admission

set_option autoImplicit false

/-! # What a returned result rests on

Whatever `invoke` returns, some record stands behind it: a result of a handler is returned only after
its `success` or `tool_error` record was acknowledged, and the flag `toolOutcomeRecorded` of a
request is only set after a terminal record of a call of that request was. -/

namespace SecureMcp

variable {δ : Type}

/-- The outcomes that end a call. -/
def Outcome.endsCall : Outcome → Bool
  | .success | .tool_error | .failure _ => true
  | _ => false

namespace SecureRuntime

/-- A write has settled this way. -/
def Delivered (s : SecureRuntime δ) (write : Nat) (delivery : Delivery) : Prop :=
  ∃ w, s.audit.writes[write]? = some w ∧ w.delivery = delivery

/-- The record that the operation of this call made of its result is acknowledged. -/
def Acknowledged (s : SecureRuntime δ) (inv : Invocation δ) (value : Graph) : Prop :=
  ∃ write isError, write ∈ inv.records ∧ value.isError = some isError ∧
    s.Wrote inv write (resultOutcome isError) ∧ s.Delivered write .fulfilled

structure Evidence (s : SecureRuntime δ) (inv : Invocation δ) : Prop where
  recording : ∀ write value, inv.operation = .recording write value →
    write ∈ inv.records ∧ ∃ isError, value.isError = some isError ∧
      s.Wrote inv write (resultOutcome isError)
  recorded : ∀ value, inv.operation = .recorded (.ok value) → s.Acknowledged inv value
  settled : ∀ row r value, inv.run = some row → s.execution.runs[row]? = some r →
    r.race = .operation (.ok value) → s.Acknowledged inv value
  concluding : ∀ write outcome, inv.caller = .concluding write outcome →
    write ∈ inv.records ∧ s.Wrote inv write outcome ∧ ∃ code, outcome = .failure code
  answered : ∀ outcome value, inv.caller = .answered outcome value →
    (∃ code, outcome = .failure code ∧ value = errorResult outcome) ∨
      ∃ isError, value.isError = some isError ∧ outcome = resultOutcome isError ∧
        s.Acknowledged inv value

variable {rt : RuntimeSetup} {s s' : SecureRuntime δ} {inv inv' : Invocation δ} {l : Label δ}

/-! ## Calls that do not move -/

/-- The writes that a step keeps. -/
def WritesKept (s s' : SecureRuntime δ) : Prop := ∀ (w : Nat) x, s.audit.writes[w]? = some x →
  ∃ x', s'.audit.writes[w]? = some x' ∧ x.Evolves x'

theorem Wrote.kept {write : Nat} {outcome : Outcome} (h : s.Wrote inv write outcome)
    (hkept : WritesKept s s')
    (hinv : inv'.context = inv.context ∧ inv'.start = inv.start ∧ inv'.call = inv.call) :
    s'.Wrote inv' write outcome := by
  obtain ⟨w, clock, hw, hevent, hscope⟩ := h
  obtain ⟨w', hw', hev⟩ := hkept write w hw
  refine ⟨w', clock, hw', ?_, ?_⟩
  · rw [hev.event, hevent, hinv.1, hinv.2.1]
  · rw [hev.scope, hscope, hinv.2.2]

theorem Delivered.kept {write : Nat} {delivery : Delivery} (h : s.Delivered write delivery)
    (hkept : WritesKept s s') (hsettled : delivery.settled = true) :
    s'.Delivered write delivery := by
  obtain ⟨w, hw, hdelivery⟩ := h
  obtain ⟨w', hw', hev⟩ := hkept write w hw
  exact ⟨w', hw', by rw [hev.delivery (by rw [hdelivery]; exact hsettled), hdelivery]⟩

theorem Acknowledged.kept {value : Graph} (h : s.Acknowledged inv value) (hkept : WritesKept s s')
    (hinv : inv'.context = inv.context ∧ inv'.start = inv.start ∧ inv'.call = inv.call)
    (hrecords : ∀ write ∈ inv.records, write ∈ inv'.records) : s'.Acknowledged inv' value := by
  obtain ⟨write, isError, hmem, herror, hwrote, hdelivered⟩ := h
  exact ⟨write, isError, hrecords write hmem, herror, hwrote.kept hkept hinv,
    hdelivered.kept hkept rfl⟩

theorem afterHandler_ok {value : Graph} {outcome : Outcome}
    (h : s.afterHandler rt inv value = .ok outcome) :
    s.signal inv = none ∧ ∃ isError, value.isError = some isError ∧
      outcome = resultOutcome isError := by
  unfold afterHandler at h
  cases hsignal : s.signal inv with
  | some reason => simp [hsignal] at h
  | none =>
      refine ⟨rfl, ?_⟩
      cases hlength : value.byteLength with
      | none => simp [hsignal, hlength] at h
      | some length =>
          simp only [hsignal, hlength] at h
          split at h
          · exact absurd h (by simp)
          · cases herror : value.isError with
            | none => simp [herror] at h
            | some isError =>
                simp only [herror] at h
                exact ⟨isError, rfl, (Except.ok.inj h).symm⟩

theorem answer_race (c : ExecutionController Graph) {row j : Nat} {b b' : Run Graph}
    (hj : c.runs[j]? = some b) (hj' : ((c.answer row).getD c).runs[j]? = some b') :
    b'.race = b.race := by
  rcases answer_runs c row with hsame | ⟨r, hr, hset⟩
  · rw [hsame, hj] at hj'
    rw [Option.some.inj hj']
  · rw [hset] at hj'
    rcases Table.getElem?_set_cases hj' with ⟨rfl, rfl⟩ | ⟨_, hold⟩
    · rw [hr] at hj
      rw [← Option.some.inj hj]
    · rw [hj] at hold
      rw [Option.some.inj hold]

/-- The race of a row that settles: its own result, or what had decided it. -/
theorem settle_race_ok {r : Run Graph} {result : Except Thrown Graph} {value : Graph}
    (h : (r.settle result).race = .operation (.ok value)) :
    result = .ok value ∨ r.race = .operation (.ok value) := by
  cases hrace : r.race with
  | pending =>
      simp only [Run.settle, hrace, Race.settle] at h
      exact Or.inl (Race.operation.inj h)
  | operation first =>
      simp only [Run.settle, hrace, Race.settle] at h
      exact Or.inr h
  | aborted code => simp [Run.settle, hrace, Race.settle] at h

/-- What stands behind a caller that does not move. -/
theorem Evidence.move (h : Evidence s inv) (hkept : WritesKept s s')
    (hinv : inv'.context = inv.context ∧ inv'.start = inv.start ∧ inv'.call = inv.call)
    (hrecords : ∀ write ∈ inv.records, write ∈ inv'.records) (hcaller : inv'.caller = inv.caller)
    (hrecording : ∀ write value, inv'.operation = .recording write value →
      write ∈ inv'.records ∧ ∃ isError, value.isError = some isError ∧
        s'.Wrote inv' write (resultOutcome isError))
    (hrecorded : ∀ value, inv'.operation = .recorded (.ok value) → s'.Acknowledged inv' value)
    (hsettled : ∀ row r value, inv'.run = some row → s'.execution.runs[row]? = some r →
      r.race = .operation (.ok value) → s.Acknowledged inv value) : Evidence s' inv' := by
  refine ⟨hrecording, hrecorded, fun row r value hrun hr hrace =>
    (hsettled row r value hrun hr hrace).kept hkept hinv hrecords, fun write outcome hc => ?_,
    fun outcome value hc => ?_⟩
  · obtain ⟨hmem, hwrote, hcode⟩ := h.concluding write outcome (hcaller ▸ hc)
    exact ⟨hrecords write hmem, hwrote.kept hkept hinv, hcode⟩
  · rcases h.answered outcome value (hcaller ▸ hc) with hleft | ⟨isError, herror, hout, hack⟩
    · exact Or.inl hleft
    · exact Or.inr ⟨isError, herror, hout, hack.kept hkept hinv hrecords⟩

theorem Evidence.frame (h : Evidence s inv) (hsound : Sound rt s inv) (hframe : Frame s s' inv) :
    Evidence s' inv := by
  refine h.move hframe.writes ⟨rfl, rfl, rfl⟩ (fun _ hw => hw) rfl (fun write value hop => ?_)
    (fun value hop => ?_) (fun row r' value hrun hr' hrace => ?_)
  · obtain ⟨hmem, isError, herror, hwrote⟩ := h.recording write value hop
    exact ⟨hmem, isError, herror, hwrote.frame hframe⟩
  · exact (h.recorded value hop).kept hframe.writes ⟨rfl, rfl, rfl⟩ (fun _ hw => hw)
  · obtain ⟨r, hr, _⟩ := hsound.slot row hrun
    obtain ⟨b, hb, hkept⟩ := hframe.runs row r hrun hr
    rw [hr'] at hb
    obtain rfl := Option.some.inj hb
    rcases hkept.race with hsame | ⟨_, _, code, haborted⟩
    · exact h.settled row r value hrun hr (hsame ▸ hrace)
    · rw [haborted] at hrace
      exact absurd hrace (by simp)

theorem Evidence.of_fails (h : Evidence s inv) {code : FailureCode}
    {audit : AuditDispatcher AuditEvent} {counts : List (Outcome × Nat)}
    (hfails : Fails s inv code audit counts inv') (haudit : s'.audit = audit)
    (hkept : WritesKept s s')
    (hsettled : ∀ row r value, inv.run = some row → s'.execution.runs[row]? = some r →
      r.race = .operation (.ok value) → s.Acknowledged inv value) : Evidence s' inv' := by
  cases hfails with
  | unrecorded hcode =>
      refine ⟨fun write value hop => ?_, fun value hop => ?_, fun row r value hrun hr hrace => ?_,
        fun write outcome hc => absurd hc (by simp), fun outcome value hc => ?_⟩
      · obtain ⟨hmem, isError, herror, hwrote⟩ := h.recording write value hop
        exact ⟨hmem, isError, herror, hwrote.kept hkept ⟨rfl, rfl, rfl⟩⟩
      · exact (h.recorded value hop).kept hkept ⟨rfl, rfl, rfl⟩ (fun _ hw => hw)
      · exact (hsettled row r value hrun hr hrace).kept hkept ⟨rfl, rfl, rfl⟩ (fun _ hw => hw)
      · simp only [CallerPhase.answered.injEq] at hc
        exact Or.inl ⟨code, hc.1.symm, by rw [← hc.1]; exact hc.2.symm⟩
  | recording hcode =>
      have hmem : ∀ write ∈ inv.records, write ∈ inv.records ++ [s.audit.writes.length] :=
        fun _ hw => List.mem_append_left _ hw
      refine ⟨fun write value hop => ?_, fun value hop => ?_, fun row r value hrun hr hrace => ?_,
        fun write outcome hc => ?_, fun outcome value hc => absurd hc (by simp)⟩
      · obtain ⟨hw, isError, herror, hwrote⟩ := h.recording write value hop
        exact ⟨hmem write hw, isError, herror, hwrote.kept hkept ⟨rfl, rfl, rfl⟩⟩
      · exact (h.recorded value hop).kept hkept ⟨rfl, rfl, rfl⟩ hmem
      · exact (hsettled row r value hrun hr hrace).kept hkept ⟨rfl, rfl, rfl⟩ hmem
      · simp only [CallerPhase.concluding.injEq] at hc
        obtain ⟨rfl, rfl⟩ := hc
        exact ⟨by simp, Wrote.of_write (.failure code) _ rfl haudit ⟨rfl, rfl, rfl⟩, code, rfl⟩

theorem Evidence.opened (call : Call) : Evidence s (s.opened rt call) :=
  ⟨by simp [SecureRuntime.opened], by simp [SecureRuntime.opened], by simp [SecureRuntime.opened],
    by simp [SecureRuntime.opened], by simp [SecureRuntime.opened]⟩

/-- A promise of `execution.run` that fulfils carries the operation's own result. -/
theorem race_of_result {row : Nat} {value : Graph} (h : s.runResult row = some (.ok value)) :
    ∃ r, s.execution.runs[row]? = some r ∧ r.race = .operation (.ok value) := by
  obtain ⟨r, hr, hresult⟩ := runResult_cases h
  refine ⟨r, hr, ?_⟩
  unfold Run.result at hresult
  cases hop : r.operation with
  | refused code => simp [hop] at hresult
  | _ =>
      cases hrace : r.race with
      | operation result =>
          simp only [hop, hrace, Option.some.injEq] at hresult
          rw [hresult]
      | pending => simp [hop, hrace] at hresult
      | aborted code => simp [hop, hrace] at hresult

/-! ## Every step keeps it -/

theorem evidence_effect (hlinked : Linked rt s)
    (h : ∀ (i : Nat) inv, s.invocations[i]? = some inv → Evidence s inv)
    (he : Effect rt s l s') :
    ∀ (i : Nat) inv, s'.invocations[i]? = some inv → Evidence s' inv := by
  have hkept : WritesKept s s' := he.writes
  have he' := he
  have hsame : s'.execution.runs = s.execution.runs → ∀ {i : Nat} {inv' : Invocation δ},
      Evidence s' inv' → ∀ (j : Nat) b, (s.invocations.set i inv')[j]? = some b → Evidence s' b :=
    fun hruns => Table.forall_set (fun j b hj =>
      (h j b hj).frame (hlinked.rows j b hj) (.of_same he' hruns))
  have hset : ∀ {i row : Nat} {a inv' : Invocation δ} {r' : Run Graph},
      s.invocations[i]? = some a → a.run = some row →
      s'.execution.runs = s.execution.runs.set row r' → Evidence s' inv' →
      ∀ (j : Nat) b, (s.invocations.set i inv')[j]? = some b → Evidence s' b :=
    fun hi hrun hruns => Table.forall_set_of_ne (fun j b hne hj =>
      (h j b hj).frame (hlinked.rows j b hj) (.of_set he' hruns
        (fun hb => hne (hlinked.owners _ _ _ _ _ hj hi hb hrun))))
  have hanswer : ∀ {row : Nat}, s'.execution = (s.execution.answer row).getD s.execution →
      ∀ {i : Nat} {inv' : Invocation δ}, Evidence s' inv' →
      ∀ (j : Nat) b, (s.invocations.set i inv')[j]? = some b → Evidence s' b :=
    fun hexecution => Table.forall_set (fun j b hj =>
      (h j b hj).frame (hlinked.rows j b hj) (.of_answer he' hexecution))
  cases he with
  | quiet s' hinvocations hcounts haudit hexecution hrequests =>
      intro i inv hi
      rw [hinvocations] at hi
      exact (h i inv hi).frame (hlinked.rows i inv hi) (.of_outside he' hexecution)
  | refused call error audit counts inv' hrequest herror hfails =>
      refine Table.forall_append (fun j b hj => (h j b hj).frame (hlinked.rows j b hj)
        (.of_same he' rfl)) ?_
      exact (Evidence.opened call).of_fails hfails rfl hkept (by simp [opened])
  | accepted call hrequest hnone =>
      refine Table.forall_append (fun j b hj => (h j b hj).frame (hlinked.rows j b hj)
        (.of_run he' rfl)) ?_
      refine ⟨by simp [opened], by simp [opened], fun row r value hrun hr hrace => ?_,
        by simp [opened], by simp [opened]⟩
      obtain rfl := Option.some.inj hrun
      unfold ExecutionController.run at hr
      split at hr
      · rw [List.getElem?_concat_length] at hr
        rw [← Option.some.inj hr] at hrace
        exact absurd hrace (by simp)
      · rw [List.getElem?_concat_length] at hr
        rw [← Option.some.inj hr] at hrace
        exact absurd hrace (by simp)
  | halted i row inv r reason hi hrun hrow hop hsignal =>
      refine hset hi hrun rfl ?_
      refine (h i inv hi).move hkept ⟨rfl, rfl, rfl⟩ (fun _ hw => hw) rfl (by simp) (by simp)
        (fun row' r' value hrun' hr' hrace => ?_)
      obtain rfl := Option.some.inj (hrun.symm.trans hrun')
      have hsame : r' = r.settle (.error reason) :=
        Option.some.inj (hr'.symm.trans (Table.getElem?_set_of_some hrow))
      subst hsame
      rcases settle_race_ok hrace with hok | hold
      · exact absurd hok (by simp)
      · exact (h i inv hi).settled row r value hrun hrow hold
  | started i row inv r hi hrun hrow hop hsignal =>
      refine hset hi hrun rfl ?_
      refine (h i inv hi).move hkept ⟨rfl, rfl, rfl⟩ (fun _ hw => hw) rfl (by simp) (by simp)
        (fun row' r' value hrun' hr' hrace => ?_)
      obtain rfl := Option.some.inj (hrun.symm.trans hrun')
      have hsame := Option.some.inj (hr'.symm.trans (Table.getElem?_set_of_some hrow))
      subst hsame
      exact (h i inv hi).settled row r value hrun hrow hrace
  | threw i inv error hi hearly =>
      refine hsame rfl ?_
      exact (h i inv hi).move hkept ⟨rfl, rfl, rfl⟩ (fun _ hw => hw) rfl (by simp) (by simp)
        (h i inv hi).settled
  | allowed i inv data hi hphase hsignal =>
      refine hsame rfl ?_
      exact (h i inv hi).move hkept ⟨rfl, rfl, rfl⟩ (fun _ hw => List.mem_append_left _ hw) rfl
        (by simp) (by simp) (h i inv hi).settled
  | entered i write inv data w hi hphase hwrite hdelivery hsignal =>
      refine hsame rfl ?_
      exact (h i inv hi).move hkept ⟨rfl, rfl, rfl⟩ (fun _ hw => hw) rfl (by simp) (by simp)
        (h i inv hi).settled
  | handled i inv data value outcome hi hphase hafter =>
      refine hsame rfl ?_
      obtain ⟨_, isError, herror, rfl⟩ := afterHandler_ok hafter
      refine (h i inv hi).move hkept ⟨rfl, rfl, rfl⟩ (fun _ hw => List.mem_append_left _ hw) rfl
        (fun write value' hop => ?_) (by simp) (h i inv hi).settled
      simp only [OperationPhase.recording.injEq] at hop
      obtain ⟨rfl, rfl⟩ := hop
      exact ⟨by simp, isError, herror, Wrote.of_write _ _ rfl rfl ⟨rfl, rfl, rfl⟩⟩
  | recordLost i write inv value w hi hphase hwrite hdelivery =>
      refine hsame rfl ?_
      exact (h i inv hi).move hkept ⟨rfl, rfl, rfl⟩ (fun _ hw => hw) rfl (by simp) (by simp)
        (h i inv hi).settled
  | recordKept i write inv value w hi hphase hwrite hdelivery =>
      refine hsame rfl ?_
      refine (h i inv hi).move hkept ⟨rfl, rfl, rfl⟩ (fun _ hw => hw) rfl (by simp)
        (fun value' hop => ?_) (h i inv hi).settled
      simp only [OperationPhase.recorded.injEq, Except.ok.injEq] at hop
      subst hop
      obtain ⟨hmem, isError, herror, hwrote⟩ := (h i inv hi).recording write value hphase
      exact ⟨write, isError, hmem, herror, hwrote.kept hkept ⟨rfl, rfl, rfl⟩, w, hwrite, hdelivery⟩
  | settled i row inv r result hi hrun hrow hop hphase =>
      refine hset hi hrun rfl ?_
      refine (h i inv hi).move hkept ⟨rfl, rfl, rfl⟩ (fun _ hw => hw) rfl (by simp) (by simp)
        (fun row' r' value hrun' hr' hrace => ?_)
      obtain rfl := Option.some.inj (hrun.symm.trans hrun')
      have hsame : r' = r.settle result :=
        Option.some.inj (hr'.symm.trans (Table.getElem?_set_of_some hrow))
      subst hsame
      rcases settle_race_ok hrace with rfl | hold
      · rcases hphase with ⟨error, _, herror⟩ | hrecorded
        · exact absurd herror (by simp)
        · exact (h i inv hi).recorded value hrecorded
      · exact (h i inv hi).settled row r value hrun hrow hold
  | failed i row inv inv' error audit counts hi hrun hcaller hresult hfails =>
      refine hanswer rfl ?_
      refine (h i inv hi).of_fails hfails rfl hkept (fun row' r' value hrun' hr' hrace => ?_)
      obtain ⟨r, hr, _⟩ := (hlinked.rows i inv hi).slot row' hrun'
      rw [answer_race s.execution hr hr'] at hrace
      exact (h i inv hi).settled row' r value hrun' hr hrace
  | returned i row inv value isError hi hrun hcaller hresult herror =>
      refine hanswer rfl ?_
      have hev := h i inv hi
      refine ⟨hev.recording, hev.recorded, fun row' r' value' hrun' hr' hrace => ?_,
        fun write outcome hc => absurd hc (by simp), fun outcome value' hc => ?_⟩
      · obtain ⟨r, hr, _⟩ := (hlinked.rows i inv hi).slot row' hrun'
        rw [answer_race s.execution hr hr'] at hrace
        exact hev.settled row' r value' hrun' hr hrace
      · simp only [CallerPhase.answered.injEq] at hc
        obtain ⟨rfl, rfl⟩ := hc
        obtain ⟨r, hr, hrace⟩ := race_of_result hresult
        exact Or.inr ⟨isError, herror, rfl, hev.settled row r value hrun hr hrace⟩
  | concluded i write inv outcome w hi hcaller hwrite hdelivery =>
      refine hsame rfl ?_
      have hev := h i inv hi
      refine ⟨hev.recording, hev.recorded, hev.settled, fun write outcome hc => absurd hc (by simp),
        fun outcome' value' hc => ?_⟩
      simp only [CallerPhase.answered.injEq] at hc
      obtain ⟨rfl, rfl⟩ := hc
      obtain ⟨_, _, code, hcode⟩ := hev.concluding write outcome hcaller
      exact Or.inl ⟨code, hcode, rfl⟩
  | unconcluded i write inv outcome w hi hcaller hwrite hdelivery =>
      refine hsame rfl ?_
      have hev := h i inv hi
      refine ⟨hev.recording, hev.recorded, hev.settled, fun write outcome hc => absurd hc (by simp),
        fun outcome' value' hc => ?_⟩
      simp only [CallerPhase.answered.injEq] at hc
      obtain ⟨rfl, rfl⟩ := hc
      exact Or.inl ⟨_, rfl, rfl⟩

theorem Evidence.of_reachable (h : (machine rt δ).Reachable s) :
    ∀ (i : Nat) inv, s.invocations[i]? = some inv → Evidence s inv := by
  refine h.invariant (I := fun s => ∀ (i : Nat) inv, s.invocations[i]? = some inv → Evidence s inv)
    (by simp [machine]) (fun a l b ha hrows hstep => ?_)
  exact evidence_effect (Linked.of_reachable ha) hrows (step_effect hstep)

/-! ## The flag of a request -/

/-- What a call keeps over any step. -/
structure Grows (inv inv' : Invocation δ) : Prop where
  call : inv'.call = inv.call
  context : inv'.context = inv.context
  start : inv'.start = inv.start
  records : ∀ write ∈ inv.records, write ∈ inv'.records

theorem Grows.refl (inv : Invocation δ) : Grows inv inv := ⟨rfl, rfl, rfl, fun _ hw => hw⟩

theorem Grows.of_fails {code : FailureCode} {audit : AuditDispatcher AuditEvent}
    {counts : List (Outcome × Nat)} (hfails : Fails s inv code audit counts inv') :
    Grows inv inv' := by
  cases hfails with
  | unrecorded => exact ⟨rfl, rfl, rfl, fun _ hw => hw⟩
  | recording => exact ⟨rfl, rfl, rfl, fun _ hw => List.mem_append_left _ hw⟩

private theorem grows_set {i j : Nat} {b : Invocation δ} (hi : s.invocations[i]? = some inv)
    (hgrows : Grows inv inv') (hj : s.invocations[j]? = some b) :
    ∃ b', (s.invocations.set i inv')[j]? = some b' ∧ Grows b b' := by
  by_cases hji : j = i
  · subst hji
    rw [hi] at hj
    obtain rfl := Option.some.inj hj
    exact ⟨inv', Table.getElem?_set_of_some hi, hgrows⟩
  · exact ⟨b, by rw [Table.getElem?_set_of_ne hji]; exact hj, .refl b⟩

theorem Effect.grows (he : Effect rt s l s') {j : Nat} {b : Invocation δ}
    (hj : s.invocations[j]? = some b) : ∃ b', s'.invocations[j]? = some b' ∧ Grows b b' := by
  have hadd : ∀ (a : Invocation δ) w, Grows a { a with records := a.records ++ [w] } :=
    fun a w => ⟨rfl, rfl, rfl, fun _ hw => List.mem_append_left _ hw⟩
  cases he with
  | quiet s' hinvocations => exact ⟨b, by rw [hinvocations]; exact hj, .refl b⟩
  | refused | accepted => exact ⟨b, Table.getElem?_append_of_some hj, .refl b⟩
  | allowed i inv data hi => exact grows_set hi ⟨rfl, rfl, rfl, (hadd inv _).records⟩ hj
  | handled i inv data value outcome hi => exact grows_set hi ⟨rfl, rfl, rfl, (hadd inv _).records⟩ hj
  | failed i row inv inv' error audit counts hi hrun hcaller hresult hfails =>
      exact grows_set hi (.of_fails hfails) hj
  | halted i row inv r reason hi | started i row inv r hi | threw i inv error hi
  | entered i write inv data w hi | recordLost i write inv value w hi
  | recordKept i write inv value w hi | settled i row inv r result hi
  | returned i row inv value isError hi | concluded i write inv outcome w hi
  | unconcluded i write inv outcome w hi => exact grows_set hi ⟨rfl, rfl, rfl, fun _ hw => hw⟩ hj

theorem Grows.trans {a b c : Invocation δ} (h : Grows a b) (h' : Grows b c) : Grows a c :=
  ⟨h'.call.trans h.call, h'.context.trans h.context, h'.start.trans h.start,
    fun write hw => h'.records write (h.records write hw)⟩

/-- A terminal record of this call is acknowledged. -/
def TerminalRecorded (s : SecureRuntime δ) (inv : Invocation δ) : Prop :=
  ∃ write outcome, write ∈ inv.records ∧ s.Wrote inv write outcome ∧
    Outcome.endsCall outcome = true ∧ s.Delivered write .fulfilled

theorem TerminalRecorded.kept (h : s.TerminalRecorded inv) (hkept : WritesKept s s')
    (hgrows : Grows inv inv') : s'.TerminalRecorded inv' := by
  obtain ⟨write, outcome, hmem, hwrote, hterminal, hdelivered⟩ := h
  exact ⟨write, outcome, hgrows.records write hmem,
    hwrote.kept hkept ⟨hgrows.context, hgrows.start, hgrows.call⟩, hterminal,
    hdelivered.kept hkept rfl⟩

theorem markRecorded_cases {request : Option Nat} {q : Nat} {context : AuditRequestContext}
    (h : (s.markRecorded request)[q]? = some context) :
    ∃ old, s.requests[q]? = some old ∧ context.requestId = old.requestId ∧
      (context.toolOutcomeRecorded = true → old.toolOutcomeRecorded = true ∨ request = some q) := by
  unfold markRecorded at h
  cases request with
  | none => exact ⟨context, h, rfl, fun hflag => Or.inl hflag⟩
  | some p =>
      simp only [List.getElem?_modify] at h
      obtain ⟨old, hold, rfl⟩ := Option.map_eq_some_iff.mp h
      refine ⟨old, hold, ?_, fun hflag => ?_⟩
      · split <;> rfl
      · split at hflag
        · next hpq => exact Or.inr (by rw [hpq])
        · exact Or.inl hflag

/-- A request keeps its id, and its flag is set only by a call of it whose terminal record is
    acknowledged. -/
theorem Effect.request (he : Effect rt s l s')
    (hev : ∀ (i : Nat) inv, s.invocations[i]? = some inv → Evidence s inv) {q : Nat}
    {context : AuditRequestContext} (hq : s'.requests[q]? = some context) :
    (∃ old, s.requests[q]? = some old ∧ context.requestId = old.requestId ∧
      (context.toolOutcomeRecorded = true → old.toolOutcomeRecorded = true ∨
        ∃ (i : Nat) (inv : Invocation δ), s.invocations[i]? = some inv ∧
          inv.call.request = some q ∧ s.TerminalRecorded inv)) ∨
    (q = s.requests.length ∧ context.toolOutcomeRecorded = false) := by
  have hsame : s'.requests = s.requests → (∃ old, s.requests[q]? = some old ∧
      context.requestId = old.requestId ∧ (context.toolOutcomeRecorded = true →
        old.toolOutcomeRecorded = true ∨ ∃ (i : Nat) (inv : Invocation δ),
          s.invocations[i]? = some inv ∧ inv.call.request = some q ∧ s.TerminalRecorded inv)) := by
    intro heq
    rw [heq] at hq
    exact ⟨context, hq, rfl, fun hflag => Or.inl hflag⟩
  cases he with
  | quiet s' hinvocations hcounts haudit hexecution hrequests =>
      rcases hrequests with heq | ⟨requestId, heq⟩
      · exact Or.inl (hsame heq)
      · rw [heq] at hq
        rcases Table.getElem?_append_cases hq with hold | ⟨hlast, rfl⟩
        · exact Or.inl ⟨context, hold, rfl, fun hflag => Or.inl hflag⟩
        · exact Or.inr ⟨hlast, rfl⟩
  | recordKept i write inv value w hi hphase hwrite hdelivery =>
      obtain ⟨old, hold, hid, hflag⟩ := markRecorded_cases hq
      refine Or.inl ⟨old, hold, hid, fun hset => ?_⟩
      rcases hflag hset with hset | hrequest
      · exact Or.inl hset
      · obtain ⟨hmem, isError, _, hwrote⟩ := (hev i inv hi).recording write value hphase
        exact Or.inr ⟨i, inv, hi, hrequest, write, _, hmem, hwrote,
          by cases isError <;> rfl, w, hwrite, hdelivery⟩
  | concluded i write inv outcome w hi hcaller hwrite hdelivery =>
      obtain ⟨old, hold, hid, hflag⟩ := markRecorded_cases hq
      refine Or.inl ⟨old, hold, hid, fun hset => ?_⟩
      rcases hflag hset with hset | hrequest
      · exact Or.inl hset
      · obtain ⟨hmem, hwrote, code, hcode⟩ := (hev i inv hi).concluding write outcome hcaller
        exact Or.inr ⟨i, inv, hi, hrequest, write, outcome, hmem, hwrote, by rw [hcode]; rfl, w,
          hwrite, hdelivery⟩
  | _ => exact Or.inl (hsame rfl)

/-- What the requests and the calls made in them know of each other. -/
structure Requests (s : SecureRuntime δ) : Prop where
  flagged : ∀ (q : Nat) context, s.requests[q]? = some context →
    context.toolOutcomeRecorded = true → ∃ (i : Nat) (inv : Invocation δ),
      s.invocations[i]? = some inv ∧ inv.call.request = some q ∧ s.TerminalRecorded inv
  /-- The records of a call in a request carry the id it was given, or the one of the request. -/
  named : ∀ (i : Nat) inv q, s.invocations[i]? = some inv → inv.call.request = some q →
    ∃ context, s.requests[q]? = some context ∧
      inv.context.requestId = inv.call.requestId.getD context.requestId

theorem Effect.requests_kept (he : Effect rt s l s') {q : Nat} {context : AuditRequestContext}
    (hq : s.requests[q]? = some context) :
    ∃ context', s'.requests[q]? = some context' ∧ context'.requestId = context.requestId := by
  have hmark : ∀ request, ∃ context', (s.markRecorded request)[q]? = some context' ∧
      context'.requestId = context.requestId := by
    intro request
    unfold markRecorded
    cases request with
    | none => exact ⟨context, hq, rfl⟩
    | some p =>
        simp only [List.getElem?_modify, hq, Option.map_eq_map, Option.map_some]
        refine ⟨_, rfl, ?_⟩
        split <;> rfl
  cases he with
  | quiet s' hinvocations hcounts haudit hexecution hrequests =>
      rcases hrequests with heq | ⟨requestId, heq⟩
      · exact ⟨context, by rw [heq]; exact hq, rfl⟩
      · exact ⟨context, by rw [heq]; exact Table.getElem?_append_of_some hq, rfl⟩
  | recordKept i write inv => exact hmark inv.call.request
  | concluded i write inv => exact hmark inv.call.request
  | _ => exact ⟨context, hq, rfl⟩

private theorem opened_named (call : Call)
    (hrequest : ∀ q, call.request = some q → q < s.requests.length) {q : Nat}
    (hq : call.request = some q) : ∃ context, s.requests[q]? = some context ∧
      (s.opened rt call).context.requestId = call.requestId.getD context.requestId := by
  have hlt := hrequest q hq
  refine ⟨s.requests[q], List.getElem?_eq_getElem hlt, ?_⟩
  simp only [opened, hq, Option.bind_some, List.getElem?_eq_getElem hlt, Option.map_some,
    auditContext]
  cases call.requestId <;> rfl

/-- Every row after a step is an old one that grew, or a new one in a request that exists. -/
theorem Effect.origin (he : Effect rt s l s') {j : Nat} {b' : Invocation δ}
    (hj : s'.invocations[j]? = some b') :
    (∃ b, s.invocations[j]? = some b ∧ Grows b b') ∨
      ∃ call, l = .invoke call ∧ (∀ q, call.request = some q → q < s.requests.length) ∧
        b'.call = call ∧ b'.context = (s.opened rt call).context := by
  have hold : j < s.invocations.length → ∃ b, s.invocations[j]? = some b ∧ Grows b b' := by
    intro hlt
    obtain ⟨b'', hb'', hgrows⟩ := he.grows (List.getElem?_eq_getElem hlt)
    rw [hj] at hb''
    exact ⟨_, List.getElem?_eq_getElem hlt, Option.some.inj hb'' ▸ hgrows⟩
  cases he with
  | quiet s' hinvocations =>
      exact Or.inl (hold (by simpa [hinvocations] using Table.lt_of_getElem? hj))
  | refused call error audit counts inv' hrequest herror hfails hlabel =>
      rcases Table.getElem?_append_cases hj with hb | ⟨_, rfl⟩
      · exact Or.inl ⟨b', hb, .refl b'⟩
      · have hgrows := Grows.of_fails hfails
        exact Or.inr ⟨call, hlabel, hrequest, hgrows.call, hgrows.context⟩
  | accepted call hrequest hnone hlabel =>
      rcases Table.getElem?_append_cases hj with hb | ⟨_, rfl⟩
      · exact Or.inl ⟨b', hb, .refl b'⟩
      · exact Or.inr ⟨call, hlabel, hrequest, rfl, rfl⟩
  | _ => exact Or.inl (hold (by simpa using Table.lt_of_getElem? hj))

/-- The call of a row is that of the old row, or the one that is just made. -/
theorem Effect.call_origin (he : Effect rt s l s') {j : Nat} {b' : Invocation δ}
    (hj : s'.invocations[j]? = some b') :
    (∃ b, s.invocations[j]? = some b ∧ b.call = b'.call) ∨
      l = .invoke b'.call ∧ s.invocations[j]? = none := by
  rcases he.origin hj with ⟨b, hold, hgrows⟩ | ⟨call, hlabel, _, hcall, _⟩
  · exact Or.inl ⟨b, hold, hgrows.call.symm⟩
  · cases hold : s.invocations[j]? with
    | none => exact Or.inr ⟨by rw [hlabel, hcall], rfl⟩
    | some b =>
        obtain ⟨grown, hb, hgrows⟩ := he.grows hold
        obtain rfl := Option.some.inj (hj.symm.trans hb)
        exact Or.inl ⟨b, rfl, hgrows.call.symm⟩

theorem Requests.effect (h : Requests s)
    (hev : ∀ (i : Nat) inv, s.invocations[i]? = some inv → Evidence s inv)
    (he : Effect rt s l s') : Requests s' := by
  refine ⟨fun q context hq hflag => ?_, fun i inv' q hi hrequest => ?_⟩
  · have hcall : ∃ (i : Nat) (inv : Invocation δ), s.invocations[i]? = some inv ∧
        inv.call.request = some q ∧ s.TerminalRecorded inv := by
      rcases he.request hev hq with ⟨old, hold, _, hset⟩ | ⟨_, hnew⟩
      · rcases hset hflag with hset | hcall
        · exact h.flagged q old hold hset
        · exact hcall
      · rw [hnew] at hflag
        exact absurd hflag (by simp)
    obtain ⟨i, inv, hi, hrequest, hrecorded⟩ := hcall
    obtain ⟨inv', hi', hgrows⟩ := he.grows hi
    exact ⟨i, inv', hi', by rw [hgrows.call]; exact hrequest, hrecorded.kept he.writes hgrows⟩
  · have hbefore : ∃ context, s.requests[q]? = some context ∧
        inv'.context.requestId = inv'.call.requestId.getD context.requestId := by
      rcases he.origin hi with ⟨inv, hold, hgrows⟩ | ⟨call, _, hrange, hcall, hcontext⟩
      · rw [hgrows.call, hgrows.context]
        exact h.named i inv q hold (by rw [← hgrows.call]; exact hrequest)
      · rw [hcontext, hcall]
        exact opened_named call hrange (by rw [← hcall]; exact hrequest)
    obtain ⟨context, hq, hname⟩ := hbefore
    obtain ⟨context', hq', hid⟩ := he.requests_kept hq
    exact ⟨context', hq', by rw [hid]; exact hname⟩

/-- A new row of `invoke` is a row of its call. -/
theorem invoke_row (rt : RuntimeSetup) (s : SecureRuntime δ) (call : Call) :
    ∃ inv : Invocation δ, (s.invoke rt call).invocations = s.invocations ++ [inv] ∧
      inv.call = call := by
  unfold invoke
  cases hr : s.refusal rt call (s.opened rt call).tool with
  | none =>
      simp only [hr]
      exact ⟨_, rfl, rfl⟩
  | some error =>
      simp only [hr]
      exact ⟨_, rfl, (Grows.of_fails (fail_cases s (s.opened rt call) error)).call⟩

theorem invoke_length {call : Call} (h : s.step rt (.invoke call) = some s') :
    s'.invocations.length = s.invocations.length + 1 := by
  simp only [step] at h
  split at h
  · obtain ⟨inv, hrows, _⟩ := invoke_row rt s call
    rw [← Option.some.inj h, hrows, List.length_append, List.length_singleton]
  · exact absurd h (by simp)

/-! ## Over a run -/

theorem writesKept_of_leads (h : (machine rt δ).Leads s s') : WritesKept s s' := by
  refine h.rel (R := WritesKept) (fun s w x hw => ⟨x, hw, .refl x⟩) (fun a b c hab hbc w x hw => ?_)
    (fun a l b hstep => (step_effect hstep).writes)
  obtain ⟨y, hy, hxy⟩ := hab w x hw
  obtain ⟨z, hz, hyz⟩ := hbc w y hy
  exact ⟨z, hz, hxy.trans hyz⟩

theorem grows_of_leads (h : (machine rt δ).Leads s s') {j : Nat} {b : Invocation δ}
    (hj : s.invocations[j]? = some b) : ∃ b', s'.invocations[j]? = some b' ∧ Grows b b' := by
  refine h.invariant (I := fun t => ∃ b', t.invocations[j]? = some b' ∧ Grows b b')
    ⟨b, hj, .refl b⟩ ?_
  rintro a l c ⟨x, hx, hbx⟩ hstep
  obtain ⟨y, hy, hxy⟩ := (step_effect hstep).grows hx
  exact ⟨y, hy, hbx.trans hxy⟩

theorem request_of_leads (h : (machine rt δ).Leads s s') {q : Nat} {context : AuditRequestContext}
    (hq : s.requests[q]? = some context) :
    ∃ context', s'.requests[q]? = some context' ∧ context'.requestId = context.requestId := by
  refine h.invariant (I := fun t => ∃ context', t.requests[q]? = some context' ∧
    context'.requestId = context.requestId) ⟨context, hq, rfl⟩ ?_
  rintro a l c ⟨x, hx, hid⟩ hstep
  obtain ⟨y, hy, hid'⟩ := (step_effect hstep).requests_kept hx
  exact ⟨y, hy, hid'.trans hid⟩

theorem requests_le_of_leads (h : (machine rt δ).Leads s s') :
    s.requests.length ≤ s'.requests.length := by
  by_cases hempty : s.requests.length = 0
  · omega
  · have hlast : s.requests.length - 1 < s.requests.length := by omega
    obtain ⟨_, hq, _⟩ := request_of_leads h (List.getElem?_eq_getElem hlast)
    have := Table.lt_of_getElem? hq
    omega

theorem Requests.of_reachable (h : (machine rt δ).Reachable s) : Requests s :=
  h.invariant (I := Requests) ⟨by simp [machine], by simp [machine]⟩
    (fun _ _ _ ha hs hstep => hs.effect (Evidence.of_reachable ha) (step_effect hstep))

end SecureRuntime

end SecureMcp
