import SecureMcp.Runtime.Evidence

set_option autoImplicit false

/-! # One terminal record for each call

A call should hand the dispatcher at most one terminal record, the one its caller is told about. The
operation writes `success` or `tool_error` inside its slot, while the race that answers the caller
is still open: an abort that lands in between makes the `catch` block write a second terminal
record (`two_terminal_records`). In runs without such an abort (`undisturbed`) the books are clean
(`Clean`), and the theorem holds. -/

namespace SecureMcp

variable {δ : Type}

/-! ## The property -/

namespace SecureRuntime

/-- The outcomes of the records a call has handed to the dispatcher, in order. -/
def outcomes (s : SecureRuntime δ) (inv : Invocation δ) : List Outcome :=
  inv.records.filterMap (fun write => (s.audit.writes[write]?).map (fun w => w.event.outcome))

structure OneTerminalRecord (s : SecureRuntime δ) (inv : Invocation δ) : Prop where
  shape : s.outcomes inv = [] ∨ (∃ t, t ≠ .allowed ∧ s.outcomes inv = [t]) ∨
    s.outcomes inv = [.allowed] ∨ ∃ t, t ≠ .allowed ∧ s.outcomes inv = [.allowed, t]
  /-- An acknowledged terminal record says what the caller was told. -/
  agreed : ∀ outcome value, inv.caller = .answered outcome value → ∀ write ∈ inv.records, ∀ w,
    s.audit.writes[write]? = some w → w.event.outcome ≠ .allowed → w.delivery = .fulfilled →
    w.event.outcome = outcome

/-- The call has returned and was counted under this outcome. -/
def Invocation.isAnswered (outcome : Outcome) (inv : Invocation δ) : Bool :=
  match inv.caller with
  | .answered told _ => told == outcome
  | _ => false

/-- Each counter is the number of calls that returned its outcome. -/
def Counted (s : SecureRuntime δ) : Prop :=
  ∀ outcome, countOf s.counts outcome = s.invocations.countP (Invocation.isAnswered outcome)

end SecureRuntime

/-! ## The condition -/

/-- The rows whose signal a step of the controller aborts. -/
def ExecutionController.Label.aborts {τ : Type} (c : ExecutionController τ) (row : Nat) :
    ExecutionController.Label τ → Bool
  | .expire i | .abort i _ => i == row
  | .close => c.shutdown.isNone && c.active.contains row
  | _ => false

namespace SecureRuntime

/-- The operation has handed over its terminal record, and the race that answers the caller is
    still open. -/
def terminalHanded (s : SecureRuntime δ) (inv : Invocation δ) : Bool :=
  match inv.operation, inv.run with
  | .recording _ _, some row | .recorded _, some row =>
    (s.execution.runs[row]?).any (fun r => r.race.isPending)
  | _, _ => false

/-- The step does not abort the signal of a call in that window. -/
def undisturbed (s : SecureRuntime δ) (l : Label δ) : Bool :=
  match l.control with
  | none => true
  | some label =>
    s.invocations.all (fun inv =>
      !s.terminalHanded inv || inv.run.all (fun row => !label.aborts s.execution row))

end SecureRuntime

namespace ExecutionController

variable {τ : Type} {c c' : ExecutionController τ} {l : Label τ}

/-- A step outside the calls that does not abort a row leaves its race alone. -/
theorem race_of_outside (h : c.step l = some c') (hl : l.isOutside = true) {row : Nat}
    (hnot : l.aborts c row = false) {r r' : Run τ} (hr : c.runs[row]? = some r)
    (hr' : c'.runs[row]? = some r') : r'.race = r.race := by
  cases l with
  | run caller | start i | settle i result | answer i => exact absurd hl (by simp [Label.isOutside])
  | expire i =>
      have hne : row ≠ i := fun heq => by simp [Label.aborts, heq] at hnot
      obtain ⟨b, hb, h⟩ := Option.bind_eq_some_iff.mp h
      split at h
      · obtain rfl := Option.some.inj h
        simp only [Table.getElem?_set_of_ne hne, hr] at hr'
        rw [Option.some.inj hr']
      · exact absurd h (by simp)
  | abort i reason =>
      have hne : row ≠ i := fun heq => by simp [Label.aborts, heq] at hnot
      obtain ⟨b, hb, h⟩ := Option.bind_eq_some_iff.mp h
      split at h
      · exact absurd h (by simp)
      · obtain rfl := Option.some.inj h
        simp only [Table.getElem?_set_of_ne hne, hr] at hr'
        rw [Option.some.inj hr']
  | close =>
      obtain rfl := Option.some.inj h
      unfold close at hr'
      cases hs : c.shutdown with
      | some s =>
          simp only [hs, hr] at hr'
          rw [Option.some.inj hr']
      | none =>
          have hout : c.active.contains row = false := by simpa [Label.aborts, hs] using hnot
          simp only [hs, drain_runs, List.getElem?_mapIdx, hr, Option.map_some, hout] at hr'
          rw [← Option.some.inj hr']
          rfl
  | drainSettled | drainExpire | drainResume =>
      obtain ⟨s, _, h⟩ := Option.bind_eq_some_iff.mp h
      split at h
      · obtain rfl := Option.some.inj h
        rw [Option.some.inj (hr.symm.trans hr')]
      · exact absurd h (by simp)
  | closeReturn k =>
      obtain ⟨s, _, h⟩ := Option.bind_eq_some_iff.mp h
      obtain ⟨returned, _, h⟩ := Option.bind_eq_some_iff.mp h
      split at h
      · obtain rfl := Option.some.inj h
        rw [Option.some.inj (hr.symm.trans hr')]
      · exact absurd h (by simp)

end ExecutionController

/-! ## The books of one call -/

namespace SecureRuntime

/-- No terminal record yet. -/
def Opening (s : SecureRuntime δ) (inv : Invocation δ) (records : List Nat) : Prop :=
  records = [] ∨ ∃ write, records = [write] ∧ s.Wrote inv write .allowed

/-- One terminal record, the last one. -/
def Ended (s : SecureRuntime δ) (inv : Invocation δ) (records : List Nat) (write : Nat)
    (outcome : Outcome) : Prop :=
  (∃ first, records = first ++ [write] ∧ s.Opening inv first) ∧ s.Wrote inv write outcome ∧
    outcome ≠ .allowed

/-- What the records say once the operation is over with this result. -/
def Settles (s : SecureRuntime δ) (inv : Invocation δ) : Except Thrown Graph → Prop
  | .ok value => ∃ write isError, value.isError = some isError ∧
      s.Ended inv inv.records write (resultOutcome isError) ∧ s.Delivered write .fulfilled
  | .error error => s.Opening inv inv.records ∨ (failureCode error = .audit_unavailable ∧
      ∃ write outcome, s.Ended inv inv.records write outcome ∧ s.Delivered write .rejected)

/-- What the records say while the caller waits for the operation. -/
def Progress (s : SecureRuntime δ) (inv : Invocation δ) : Prop :=
  match inv.operation with
  | .idle | .validating => inv.records = []
  | .allowing _ _ | .handling _ | .threw _ => s.Opening inv inv.records
  | .recording write value => ∃ isError, value.isError = some isError ∧
      s.Ended inv inv.records write (resultOutcome isError)
  | .recorded result => s.Settles inv result
  | .settled => ∃ row r, inv.run = some row ∧ s.execution.runs[row]? = some r ∧
      match r.race with
      | .pending => False
      | .operation result => s.Settles inv result
      | .aborted _ => s.Opening inv inv.records

/-- What the records of a call say, wherever its caller is. -/
def Books (s : SecureRuntime δ) (inv : Invocation δ) : Prop :=
  match inv.caller with
  | .running => s.Progress inv
  | .concluding write outcome => s.Ended inv inv.records write outcome
  | .answered outcome _ => s.Opening inv inv.records ∨ ∃ write told,
      s.Ended inv inv.records write told ∧
        (s.Delivered write .fulfilled ∧ told = outcome ∨ s.Delivered write .rejected)

structure Clean (s : SecureRuntime δ) (inv : Invocation δ) : Prop where
  /-- Once the terminal record is handed over, only the operation's own settlement decides. -/
  undecided : (∃ write value, inv.operation = .recording write value) ∨
      (∃ result, inv.operation = .recorded result) →
    ∀ row r, inv.run = some row → s.execution.runs[row]? = some r → r.race.isPending = true
  books : s.Books inv

variable {rt : RuntimeSetup} {s s' : SecureRuntime δ} {inv inv' : Invocation δ} {l : Label δ}

/-! ### Calls that do not move -/

section Kept

variable (hkept : WritesKept s s')
  (hinv : inv'.context = inv.context ∧ inv'.start = inv.start ∧ inv'.call = inv.call)

include hkept hinv

theorem Opening.kept {records : List Nat} (h : s.Opening inv records) : s'.Opening inv' records := by
  rcases h with hnil | ⟨write, hone, hwrote⟩
  · exact Or.inl hnil
  · exact Or.inr ⟨write, hone, hwrote.kept hkept hinv⟩

theorem Ended.kept {records : List Nat} {write : Nat} {outcome : Outcome}
    (h : s.Ended inv records write outcome) : s'.Ended inv' records write outcome := by
  obtain ⟨⟨first, hrecords, hopening⟩, hwrote, hterminal⟩ := h
  exact ⟨⟨first, hrecords, hopening.kept hkept hinv⟩, hwrote.kept hkept hinv, hterminal⟩

theorem Settles.kept {result : Except Thrown Graph} (h : s.Settles inv result)
    (hrecords : inv'.records = inv.records) : s'.Settles inv' result := by
  cases result with
  | ok value =>
      obtain ⟨write, isError, herror, hended, hdelivered⟩ := h
      refine ⟨write, isError, herror, ?_, hdelivered.kept hkept rfl⟩
      rw [hrecords]
      exact hended.kept hkept hinv
  | error error =>
      rcases h with hopening | ⟨hcode, write, outcome, hended, hdelivered⟩
      · refine Or.inl ?_
        rw [hrecords]
        exact hopening.kept hkept hinv
      · refine Or.inr ⟨hcode, write, outcome, ?_, hdelivered.kept hkept rfl⟩
        rw [hrecords]
        exact hended.kept hkept hinv

end Kept

theorem Progress.frame (h : s.Progress inv) (hframe : Frame s s' inv) : s'.Progress inv := by
  have hkept : WritesKept s s' := hframe.writes
  unfold Progress at h ⊢
  cases hphase : inv.operation with
  | idle | validating =>
      simp only [hphase] at h ⊢
      exact h
  | allowing write data | handling data | threw error =>
      simp only [hphase] at h ⊢
      exact h.kept hkept ⟨rfl, rfl, rfl⟩
  | recording write value =>
      simp only [hphase] at h ⊢
      obtain ⟨isError, herror, hended⟩ := h
      exact ⟨isError, herror, hended.kept hkept ⟨rfl, rfl, rfl⟩⟩
  | recorded result =>
      simp only [hphase] at h ⊢
      exact h.kept hkept ⟨rfl, rfl, rfl⟩ rfl
  | settled =>
      simp only [hphase] at h ⊢
      obtain ⟨row, r, hrun, hr, hrace⟩ := h
      obtain ⟨r', hr', hrun'⟩ := hframe.runs row r hrun hr
      refine ⟨row, r', hrun, hr', ?_⟩
      rcases hrun'.race with hsame | ⟨hpending, _⟩
      · rw [hsame]
        cases hr : r.race with
        | pending => simp [hr] at hrace
        | operation result =>
            simp only [hr] at hrace
            exact hrace.kept hkept ⟨rfl, rfl, rfl⟩ rfl
        | aborted code =>
            simp only [hr] at hrace
            exact hrace.kept hkept ⟨rfl, rfl, rfl⟩
      · simp [hpending] at hrace

/-- The books of a call whose caller does not move and that hands over no record. -/
theorem Books.move (h : s.Books inv) (hkept : WritesKept s s')
    (hinv : inv'.context = inv.context ∧ inv'.start = inv.start ∧ inv'.call = inv.call)
    (hrecords : inv'.records = inv.records) (hcaller : inv'.caller = inv.caller)
    (hprogress : inv.caller = .running → s.Progress inv → s'.Progress inv') : s'.Books inv' := by
  unfold Books at h ⊢
  rw [hcaller, hrecords]
  cases hphase : inv.caller with
  | running =>
      simp only [hphase] at h ⊢
      exact hprogress hphase h
  | concluding write outcome =>
      simp only [hphase] at h ⊢
      exact h.kept hkept hinv
  | answered outcome value =>
      simp only [hphase] at h ⊢
      rcases h with hopening | ⟨write, told, hended, hdelivered⟩
      · exact Or.inl (hopening.kept hkept hinv)
      · refine Or.inr ⟨write, told, hended.kept hkept hinv, ?_⟩
        rcases hdelivered with ⟨hok, htold⟩ | hlost
        · exact Or.inl ⟨hok.kept hkept rfl, htold⟩
        · exact Or.inr (hlost.kept hkept rfl)

theorem Clean.frame (h : Clean s inv) (hsound : Sound rt s inv) (hframe : Frame s s' inv)
    (hraces : s.terminalHanded inv = true → ∀ row r r', inv.run = some row →
      s.execution.runs[row]? = some r → s'.execution.runs[row]? = some r' → r'.race = r.race) :
    Clean s' inv := by
  refine ⟨fun hphase row r' hrun hr' => ?_, h.books.move hframe.writes ⟨rfl, rfl, rfl⟩ rfl rfl
    (fun _ hprogress => hprogress.frame hframe)⟩
  obtain ⟨r, hr, _⟩ := hsound.slot row hrun
  have hpending := h.undecided hphase row r hrun hr
  have hhanded : s.terminalHanded inv = true := by
    rcases hphase with ⟨write, value, hop⟩ | ⟨result, hop⟩ <;>
      simp [terminalHanded, hop, hrun, hr, hpending]
  rw [hraces hhanded row r r' hrun hr hr']
  exact hpending

/-! ### Calls that move -/

theorem resultOutcome_ne (isError : Bool) : resultOutcome isError ≠ .allowed := by
  cases isError <;> simp [resultOutcome]

/-- The race of a row that settles while the caller is told something else, or is still waiting. -/
theorem settle_race {r : Run Graph} (hcons : r.Consistent) (hop : r.operation ≠ .settled)
    (result : Except Thrown Graph) :
    (r.race = .pending ∧ (r.settle result).race = .operation result) ∨
      ∃ code, (r.settle result).race = .aborted code := by
  cases hrace : r.race with
  | pending => exact Or.inl ⟨rfl, by simp [Run.settle, hrace, Race.settle]⟩
  | operation first => exact absurd (hcons.result first hrace) hop
  | aborted code => exact Or.inr ⟨code, by simp [Run.settle, hrace, Race.settle]⟩

/-- The caller of a call is told by its records, or has none to conclude with. -/
theorem Books.of_fails (hopening : s.Opening inv inv.records) {code : FailureCode}
    {audit : AuditDispatcher AuditEvent} {counts : List (Outcome × Nat)}
    (hfails : Fails s inv code audit counts inv') (haudit : s'.audit = audit)
    (hkept : WritesKept s s') : s'.Books inv' := by
  cases hfails with
  | unrecorded hcode => exact Or.inl (hopening.kept hkept ⟨rfl, rfl, rfl⟩)
  | recording hcode =>
      exact ⟨⟨inv.records, rfl, hopening.kept hkept ⟨rfl, rfl, rfl⟩⟩,
        Wrote.of_write (.failure code) _ rfl haudit ⟨rfl, rfl, rfl⟩, by simp⟩

theorem Clean.settle (h : Clean s inv) (hkept : WritesKept s s') {row : Nat}
    {r : Run Graph} {result : Except Thrown Graph} (hrun : inv.run = some row)
    (hrow : s.execution.runs[row]? = some r) (hcons : r.Consistent) (hop : r.operation ≠ .settled)
    (hruns : s'.execution.runs = s.execution.runs.set row (r.settle result))
    (hpending : r.race = .pending → s.Progress inv → s.Settles inv result)
    (haborted : r.race.isPending = false → s.Progress inv → s.Opening inv inv.records) :
    Clean s' { inv with operation := .settled } := by
  refine ⟨by simp, h.books.move hkept ⟨rfl, rfl, rfl⟩ rfl rfl (fun _ hprogress => ?_)⟩
  refine ⟨row, r.settle result, hrun, by rw [hruns]; exact Table.getElem?_set_of_some hrow, ?_⟩
  rcases settle_race hcons hop result with ⟨hopen, hrace⟩ | ⟨code, hrace⟩
  · rw [hrace]
    exact (hpending hopen hprogress).kept hkept ⟨rfl, rfl, rfl⟩ rfl
  · rw [hrace]
    refine (haborted ?_ hprogress).kept hkept ⟨rfl, rfl, rfl⟩
    -- an open race would have been decided by the result
    cases hr : r.race with
    | pending => simp [Run.settle, hr, Race.settle] at hrace
    | operation first => rfl
    | aborted first => rfl

/-- What the caller learns from `execution.run`, against the records so far. -/
theorem Progress.of_result (h : s.Progress inv) (hclean : Clean s inv) (hsound : Sound rt s inv)
    (hslots : ExecutionController.Slots s.execution) {row : Nat} {result : Except Thrown Graph}
    (hrun : inv.run = some row) (hresult : s.runResult row = some result) :
    s.Settles inv result := by
  obtain ⟨r, hrow, hmatches, _⟩ := hsound.slot row hrun
  have hcons := hslots.rows row r hrow
  obtain ⟨b, hb, hresult⟩ := runResult_cases hresult
  rw [hrow] at hb
  obtain rfl := Option.some.inj hb
  unfold Run.result at hresult
  cases hop : r.operation with
  | refused code =>
      simp only [hop, Option.some.injEq] at hresult
      subst hresult
      rw [hop] at hmatches
      have hidle := hmatches.eq_idle (by simp) (by simp)
      unfold Progress at h
      simp only [hidle] at h
      exact Or.inl (Or.inl h)
  | settled =>
      rw [hop] at hmatches
      have hphase := hmatches.eq_settled
      unfold Progress at h
      simp only [hphase] at h
      obtain ⟨row', r', hrun', hrow', hrace⟩ := h
      rw [hrun] at hrun'
      obtain rfl := Option.some.inj hrun'
      rw [hrow] at hrow'
      obtain rfl := Option.some.inj hrow'
      cases hr : r.race with
      | pending => simp [hr] at hrace
      | operation first =>
          simp only [hr] at hrace
          simp only [hop, hr, Option.some.injEq] at hresult
          exact hresult ▸ hrace
      | aborted code =>
          simp only [hr] at hrace
          simp only [hop, hr, Option.some.injEq] at hresult
          exact hresult ▸ Or.inl hrace
  | deferred | running =>
      -- the operation is not over: the race was decided by an abort
      obtain ⟨code, hrace⟩ : ∃ code, r.race = .aborted code := by
        cases hr : r.race with
        | pending => simp [hop, hr] at hresult
        | operation first =>
            have := hcons.result first hr
            simp [hop] at this
        | aborted code => exact ⟨code, rfl⟩
      simp only [hop, hrace, Option.some.injEq] at hresult
      subst hresult
      refine Or.inl ?_
      have hdecided : r.race.isPending = false := by rw [hrace]; rfl
      unfold Progress at h
      cases hphase : inv.operation with
      | idle | validating =>
          simp only [hphase] at h
          exact Or.inl h
      | allowing write data | handling data | threw error =>
          simp only [hphase] at h
          exact h
      | recording write value =>
          have := hclean.undecided (Or.inl ⟨write, value, hphase⟩) row r hrun hrow
          rw [hdecided] at this
          exact absurd this (by simp)
      | recorded result =>
          have := hclean.undecided (Or.inr ⟨result, hphase⟩) row r hrun hrow
          rw [hdecided] at this
          exact absurd this (by simp)
      | settled => simp [hphase, hop, OperationPhase.Matches] at hmatches

/-- The race of a call that does not move, in a step that replaces another row. -/
private theorem race_of_set {row j : Nat} {r r' r'' : Run Graph} {runs : List (Run Graph)}
    (hne : j ≠ row) (hr : runs[j]? = some r) (hr' : (runs.set row r'')[j]? = some r') :
    r'.race = r.race := by
  rw [Table.getElem?_set_of_ne hne, hr] at hr'
  rw [Option.some.inj hr']

private theorem race_of_same {j : Nat} {r r' : Run Graph} {runs : List (Run Graph)}
    (hr : runs[j]? = some r) (hr' : runs[j]? = some r') : r'.race = r.race := by
  rw [hr] at hr'
  rw [Option.some.inj hr']

theorem clean_effect (hlinked : Linked rt s) (hslots : ExecutionController.Slots s.execution)
    (h : ∀ (i : Nat) inv, s.invocations[i]? = some inv → Clean s inv)
    (hok : s.undisturbed l = true) (he : Effect rt s l s') :
    ∀ (i : Nat) inv, s'.invocations[i]? = some inv → Clean s' inv := by
  have hkept : WritesKept s s' := he.writes
  have he' := he
  have hsame : s'.execution.runs = s.execution.runs → ∀ {i : Nat} {inv' : Invocation δ},
      Clean s' inv' → ∀ (j : Nat) b, (s.invocations.set i inv')[j]? = some b → Clean s' b :=
    fun hruns => Table.forall_set (fun j b hj => (h j b hj).frame (hlinked.rows j b hj)
      (.of_same he' hruns) (fun _ _ _ _ _ hr hr' => race_of_same hr (by rwa [hruns] at hr')))
  have hset : ∀ {i row : Nat} {a inv' : Invocation δ} {r'' : Run Graph},
      s.invocations[i]? = some a → a.run = some row →
      s'.execution.runs = s.execution.runs.set row r'' → Clean s' inv' →
      ∀ (j : Nat) b, (s.invocations.set i inv')[j]? = some b → Clean s' b := by
    intro i row a inv' r'' hi hrun hruns hnew
    refine Table.forall_set_of_ne (fun j b hne hj => ?_) hnew
    have hother : b.run ≠ some row := fun hb => hne (hlinked.owners _ _ _ _ _ hj hi hb hrun)
    refine (h j b hj).frame (hlinked.rows j b hj) (.of_set he' hruns hother)
      (fun _ row' r r' hrun' hr hr' => ?_)
    rw [hruns] at hr'
    exact race_of_set (fun heq => hother (by rw [hrun', heq])) hr hr'
  have hanswer : ∀ {row : Nat}, s'.execution = (s.execution.answer row).getD s.execution →
      ∀ {i : Nat} {inv' : Invocation δ}, Clean s' inv' →
      ∀ (j : Nat) b, (s.invocations.set i inv')[j]? = some b → Clean s' b :=
    fun hexecution => Table.forall_set (fun j b hj => (h j b hj).frame (hlinked.rows j b hj)
      (.of_answer he' hexecution)
      (fun _ _ _ _ _ hr hr' => answer_race s.execution hr (by rwa [hexecution] at hr')))
  cases he with
  | quiet s' hinvocations hcounts haudit hexecution hrequests =>
      intro i inv hi
      rw [hinvocations] at hi
      refine (h i inv hi).frame (hlinked.rows i inv hi) (.of_outside he' hexecution) ?_
      intro hhanded row r r' hrun hr hr'
      rcases hexecution with hsame | ⟨l', hcontrol, hout, hl'⟩
      · rw [hsame] at hr'
        exact race_of_same hr hr'
      · refine ExecutionController.race_of_outside hl' hout ?_ hr hr'
        simp only [undisturbed, hcontrol] at hok
        have := List.all_eq_true.mp hok inv (List.mem_of_getElem? hi)
        simpa [hhanded, hrun] using this
  | refused call error audit counts inv' hrequest herror hfails =>
      refine Table.forall_append (fun j b hj => (h j b hj).frame (hlinked.rows j b hj)
        (.of_same he' rfl) (fun _ _ _ _ _ hr hr' => race_of_same hr hr')) ⟨?_, ?_⟩
      · cases hfails <;> simp [opened]
      · exact Books.of_fails (Or.inl rfl) hfails rfl hkept
  | accepted call hrequest hnone =>
      refine Table.forall_append (fun j b hj => (h j b hj).frame (hlinked.rows j b hj)
        (.of_run he' rfl) (fun _ row r r' _ hr hr' => ?_)) ⟨by simp [opened], rfl⟩
      unfold ExecutionController.run at hr'
      split at hr'
      · exact race_of_same (Table.getElem?_append_of_some hr) hr'
      · exact race_of_same (Table.getElem?_append_of_some hr) hr'
  | halted i row inv r reason hi hrun hrow hop hsignal =>
      refine hset hi hrun rfl ?_
      have hidle := (hlinked.rows i inv hi).idle hrun hrow hop
      have hnil : s.Progress inv → s.Opening inv inv.records := by
        intro hprogress
        unfold Progress at hprogress
        simp only [hidle] at hprogress
        exact Or.inl hprogress
      exact (h i inv hi).settle hkept hrun hrow (hslots.rows row r hrow)
        (by simp [hop]) rfl (fun _ hprogress => Or.inl (hnil hprogress)) (fun _ => hnil)
  | started i row inv r hi hrun hrow hop hsignal =>
      refine hset hi hrun rfl ?_
      refine ⟨by simp, (h i inv hi).books.move hkept ⟨rfl, rfl, rfl⟩ rfl rfl
        (fun _ hprogress => ?_)⟩
      have hidle := (hlinked.rows i inv hi).idle hrun hrow hop
      unfold Progress at hprogress
      simp only [hidle] at hprogress
      exact hprogress
  | threw i inv error hi hearly =>
      refine hsame rfl ?_
      refine ⟨by simp, (h i inv hi).books.move hkept ⟨rfl, rfl, rfl⟩ rfl rfl
        (fun _ hprogress => ?_)⟩
      unfold Progress at hprogress
      cases hphase : inv.operation with
      | validating =>
          simp only [hphase] at hprogress
          exact Or.inl hprogress
      | allowing write data | handling data =>
          simp only [hphase] at hprogress
          exact hprogress.kept hkept ⟨rfl, rfl, rfl⟩
      | _ => simp [hphase, OperationPhase.isEarly] at hearly
  | allowed i inv data hi hphase hsignal =>
      refine hsame rfl ?_
      obtain ⟨hwait, _⟩ := (hlinked.rows i inv hi).waiting hslots
        (by simp [hphase, OperationPhase.Matches]) (by simp [hphase]) hsignal
      have hbooks := (h i inv hi).books
      unfold Books at hbooks
      simp only [hwait, Progress, hphase] at hbooks
      refine ⟨by simp, ?_⟩
      unfold Books
      simp only [hwait, Progress, hbooks, List.nil_append]
      exact Or.inr ⟨_, rfl, Wrote.of_write .allowed _ rfl rfl ⟨rfl, rfl, rfl⟩⟩
  | entered i write inv data w hi hphase hwrite hdelivery hsignal =>
      refine hsame rfl ?_
      refine ⟨by simp, (h i inv hi).books.move hkept ⟨rfl, rfl, rfl⟩ rfl rfl
        (fun _ hprogress => ?_)⟩
      unfold Progress at hprogress
      simp only [hphase] at hprogress
      exact hprogress.kept hkept ⟨rfl, rfl, rfl⟩
  | handled i inv data value outcome hi hphase hafter =>
      refine hsame rfl ?_
      obtain ⟨hsignal, isError, herror, rfl⟩ := afterHandler_ok hafter
      obtain ⟨hwait, row, r, hrun, hrow, _, _, hpending⟩ := (hlinked.rows i inv hi).waiting hslots
        (by simp [hphase, OperationPhase.Matches]) (by simp [hphase]) hsignal
      have hbooks := (h i inv hi).books
      unfold Books at hbooks
      simp only [hwait, Progress, hphase] at hbooks
      refine ⟨fun _ row' r' hrun' hr' => ?_, ?_⟩
      · obtain rfl := Option.some.inj (hrun.symm.trans hrun')
        rw [Option.some.inj (hr'.symm.trans hrow)]
        exact hpending
      · unfold Books
        simp only [hwait, Progress]
        exact ⟨isError, herror, ⟨inv.records, rfl, hbooks.kept hkept ⟨rfl, rfl, rfl⟩⟩,
          Wrote.of_write _ _ rfl rfl ⟨rfl, rfl, rfl⟩, resultOutcome_ne isError⟩
  | recordLost i write inv value w hi hphase hwrite hdelivery =>
      refine hsame rfl ?_
      refine ⟨fun _ => (h i inv hi).undecided (Or.inl ⟨write, value, hphase⟩),
        (h i inv hi).books.move hkept ⟨rfl, rfl, rfl⟩ rfl rfl (fun _ hprogress => ?_)⟩
      unfold Progress at hprogress
      simp only [hphase] at hprogress
      obtain ⟨isError, _, hended⟩ := hprogress
      exact Or.inr ⟨rfl, write, _, hended.kept hkept ⟨rfl, rfl, rfl⟩, w, hwrite, hdelivery⟩
  | recordKept i write inv value w hi hphase hwrite hdelivery =>
      refine hsame rfl ?_
      refine ⟨fun _ => (h i inv hi).undecided (Or.inl ⟨write, value, hphase⟩),
        (h i inv hi).books.move hkept ⟨rfl, rfl, rfl⟩ rfl rfl (fun _ hprogress => ?_)⟩
      unfold Progress at hprogress
      simp only [hphase] at hprogress
      obtain ⟨isError, herror, hended⟩ := hprogress
      exact ⟨write, isError, herror, hended.kept hkept ⟨rfl, rfl, rfl⟩, w, hwrite, hdelivery⟩
  | settled i row inv r result hi hrun hrow hop hphase =>
      refine hset hi hrun rfl ?_
      refine (h i inv hi).settle hkept hrun hrow (hslots.rows row r hrow)
        (by simp [hop]) rfl (fun _ hprogress => ?_) (fun hdecided hprogress => ?_)
      · unfold Progress at hprogress
        rcases hphase with ⟨error, hthrew, rfl⟩ | hrecorded
        · simp only [hthrew] at hprogress
          exact Or.inl hprogress
        · simp only [hrecorded] at hprogress
          exact hprogress
      · unfold Progress at hprogress
        rcases hphase with ⟨error, hthrew, rfl⟩ | hrecorded
        · simp only [hthrew] at hprogress
          exact hprogress
        · have := (h i inv hi).undecided (Or.inr ⟨result, hrecorded⟩) row r hrun hrow
          rw [hdecided] at this
          exact absurd this (by simp)
  | failed i row inv inv' error audit counts hi hrun hcaller hresult hfails =>
      refine hanswer rfl ?_
      have hclean := h i inv hi
      have hsound := hlinked.rows i inv hi
      have hprogress : s.Progress inv := by
        have hbooks := hclean.books
        unfold Books at hbooks
        simpa only [hcaller] using hbooks
      refine ⟨fun hphase => ?_, ?_⟩
      · -- an open race answers nobody
        exfalso
        have hop : (∃ write value, inv.operation = .recording write value) ∨
            ∃ result, inv.operation = .recorded result := by
          cases hfails <;> exact hphase
        obtain ⟨r, hrow, hanswer⟩ : ∃ r, s.execution.runs[row]? = some r ∧ r.Answerable := by
          rcases hresult with hresult | ⟨value, hresult, _⟩
          all_goals
            obtain ⟨r, hr, hresult⟩ := runResult_cases hresult
            exact ⟨r, hr, Run.answerable_of_result hresult⟩
        have hpending := hclean.undecided hop row r hrun hrow
        rcases hanswer with ⟨code, hcode⟩ | hrace
        · obtain ⟨b, hb, hmatches, _⟩ := hsound.slot row hrun
          rw [hrow] at hb
          obtain rfl := Option.some.inj hb
          rw [hcode] at hmatches
          rcases hop with ⟨write, value, hop⟩ | ⟨result, hop⟩ <;>
            simp [hop, OperationPhase.Matches] at hmatches
        · rw [hpending] at hrace
          exact absurd hrace (by simp)
      · have hsettles : s.Settles inv (.error error) ∨ s.Opening inv inv.records := by
          rcases hresult with hresult | ⟨value, hresult, hnone⟩
          · exact Or.inl (hprogress.of_result hclean hsound hslots hrun hresult)
          · obtain ⟨_, isError, herror, _⟩ := hprogress.of_result hclean hsound hslots hrun hresult
            rw [hnone] at herror
            exact absurd herror (by simp)
        rcases hsettles with (hopening | ⟨hcode, write, outcome, hended, hlost⟩) | hopening
        · exact Books.of_fails hopening hfails rfl hkept
        · cases hfails with
          | unrecorded _ =>
              exact Or.inr ⟨write, outcome, hended.kept hkept ⟨rfl, rfl, rfl⟩,
                Or.inr (hlost.kept hkept rfl)⟩
          | recording hne => exact absurd hcode hne
        · exact Books.of_fails hopening hfails rfl hkept
  | returned i row inv value isError hi hrun hcaller hresult herror =>
      refine hanswer rfl ?_
      have hclean := h i inv hi
      have hsound := hlinked.rows i inv hi
      have hprogress : s.Progress inv := by
        have hbooks := hclean.books
        unfold Books at hbooks
        simpa only [hcaller] using hbooks
      refine ⟨fun hphase row' r' hrun' hr' => ?_, ?_⟩
      · obtain ⟨r, hr, _⟩ := hsound.slot row' hrun'
        rw [answer_race s.execution hr hr']
        exact hclean.undecided hphase row' r hrun' hr
      · obtain ⟨write, isError', herror', hended, hok⟩ :=
          hprogress.of_result hclean hsound hslots hrun hresult
        rw [herror] at herror'
        obtain rfl := Option.some.inj herror'
        exact Or.inr ⟨write, _, hended.kept hkept ⟨rfl, rfl, rfl⟩,
          Or.inl ⟨hok.kept hkept rfl, rfl⟩⟩
  | concluded i write inv outcome w hi hcaller hwrite hdelivery =>
      refine hsame rfl ?_
      have hbooks := (h i inv hi).books
      unfold Books at hbooks
      simp only [hcaller] at hbooks
      refine ⟨(h i inv hi).undecided, Or.inr ⟨write, outcome, hbooks.kept hkept ⟨rfl, rfl, rfl⟩,
        Or.inl ⟨⟨w, hwrite, hdelivery⟩, rfl⟩⟩⟩
  | unconcluded i write inv outcome w hi hcaller hwrite hdelivery =>
      refine hsame rfl ?_
      have hbooks := (h i inv hi).books
      unfold Books at hbooks
      simp only [hcaller] at hbooks
      refine ⟨(h i inv hi).undecided, Or.inr ⟨write, outcome, hbooks.kept hkept ⟨rfl, rfl, rfl⟩,
        Or.inr ⟨w, hwrite, hdelivery⟩⟩⟩

/-! ## The counters -/

theorem countOf_increment (counts : List (Outcome × Nat)) (outcome other : Outcome) :
    countOf (increment counts outcome) other
      = countOf counts other + if outcome = other then 1 else 0 := by
  induction counts with
  | nil =>
      by_cases heq : outcome = other <;> simp [increment, countOf, heq]
  | cons entry rest ih =>
      obtain ⟨first, n⟩ := entry
      by_cases hfirst : first = outcome
      · subst hfirst
        by_cases heq : first = other <;> simp [increment, countOf, heq]
      · simp only [increment, if_neg hfirst]
        by_cases hother : first = other
        · subst hother
          simp [countOf, Ne.symm hfirst]
        · simp only [countOf] at ih
          simp only [countOf, List.find?_cons]
          rw [show (first == other) = false by simpa using hother]
          exact ih

theorem Counted.move (h : Counted s) {i : Nat} (hi : s.invocations[i]? = some inv)
    (hinvocations : s'.invocations = s.invocations.set i inv') (hcounts : s'.counts = s.counts)
    (hsame : ∀ outcome, Invocation.isAnswered outcome inv' = Invocation.isAnswered outcome inv) :
    Counted s' := by
  intro outcome
  rw [hcounts, hinvocations, Table.countP_set_of_eq hi (hsame outcome)]
  exact h outcome

theorem Counted.answer (h : Counted s) {i : Nat} (hi : s.invocations[i]? = some inv)
    {told : Outcome} {value : Graph}
    (hinvocations : s'.invocations = s.invocations.set i inv')
    (hcounts : s'.counts = increment s.counts told) (hcaller : inv'.caller = .answered told value)
    (hopen : ∀ outcome, Invocation.isAnswered outcome inv = false) : Counted s' := by
  intro outcome
  have hcount := Table.countP_set (a := inv') (p := Invocation.isAnswered outcome) hi
  have hnew : Invocation.isAnswered outcome inv' = decide (told = outcome) := by
    simp [Invocation.isAnswered, hcaller, beq_eq_decide]
  rw [hcounts, hinvocations, countOf_increment, h outcome]
  simp only [hopen outcome, Bool.false_eq_true, if_false, Nat.add_zero, hnew,
    decide_eq_true_eq] at hcount
  exact hcount.symm

theorem isAnswered_of_running (hcaller : inv.caller = .running) (outcome : Outcome) :
    Invocation.isAnswered outcome inv = false := by
  simp [Invocation.isAnswered, hcaller]

theorem Counted.effect (h : Counted s) (he : Effect rt s l s') : Counted s' := by
  cases he with
  | quiet s' hinvocations hcounts haudit hexecution hrequests =>
      intro outcome
      rw [hcounts, hinvocations]
      exact h outcome
  | refused call error audit counts inv' hrequest herror hfails =>
      intro outcome
      cases hfails with
      | unrecorded hcode =>
          rw [Table.countP_append_one]
          simp only [countOf_increment, h outcome, Invocation.isAnswered, beq_iff_eq]
      | recording hcode =>
          rw [Table.countP_append_one]
          simp only [h outcome, Invocation.isAnswered]
          rfl
  | accepted call hrequest hnone =>
      intro outcome
      rw [Table.countP_append_one]
      exact h outcome
  | failed i row inv inv' error audit counts hi hrun hcaller hresult hfails =>
      cases hfails with
      | unrecorded hcode =>
          exact h.answer hi rfl rfl rfl (isAnswered_of_running hcaller)
      | recording hcode =>
          refine h.move hi rfl rfl (fun outcome => ?_)
          rw [isAnswered_of_running hcaller]
          rfl
  | returned i row inv value isError hi hrun hcaller hresult herror =>
      exact h.answer hi rfl rfl rfl (isAnswered_of_running hcaller)
  | concluded i write inv outcome w hi hcaller hwrite hdelivery =>
      exact h.answer hi rfl rfl rfl (fun _ => by simp [Invocation.isAnswered, hcaller])
  | unconcluded i write inv outcome w hi hcaller hwrite hdelivery =>
      exact h.answer hi rfl rfl rfl (fun _ => by simp [Invocation.isAnswered, hcaller])
  | halted i row inv r reason hi | started i row inv r hi | threw i inv error hi
  | allowed i inv data hi | entered i write inv data w hi | handled i inv data value outcome hi
  | recordLost i write inv value w hi | recordKept i write inv value w hi
  | settled i row inv r result hi => exact h.move hi rfl rfl (fun _ => rfl)

theorem Counted.of_reachable (h : (machine rt δ).Reachable s) : Counted s :=
  h.invariant (I := Counted) (fun _ => rfl) (fun _ _ _ _ hs hstep => hs.effect (step_effect hstep))

/-! ## Runs without such an abort -/

theorem Clean.of_reachableIn
    (h : (machine rt δ).ReachableIn (fun s l => s.undisturbed l = true) s) :
    ∀ (i : Nat) inv, s.invocations[i]? = some inv → Clean s inv := by
  refine h.invariant (I := fun s => ∀ (i : Nat) inv, s.invocations[i]? = some inv → Clean s inv)
    (by simp [machine]) (fun a l b ha hrows hok hstep => ?_)
  exact clean_effect (Linked.of_reachable ha.reachable)
    (ExecutionController.Slots.of_reachable (execution_reachable ha.reachable)) hrows hok
    (step_effect hstep)

theorem outcome_of_wrote {write : Nat} {outcome : Outcome} (h : s.Wrote inv write outcome) :
    (s.audit.writes[write]?).map (fun w => w.event.outcome) = some outcome := by
  obtain ⟨w, clock, hw, hevent, _⟩ := h
  rw [hw, Option.map_some, hevent]
  rfl

theorem outcomes_of_opening {records : List Nat} (h : s.Opening inv records) :
    records.filterMap (fun write => (s.audit.writes[write]?).map (fun w => w.event.outcome)) = [] ∨
      records.filterMap (fun write => (s.audit.writes[write]?).map (fun w => w.event.outcome))
        = [.allowed] := by
  rcases h with rfl | ⟨write, rfl, hwrote⟩
  · exact Or.inl rfl
  · exact Or.inr (by simp only [List.filterMap_cons, outcome_of_wrote hwrote, List.filterMap_nil])

theorem outcomes_of_ended {write : Nat} {outcome : Outcome}
    (h : s.Ended inv inv.records write outcome) :
    s.outcomes inv = [outcome] ∨ s.outcomes inv = [.allowed, outcome] := by
  obtain ⟨⟨first, hrecords, hopening⟩, hwrote, _⟩ := h
  unfold outcomes
  rw [hrecords, List.filterMap_append]
  rcases outcomes_of_opening hopening with hfirst | hfirst
  · exact Or.inl (by simp only [hfirst, List.filterMap_cons, outcome_of_wrote hwrote,
      List.filterMap_nil, List.nil_append])
  · exact Or.inr (by simp only [hfirst, List.filterMap_cons, outcome_of_wrote hwrote,
      List.filterMap_nil, List.cons_append, List.nil_append])

/-- A record of the call with a terminal outcome is the last one. -/
theorem Ended.last {write other : Nat} {outcome : Outcome} {w : Write AuditEvent}
    (h : s.Ended inv inv.records write outcome) (hother : other ∈ inv.records)
    (hw : s.audit.writes[other]? = some w) (hterminal : w.event.outcome ≠ .allowed) :
    other = write ∧ w.event.outcome = outcome := by
  obtain ⟨⟨first, hrecords, hopening⟩, hwrote, _⟩ := h
  have hallowed : other ∉ first := by
    intro hmem
    rcases hopening with rfl | ⟨a, rfl, hallowed⟩
    · exact absurd hmem (by simp)
    · obtain rfl := List.mem_singleton.mp hmem
      have := outcome_of_wrote hallowed
      rw [hw] at this
      exact hterminal (Option.some.inj this)
  rw [hrecords, List.mem_append] at hother
  rcases hother with hmem | hmem
  · exact absurd hmem hallowed
  · obtain rfl := List.mem_singleton.mp hmem
    have := outcome_of_wrote hwrote
    rw [hw] at this
    exact ⟨rfl, Option.some.inj this⟩

theorem Opening.no_terminal {other : Nat} {w : Write AuditEvent}
    (h : s.Opening inv inv.records) (hother : other ∈ inv.records)
    (hw : s.audit.writes[other]? = some w) : w.event.outcome = .allowed := by
  rcases h with hnil | ⟨a, hone, hallowed⟩
  · rw [hnil] at hother
    exact absurd hother (by simp)
  · rw [hone] at hother
    obtain rfl := List.mem_singleton.mp hother
    have := outcome_of_wrote hallowed
    rw [hw] at this
    exact Option.some.inj this

/-- Whatever the caller is doing, the records are an opening or an opening and a terminal one. -/
theorem Clean.records (h : Clean s inv) :
    s.Opening inv inv.records ∨ ∃ write outcome, s.Ended inv inv.records write outcome := by
  have hsettles : ∀ result, s.Settles inv result → s.Opening inv inv.records ∨
      ∃ write outcome, s.Ended inv inv.records write outcome := by
    intro result hresult
    cases result with
    | ok value =>
        obtain ⟨write, isError, _, hended, _⟩ := hresult
        exact Or.inr ⟨write, _, hended⟩
    | error error =>
        rcases hresult with hopening | ⟨_, write, outcome, hended, _⟩
        · exact Or.inl hopening
        · exact Or.inr ⟨write, outcome, hended⟩
  have hbooks := h.books
  unfold Books at hbooks
  cases hcaller : inv.caller with
  | running =>
      simp only [hcaller, Progress] at hbooks
      cases hphase : inv.operation with
      | idle | validating =>
          simp only [hphase] at hbooks
          exact Or.inl (Or.inl hbooks)
      | allowing write data | handling data | threw error =>
          simp only [hphase] at hbooks
          exact Or.inl hbooks
      | recording write value =>
          simp only [hphase] at hbooks
          obtain ⟨isError, _, hended⟩ := hbooks
          exact Or.inr ⟨write, _, hended⟩
      | recorded result =>
          simp only [hphase] at hbooks
          exact hsettles result hbooks
      | settled =>
          simp only [hphase] at hbooks
          obtain ⟨row, r, _, _, hrace⟩ := hbooks
          cases hr : r.race with
          | pending => simp [hr] at hrace
          | operation result =>
              simp only [hr] at hrace
              exact hsettles result hrace
          | aborted code =>
              simp only [hr] at hrace
              exact Or.inl hrace
  | concluding write outcome =>
      simp only [hcaller] at hbooks
      exact Or.inr ⟨write, outcome, hbooks⟩
  | answered outcome value =>
      simp only [hcaller] at hbooks
      rcases hbooks with hopening | ⟨write, told, hended, _⟩
      · exact Or.inl hopening
      · exact Or.inr ⟨write, told, hended⟩

/-- One terminal record for each call, in every run in which no deadline, caller or shutdown aborts
    a call between the moment its operation has handed over its `success` or `tool_error` record
    and the moment that operation has settled. The counters count the returned outcomes in any
    run. -/
theorem one_terminal_record
    (h : (machine rt δ).ReachableIn (fun s l => s.undisturbed l = true) s) :
    (∀ (i : Nat) inv, s.invocations[i]? = some inv → OneTerminalRecord s inv) ∧ Counted s := by
  refine ⟨fun i inv hi => ?_, Counted.of_reachable h.reachable⟩
  have hclean := Clean.of_reachableIn h i inv hi
  refine ⟨?_, fun outcome value hcaller write hmem w hw hterminal hdelivery => ?_⟩
  · rcases hclean.records with hopening | ⟨write, outcome, hended⟩
    · rcases outcomes_of_opening hopening with hnil | hallowed
      · exact Or.inl hnil
      · exact Or.inr (Or.inr (Or.inl hallowed))
    · rcases outcomes_of_ended hended with hone | htwo
      · exact Or.inr (Or.inl ⟨outcome, hended.2.2, hone⟩)
      · exact Or.inr (Or.inr (Or.inr ⟨outcome, hended.2.2, htwo⟩))
  · have hbooks := hclean.books
    unfold Books at hbooks
    simp only [hcaller] at hbooks
    rcases hbooks with hopening | ⟨last, told, hended, hsettled⟩
    · exact absurd (hopening.no_terminal hmem hw) hterminal
    · obtain ⟨rfl, htold⟩ := hended.last hmem hw hterminal
      rcases hsettled with ⟨_, heq⟩ | ⟨w', hw', hlost⟩
      · rw [htold, heq]
      · rw [hw] at hw'
        obtain rfl := Option.some.inj hw'
        rw [hdelivery] at hlost
        exact absurd hlost (by simp)

/-- The call of `admittedCall` to its answer. -/
def recordedCall : List (Label String) :=
  admittedCall ++
    [.admitted 0, .handled 0 (.ok notesResult), .audit (.callSink 1 .promise),
      .audit (.settle 1 true), .audit (.resume 1), .recorded 0, .settled 0, .answered 0]

theorem one_terminal_record_recordedCall :
    ∃ s inv, (machine notesRuntime String).execIn (fun s l => s.undisturbed l)
        (machine notesRuntime String).init recordedCall = some s ∧
      s.invocations[0]? = some inv ∧ s.outcomes inv = [.allowed, .success] ∧
      countOf s.counts .success = 1 ∧ OneTerminalRecord s inv := by
  have hrun : ∃ s inv, (machine notesRuntime String).execIn (fun s l => s.undisturbed l)
        (machine notesRuntime String).init recordedCall = some s ∧
      s.invocations[0]? = some inv ∧ s.outcomes inv = [.allowed, .success] ∧
      countOf s.counts .success = 1 := ⟨_, _, rfl, rfl, rfl, rfl⟩
  obtain ⟨s, inv, hexec, hi, houtcomes, hcount⟩ := hrun
  exact ⟨s, inv, hexec, hi, houtcomes, hcount,
    (one_terminal_record (Machine.leadsIn_of_execIn hexec)).1 0 inv hi⟩

/-- The same call, but its deadline fires while the sink has not yet acknowledged the `success`
    record. -/
def lateDeadline : List (Label String) :=
  admittedCall ++
    [.admitted 0, .handled 0 (.ok notesResult), .audit (.callSink 1 .promise),
      .execution (.expire 0), .answered 0, .audit (.callSink 2 .promise), .audit (.settle 1 true),
      .audit (.resume 1), .recorded 0, .settled 0, .audit (.settle 2 true), .audit (.resume 2),
      .concluded 0]

/-- The sink has acknowledged `success` and then `timeout` for one call, which returned
    `timeout`. -/
theorem two_terminal_records :
    ∃ s inv, (machine notesRuntime String).exec (machine notesRuntime String).init lateDeadline
        = some s ∧
      s.invocations[0]? = some inv ∧
      s.outcomes inv = [.allowed, .success, .failure .timeout] ∧
      countOf s.counts .success = 0 ∧ ¬ OneTerminalRecord s inv := by
  have hrun : ∃ s inv, (machine notesRuntime String).exec (machine notesRuntime String).init
        lateDeadline = some s ∧
      s.invocations[0]? = some inv ∧
      s.outcomes inv = [.allowed, .success, .failure .timeout] ∧
      countOf s.counts .success = 0 := ⟨_, _, rfl, rfl, rfl, rfl⟩
  obtain ⟨s, inv, hexec, hi, houtcomes, hcount⟩ := hrun
  refine ⟨s, inv, hexec, hi, houtcomes, hcount, fun hone => ?_⟩
  rcases hone.shape with hnil | ⟨t, _, ht⟩ | hallowed | ⟨t, _, ht⟩
  · simp [houtcomes] at hnil
  · simp [houtcomes] at ht
  · simp [houtcomes] at hallowed
  · simp [houtcomes] at ht

end SecureRuntime

end SecureMcp
