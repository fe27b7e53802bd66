import SecureMcp.Runtime.Admission

set_option autoImplicit false

/-! # Closing the runtime

What `SecureRuntime.close` has done when it gets to its disposers, to the dispatcher and to its
result, and what can still happen once the controller has been closed. -/

namespace SecureMcp

/-! ## The dispatcher -/

namespace AuditDispatcher

variable {ε : Type} {capacity : Nat} {d d' : AuditDispatcher ε} {l : Label ε}

/-- What a step does to the calls of `close` and to the closing of the sink. -/
inductive ClosingEffect (d : AuditDispatcher ε) (l : Label ε) (d' : AuditDispatcher ε) : Prop
  | kept (hcloses : d'.closes.length = d.closes.length) (hsink : d'.sinkClosing = d.sinkClosing)
      (hcalls : d'.sinkCloseCalls = d.sinkCloseCalls)
  | called (hlabel : l = .close) (hsink : d'.sinkClosing = d.sinkClosing)
      (hcalls : d'.sinkCloseCalls = d.sinkCloseCalls) (hcloses : d'.closes ≠ [])
  | sink (hcloses : d'.closes.length = d.closes.length) (hsink : d'.sinkClosing.isSome = true)
      (hbefore : d.sinkClosing.isSome = true ∨ d.closes ≠ [])

theorem write_kept (event : ε) (scope : Option Nat) : ClosingEffect d l (d.write event scope) := by
  unfold write
  split <;> exact .kept rfl rfl rfl

theorem closingEffect (h : d.step l = some d') : ClosingEffect d l d' := by
  cases l with
  | close => exact Option.some.inj h ▸ .called rfl rfl rfl (by simp [close])
  | write event scope => exact Option.some.inj h ▸ write_kept event scope
  | callSink i ret =>
      obtain ⟨w, -, h⟩ := Option.bind_eq_some_iff.mp h
      split at h
      · cases ret <;> exact Option.some.inj h ▸ .kept rfl rfl rfl
      · exact absurd h (by simp)
  | settle i ok | expire i =>
      obtain ⟨w, -, h⟩ := Option.bind_eq_some_iff.mp h
      split at h
      · exact Option.some.inj h ▸ .kept rfl rfl rfl
      · exact absurd h (by simp)
  | resume i =>
      obtain ⟨w, -, h⟩ := Option.bind_eq_some_iff.mp h
      split at h
      · exact Option.some.inj h ▸ .kept rfl rfl rfl
      · exact Option.some.inj h ▸ .kept rfl rfl rfl
      · exact absurd h (by simp)
  | drain k | closeExpire k =>
      obtain ⟨c, -, h⟩ := Option.bind_eq_some_iff.mp h
      split at h
      · exact Option.some.inj h ▸ .kept List.length_set rfl rfl
      · exact absurd h (by simp)
  | closeResume k =>
      obtain ⟨c, hk, h⟩ := Option.bind_eq_some_iff.mp h
      have hcalled : d.closes ≠ [] := List.ne_nil_of_length_pos
        (Nat.lt_of_le_of_lt (Nat.zero_le k) (Table.lt_of_getElem? hk))
      split at h
      · obtain rfl := Option.some.inj h
        exact .sink List.length_set (by cases hs : d.sinkClosing <;> simp) (Or.inr hcalled)
      · exact absurd h (by simp)
  | callSinkClose ret =>
      obtain ⟨c, hc, h⟩ := Option.bind_eq_some_iff.mp h
      have hsome : d.sinkClosing.isSome = true := by rw [hc]; rfl
      split at h
      · cases ret <;> exact Option.some.inj h ▸ .sink rfl rfl (Or.inl hsome)
      · exact absurd h (by simp)
  | settleSinkClose ok | expireSinkClose =>
      obtain ⟨c, hc, h⟩ := Option.bind_eq_some_iff.mp h
      have hsome : d.sinkClosing.isSome = true := by rw [hc]; rfl
      split at h
      · exact Option.some.inj h ▸ .sink rfl rfl (Or.inl hsome)
      · exact absurd h (by simp)
  | resumeSinkClose =>
      obtain ⟨c, hc, h⟩ := Option.bind_eq_some_iff.mp h
      have hsome : d.sinkClosing.isSome = true := by rw [hc]; rfl
      split at h
      · exact Option.some.inj h ▸ .sink rfl rfl (Or.inl hsome)
      · exact Option.some.inj h ▸ .sink rfl rfl (Or.inl hsome)
      · exact absurd h (by simp)
  | closeReturn k =>
      obtain ⟨c, -, h⟩ := Option.bind_eq_some_iff.mp h
      obtain ⟨sink, -, h⟩ := Option.bind_eq_some_iff.mp h
      split at h
      · exact Option.some.inj h ▸ .kept List.length_set rfl rfl
      · exact Option.some.inj h ▸ .kept List.length_set rfl rfl
      · exact absurd h (by simp)

/-- The sink is closed by a call of `close`. -/
theorem closes_of_sinkCloseCalls (h : (machine ε capacity).Reachable d) (hcalls : 0 < d.sinkCloseCalls) :
    d.closes ≠ [] := by
  have key : (0 < d.sinkCloseCalls → d.sinkClosing.isSome = true) ∧
      (d.sinkClosing.isSome = true → d.closes ≠ []) := by
    refine h.invariant (I := fun d => (0 < d.sinkCloseCalls → d.sinkClosing.isSome = true) ∧
      (d.sinkClosing.isSome = true → d.closes ≠ [])) ⟨by simp [machine], by simp [machine]⟩ ?_
    rintro a l b - ⟨hsink, hcloses⟩ hstep
    have hlength : b.closes.length = a.closes.length → a.closes ≠ [] → b.closes ≠ [] := by
      intro hsame hne hnil
      rw [hnil] at hsame
      exact hne (List.length_eq_zero_iff.mp hsame.symm)
    cases closingEffect hstep with
    | kept hsame hsinks hcalls =>
        rw [hsinks, hcalls]
        exact ⟨hsink, fun hsome => hlength hsame (hcloses hsome)⟩
    | called _ hsinks hcalls hne =>
        rw [hsinks, hcalls]
        exact ⟨hsink, fun _ => hne⟩
    | sink hsame hsome hbefore =>
        refine ⟨fun _ => hsome, fun _ => hlength hsame ?_⟩
        rcases hbefore with hbefore | hne
        · exact hcloses hbefore
        · exact hne
  exact key.2 (key.1 hcalls)

end AuditDispatcher

/-! ## The runtime -/

namespace SecureRuntime

variable {δ : Type} {rt : RuntimeSetup} {s s' : SecureRuntime δ} {l : Label δ}

/-- What a step does to the promise of `close`. -/
inductive ClosingEffect (s : SecureRuntime δ) (l : Label δ) (s' : SecureRuntime δ) : Prop
  | kept (hclosing : s'.closing = s.closing)
      (haudit : s'.audit.closes.length = s.audit.closes.length ∨ l = .audit .close)
  | called (hlabel : l = .close) (hnone : s.closing = none)
      (hclosing : s'.closing = some (.awaitingExecution s.execution.closes.length))
      (haudit : s'.audit = s.audit)
  | disposing (k : Nat) (hbefore : s.closing = some (.awaitingExecution k))
      (hreturned : s.execution.closes[k]? = some (some 0)) (hclosing : s'.closing = some .disposing)
      (haudit : s'.audit = s.audit) (hexecution : s'.execution = s.execution)
  | undisposed (k remaining : Nat) (hbefore : s.closing = some (.awaitingExecution k))
      (hreturned : s.execution.closes[k]? = some (some remaining)) (hexecution : s'.execution = s.execution)
      (hclosing : s'.closing = some (.awaitingAudit remaining s.audit.closes.length))
  | disposed (hbefore : s.closing = some .disposing) (hexecution : s'.execution = s.execution)
      (hclosing : s'.closing = some (.awaitingAudit 0 s.audit.closes.length) ∨
        (s'.closing = some .rejected ∧ s'.audit = s.audit))
  | audited (remaining k : Nat) (hbefore : s.closing = some (.awaitingAudit remaining k))
      (haudit : s'.audit = s.audit) (hexecution : s'.execution = s.execution)
      (hclosing : (∃ pending, s'.closing = some (.resolved (remaining + pending))) ∨
        s'.closing = some .rejected)

theorem closingEffect (h : s.step rt l = some s') : ClosingEffect s l s' := by
  have hwrite : ∀ event scope, (s.audit.write event scope).closes.length = s.audit.closes.length := by
    intro event scope
    unfold AuditDispatcher.write
    split <;> rfl
  have hfails : ∀ {inv inv' : Invocation δ} {code audit counts}, Fails s inv code audit counts inv' →
      audit.closes.length = s.audit.closes.length := by
    intro inv inv' code audit counts hfails
    cases hfails with
    | unrecorded => rfl
    | recording => exact hwrite _ _
  cases step_effect h with
  | quiet _ _ _ haudit _ _ hquiet =>
      cases l with
      | tick | openRequest => exact Option.some.inj h ▸ .kept rfl (Or.inl rfl)
      | close =>
          obtain rfl := Option.some.inj h
          cases hclosing : s.closing with
          | some _ => exact .kept (by simp [close, hclosing]) (Or.inl (by simp [close, hclosing]))
          | none => exact .called rfl hclosing (by simp [close, hclosing]) (by simp [close, hclosing])
      | closeExecution =>
          obtain ⟨closing, hclosing, h⟩ := Option.bind_eq_some_iff.mp h
          cases closing with
          | awaitingExecution k =>
              obtain ⟨returned, hk, h⟩ := Option.bind_eq_some_iff.mp h
              obtain ⟨remaining, rfl, h⟩ := Option.bind_eq_some_iff.mp h
              cases remaining with
              | zero => exact Option.some.inj h ▸ .disposing k hclosing hk rfl rfl rfl
              | succ n => exact Option.some.inj h ▸ .undisposed k (n + 1) hclosing hk rfl rfl
          | _ => exact absurd h (by simp)
      | disposed ok =>
          obtain ⟨closing, hclosing, h⟩ := Option.bind_eq_some_iff.mp h
          cases closing with
          | disposing =>
              cases ok with
              | true => exact Option.some.inj h ▸ .disposed hclosing rfl (Or.inl rfl)
              | false => exact Option.some.inj h ▸ .disposed hclosing rfl (Or.inr ⟨rfl, rfl⟩)
          | _ => exact absurd h (by simp)
      | closeAudit =>
          obtain ⟨closing, hclosing, h⟩ := Option.bind_eq_some_iff.mp h
          cases closing with
          | awaitingAudit remaining k =>
              obtain ⟨c, hk, h⟩ := Option.bind_eq_some_iff.mp h
              split at h
              · next pending _ =>
                  exact Option.some.inj h ▸ .audited remaining k hclosing rfl rfl (Or.inl ⟨pending, rfl⟩)
              · exact Option.some.inj h ▸ .audited remaining k hclosing rfl rfl (Or.inr rfl)
              · exact absurd h (by simp)
          | _ => exact absurd h (by simp)
      | audit label =>
          obtain ⟨audit, hstep, rfl⟩ := Option.map_eq_some_iff.mp h
          refine .kept rfl ?_
          cases AuditDispatcher.closingEffect hstep with
          | kept hcloses => exact Or.inl hcloses
          | called hlabel => exact Or.inr (by rw [hlabel])
          | sink hcloses => exact Or.inl hcloses
      | execution label =>
          simp only [step] at h
          split at h
          · obtain ⟨execution, -, rfl⟩ := Option.map_eq_some_iff.mp h
            exact .kept rfl (Or.inl rfl)
          · exact absurd h (by simp)
      | _ => exact absurd hquiet (by simp [Label.isQuiet])
  | refused _ _ _ _ _ _ _ hfailed => exact .kept rfl (Or.inl (hfails hfailed))
  | failed _ _ _ _ _ _ _ _ _ _ _ hfailed => exact .kept rfl (Or.inl (hfails hfailed))
  | allowed | handled => exact .kept rfl (Or.inl (hwrite _ _))
  | _ => exact .kept rfl (Or.inl rfl)

theorem close_isSome (s : SecureRuntime δ) : s.close.closing.isSome = true := by
  unfold close
  cases h : s.closing with
  | none => rfl
  | some _ => simp [h]

/-- Only a call of `close` starts it. -/
theorem closing_isSome_kept (h : s.step rt l = some s') (hl : l ≠ .close) :
    s'.closing.isSome = s.closing.isSome := by
  cases closingEffect h with
  | kept hclosing => rw [hclosing]
  | called hlabel => exact absurd hlabel hl
  | disposing k hbefore _ hclosing => rw [hbefore, hclosing]; rfl
  | undisposed k remaining hbefore _ _ hclosing => rw [hbefore, hclosing]; rfl
  | disposed hbefore _ hclosing =>
      rcases hclosing with hclosing | ⟨hclosing, -⟩
      · rw [hbefore, hclosing]; rfl
      · rw [hbefore, hclosing]; rfl
  | audited remaining k hbefore _ _ hclosing =>
      rcases hclosing with ⟨pending, hclosing⟩ | hclosing
      · rw [hbefore, hclosing]; rfl
      · rw [hbefore, hclosing]; rfl

/-- The dispatcher is closed by `close` alone, unless other code closes it. -/
theorem closing_of_closes (h : s.step rt l = some s') (hl : l ≠ .audit .close)
    (hs : s.audit.closes ≠ [] → s.closing.isSome = true) (hcloses : s'.audit.closes ≠ []) :
    s'.closing.isSome = true := by
  cases closingEffect h with
  | kept hclosing haudit =>
      rw [hclosing]
      rcases haudit with hsame | hlabel
      · refine hs (fun hnil => hcloses (List.length_eq_zero_iff.mp ?_))
        rw [hsame, hnil, List.length_nil]
      · exact absurd hlabel hl
  | called _ _ hclosing => rw [hclosing]; rfl
  | disposing k _ _ hclosing => rw [hclosing]; rfl
  | undisposed k remaining _ _ _ hclosing => rw [hclosing]; rfl
  | disposed _ _ hclosing =>
      rcases hclosing with hclosing | ⟨hclosing, -⟩
      · rw [hclosing]; rfl
      · rw [hclosing]; rfl
  | audited remaining k _ _ _ hclosing =>
      rcases hclosing with ⟨pending, hclosing⟩ | hclosing
      · rw [hclosing]; rfl
      · rw [hclosing]; rfl

/-- What the promise of `close` has got to, and the drain that let it. -/
def Closed (s : SecureRuntime δ) : Prop :=
  match s.closing with
  | none | some (.awaitingExecution _) | some .rejected => True
  | some .disposing => ∃ drain, s.execution.shutdown = some drain ∧ drain.phase = .resolved 0
  | some (.awaitingAudit remaining _) =>
    ∃ drain, s.execution.shutdown = some drain ∧ drain.phase = .resolved remaining
  | some (.resolved n) => ∃ drain remaining, s.execution.shutdown = some drain ∧
    drain.phase = .resolved remaining ∧ remaining ≤ n

/-- A drain that has ended stays as it is. -/
theorem shutdown_kept (h : s.step rt l = some s') {drain : Drain} {n : Nat}
    (hshutdown : s.execution.shutdown = some drain) (hphase : drain.phase = .resolved n) :
    s'.execution.shutdown = some drain := by
  rcases (step_effect h).execution with hsame | ⟨l', hl'⟩
  · rw [hsame]
    exact hshutdown
  · exact ExecutionController.resolved_kept hl' hshutdown hphase

theorem closed_of_reachable (h : (machine rt δ).Reachable s) : Closed s := by
  refine h.invariant (I := Closed) trivial ?_
  intro a l b ha hclosed hstep
  have hdrain := ExecutionController.Draining.of_reachable (execution_reachable ha)
  have hkept : ∀ drain n, a.execution.shutdown = some drain → drain.phase = .resolved n →
      b.execution.shutdown = some drain := fun _ _ => shutdown_kept hstep
  cases closingEffect hstep with
  | kept hclosing haudit =>
      unfold Closed at hclosed ⊢
      rw [hclosing]
      split at hclosed
      · trivial
      · trivial
      · trivial
      · obtain ⟨drain, hshutdown, hphase⟩ := hclosed
        exact ⟨drain, hkept drain _ hshutdown hphase, hphase⟩
      · obtain ⟨drain, hshutdown, hphase⟩ := hclosed
        exact ⟨drain, hkept drain _ hshutdown hphase, hphase⟩
      · obtain ⟨drain, remaining, hshutdown, hphase, hle⟩ := hclosed
        exact ⟨drain, remaining, hkept drain _ hshutdown hphase, hphase, hle⟩
  | called _ _ hclosing =>
      unfold Closed
      rw [hclosing]
      trivial
  | disposing k _ hreturned hclosing _ hexecution =>
      unfold Closed
      rw [hclosing, hexecution]
      exact hdrain.closes k 0 hreturned
  | undisposed k remaining _ hreturned hexecution hclosing =>
      unfold Closed
      rw [hclosing, hexecution]
      exact hdrain.closes k remaining hreturned
  | disposed hbefore hexecution hclosing =>
      unfold Closed at hclosed ⊢
      rw [hbefore] at hclosed
      rcases hclosing with hclosing | ⟨hclosing, -⟩
      · rw [hclosing, hexecution]
        exact hclosed
      · rw [hclosing]
        trivial
  | audited remaining k hbefore _ hexecution hclosing =>
      unfold Closed at hclosed ⊢
      rw [hbefore] at hclosed
      obtain ⟨drain, hshutdown, hphase⟩ := hclosed
      rcases hclosing with ⟨pending, hclosing⟩ | hclosing
      · rw [hclosing, hexecution]
        exact ⟨drain, remaining, hshutdown, hphase, Nat.le_add_right _ _⟩
      · rw [hclosing]
        trivial

/-! ## After the controller was closed -/

theorem closing_of_leads (hclosing : s.execution.closing = true) (h : (machine rt δ).Leads s s') :
    s'.execution.closing = true := by
  refine h.invariant (I := fun s => s.execution.closing = true) hclosing ?_
  intro a l b ha hstep
  rcases (step_effect hstep).execution with hsame | ⟨l', hl'⟩
  · rw [hsame]
    exact ha
  · exact (ExecutionController.step_effect hl').closing_mono ha

/-- No handler is entered any more. -/
theorem enteredAt_of_closing (h : (machine rt δ).Reachable s) (hclosing : s.execution.closing = true)
    (hlead : (machine rt δ).Leads s s') (i : Nat) : s'.enteredAt i = s.enteredAt i := by
  refine hlead.along (I := fun s' => s'.enteredAt i = s.enteredAt i) rfl ?_
  intro a l b ha hsame hstep
  by_contra hne
  have hentered : b.enteredAt i ≠ a.enteredAt i := fun heq => hne (heq.trans hsame)
  obtain ⟨_, _, _, _, _, _, -, -, -, -, -, ⟨-, -, -, hopen⟩, -⟩ :=
    admission_safety (h.trans ha) hstep i hentered
  have hclosed := closing_of_leads hclosing (ha.snoc hstep)
  exact absurd (hclosed.symm.trans hopen) (by simp)

theorem shutdown_of_leads (h : (machine rt δ).Leads s s') {drain : Drain} {n : Nat}
    (hshutdown : s.execution.shutdown = some drain) (hphase : drain.phase = .resolved n) :
    s'.execution.shutdown = some drain :=
  h.invariant (I := fun s => s.execution.shutdown = some drain) hshutdown
    (fun _ _ _ ha hstep => shutdown_kept hstep ha hphase)

/-- Once the drain has ended with `n`, at most `n` operations are ever active. -/
theorem active_le_of_leads (h : (machine rt δ).Reachable s) {drain : Drain} {n : Nat}
    (hshutdown : s.execution.shutdown = some drain) (hphase : drain.phase = .resolved n)
    (hlead : (machine rt δ).Leads s s') : s'.execution.active.length ≤ n :=
  ExecutionController.active_le_of_resolved (execution_reachable (h.trans hlead))
    (shutdown_of_leads hlead hshutdown hphase) hphase

/-- Where the disposers run, no operation is active, and none is later on. -/
theorem active_of_disposing (h : (machine rt δ).Reachable s) (hdisposing : s.closing = some .disposing)
    (hlead : (machine rt δ).Leads s s') : s'.execution.active = [] := by
  have hclosed := closed_of_reachable h
  unfold Closed at hclosed
  rw [hdisposing] at hclosed
  obtain ⟨drain, hshutdown, hphase⟩ := hclosed
  have hle := active_le_of_leads h hshutdown hphase hlead
  exact List.length_eq_zero_iff.mp (Nat.le_zero.mp hle)

/-- What `close` resolves to counts every operation that was active when the drain had ended. -/
theorem active_le_of_resolved (h : (machine rt δ).Reachable s) {drain : Drain} {k n : Nat}
    (hshutdown : s.execution.shutdown = some drain) (hphase : drain.phase = .resolved k)
    (hlead : (machine rt δ).Leads s s') (hresolved : s'.closing = some (.resolved n)) :
    s.execution.active.length ≤ n := by
  have hclosed := closed_of_reachable (h.trans hlead)
  unfold Closed at hclosed
  rw [hresolved] at hclosed
  obtain ⟨last, remaining, hlast, hremaining, hle⟩ := hclosed
  have hkept := shutdown_of_leads hlead hshutdown hphase
  obtain rfl := Option.some.inj (hkept.symm.trans hlast)
  obtain rfl := DrainPhase.resolved.inj (hphase.symm.trans hremaining)
  have hactive := active_le_of_leads h hshutdown hphase (Machine.Leads.refl s)
  exact Nat.le_trans hactive hle

end SecureRuntime

end SecureMcp
