import SecureMcp.Http.Exchange
import SecureMcp.Runtime.Closing

set_option autoImplicit false

/-! # The order of an HTTP shutdown

`HttpHandle.close` stops the tools, waits for the handler, the sockets and the terminal records, and
only then closes the runtime. `ShuttingDown` says what each of its phases has behind it; it holds
along the runs in which no other code closes the runtime (`closedByHandle`). -/

namespace SecureMcp

variable {δ : Type}

namespace HttpServer

/-- Neither the runtime nor its dispatcher is closed behind the back of `HttpHandle.close`. -/
def closedByHandle : Label δ → Bool
  | .runtime .close | .runtime (.audit .close) => false
  | _ => true

/-- A request was admitted in this row. -/
def hasAdmitted (s : HttpServer δ) (x : Nat) : Bool :=
  ((s.exchanges[x]?).bind HttpExchange.trace).isSome

structure ShuttingDown (s : HttpServer δ) : Prop where
  closing : s.closing = s.shutdown.isSome
  execution : s.shutdown.isSome = true → s.runtime.execution.closing = true
  runtime : s.runtime.closing.isSome = true → s.shutdown = some .awaitingRuntime
  audit : s.runtime.audit.closes ≠ [] → s.runtime.closing.isSome = true
  terminals : ∀ snapshot, s.shutdown = some (.awaitingTerminals snapshot) →
    ∀ (x : Nat) e, s.exchanges[x]? = some e → e.holds = true → x ∈ snapshot
  ended : s.shutdown = some .awaitingRuntime →
    ∀ (x : Nat) e, s.exchanges[x]? = some e → e.holds = false

variable {setup : HttpSetup} {s s' : HttpServer δ} {l : Label δ}

/-! ## The rows of a closing server -/

/-- Every admitted row was one before, and no row takes a slot again. -/
theorem Effect.trace_of_closing (he : Effect setup s l s') (hclosing : s.closing = true) {x : Nat}
    {e' : HttpExchange} {trace' : Trace} (hx' : s'.exchanges[x]? = some e')
    (htrace' : e'.trace = some trace') :
    ∃ e trace, s.exchanges[x]? = some e ∧ e.trace = some trace ∧
      (trace.ending = .done → trace'.ending = .done) := by
  have hset : ∀ {y : Nat} {b : HttpExchange},
      (∀ trace', b.trace = some trace' → ∃ e trace, s.exchanges[y]? = some e ∧
        e.trace = some trace ∧ (trace.ending = .done → trace'.ending = .done)) →
      (s.exchanges.set y b)[x]? = some e' → ∃ e trace, s.exchanges[x]? = some e ∧
        e.trace = some trace ∧ (trace.ending = .done → trace'.ending = .done) := by
    intro y b hb hget
    rcases Table.getElem?_set_cases hget with ⟨rfl, rfl⟩ | ⟨_, hold⟩
    · exact hb trace' htrace'
    · exact ⟨e', trace', hold, htrace', id⟩
  -- the row of a request whose threads go on
  have hthread : ∀ {y : Nat} {e b : HttpExchange} {old new : Trace}, s.exchanges[y]? = some e →
      e.trace = some old → b.trace = some new → (old.ending = .done → new.ending = .done) →
      (s.exchanges.set y b)[x]? = some e' → ∃ e trace, s.exchanges[x]? = some e ∧
        e.trace = some trace ∧ (trace.ending = .done → trace'.ending = .done) := by
    intro y e b old new hy hold hnew hdone hget
    refine hset (fun other hother => ⟨e, old, hy, hold, ?_⟩) hget
    obtain rfl := Option.some.inj (hnew.symm.trans hother)
    exact hdone
  cases he with
  | counted | closing | runtime => exact ⟨e', trace', hx', htrace', id⟩
  | listened request endpoint =>
      rcases Table.getElem?_append_cases hx' with hold | ⟨_, rfl⟩
      · exact ⟨e', trace', hold, htrace', id⟩
      · exact absurd htrace' (by simp [HttpExchange.trace])
  | refused y e response reason counters hy hphase =>
      exact hset (fun trace htrace => absurd htrace (by simp [HttpExchange.trace])) hx'
  | admitted y e principal uuid hy hphase hdestroyed hopen =>
      exact absurd (hclosing.symm.trans hopen) (by simp)
  | untraced y e response hy hnone =>
      refine hset (b := { e with response }) (fun trace htrace => ?_) hx'
      exact absurd (hnone.symm.trans htrace) (by simp)
  | moved y e old new response hy hold hmoves => exact hthread hy hold rfl hmoves.ending.mpr hx'
  | attempted y e old hy hold hready =>
      exact hthread hy hold rfl (fun hdone => absurd hdone hready.not_done) hx'
  | released y e old write hy hold => exact hthread hy hold rfl (fun _ => rfl) hx'
  | responding y e old status hy hold | invoked y e old call runtime hy hold
  | observed y e old event hy hold =>
      refine hthread hy hold rfl (fun hdone => ?_) hx'
      exact hdone

theorem trace_of_holds {e : HttpExchange} (h : e.holds = true) :
    ∃ trace, e.trace = some trace ∧ trace.ending ≠ .done := by
  cases htrace : e.trace with
  | none => simp [HttpExchange.holds, htrace] at h
  | some trace =>
      rw [holds_of_trace htrace] at h
      exact ⟨trace, rfl, bne_iff_ne.mp h⟩

theorem Effect.holds_of_closing (he : Effect setup s l s') (hclosing : s.closing = true) {x : Nat}
    {e' : HttpExchange} (hx' : s'.exchanges[x]? = some e') (hholds : e'.holds = true) :
    ∃ e, s.exchanges[x]? = some e ∧ e.holds = true := by
  obtain ⟨trace', htrace', hopen⟩ := trace_of_holds hholds
  obtain ⟨e, trace, hx, htrace, hdone⟩ := he.trace_of_closing hclosing hx' htrace'
  refine ⟨e, hx, ?_⟩
  rw [holds_of_trace htrace]
  exact bne_iff_ne.mpr (fun hended => hopen (hdone hended))

theorem hasAdmitted_iff {x : Nat} :
    s.hasAdmitted x = true ↔ ∃ e trace, s.exchanges[x]? = some e ∧ e.trace = some trace := by
  rw [hasAdmitted, Option.isSome_iff_exists]
  simp only [Option.bind_eq_some_iff]
  constructor
  · rintro ⟨trace, e, hx, htrace⟩
    exact ⟨e, trace, hx, htrace⟩
  · rintro ⟨e, trace, hx, htrace⟩
    exact ⟨trace, e, hx, htrace⟩

/-- No request is admitted while the server is closing. -/
theorem Effect.hasAdmitted_of_closing (he : Effect setup s l s') (hclosing : s.closing = true)
    (x : Nat) : s'.hasAdmitted x = s.hasAdmitted x := by
  rw [Bool.eq_iff_iff, hasAdmitted_iff, hasAdmitted_iff]
  constructor
  · rintro ⟨e', trace', hx', htrace'⟩
    obtain ⟨e, trace, hx, htrace, _⟩ := he.trace_of_closing hclosing hx' htrace'
    exact ⟨e, trace, hx, htrace⟩
  · rintro ⟨e, trace, hx, htrace⟩
    obtain ⟨e', trace', hx', htrace', _⟩ := he.persists hx htrace
    exact ⟨e', trace', hx', htrace'⟩

theorem mem_terminals {x : Nat} {e : HttpExchange} (hx : s.exchanges[x]? = some e)
    (hholds : e.holds = true) : x ∈ s.terminals := by
  obtain ⟨trace, htrace, hopen⟩ := trace_of_holds hholds
  unfold terminals
  rw [List.mem_filter]
  refine ⟨List.mem_range.mpr (Table.lt_of_getElem? hx), ?_⟩
  simp [hx, htrace, hopen]

theorem not_holds_of_hasEnded {x : Nat} {e : HttpExchange} (hx : s.exchanges[x]? = some e)
    (hended : s.hasEnded x = true) : e.holds = false := by
  cases htrace : e.trace with
  | none => rw [HttpExchange.holds, htrace]
  | some trace =>
      simp only [hasEnded, hx, Option.bind_some, htrace, beq_iff_eq] at hended
      rw [holds_of_trace htrace, hended]
      rfl

theorem Effect.closing_mono (he : Effect setup s l s') (h : s.closing = true) : s'.closing = true := by
  cases he with
  | closing runtime closing shutdown hruntime hclosing => exact hclosing h
  | _ => exact h

/-! ## Every step -/

/-- What a step of other threads leaves to the phases of `close`. -/
structure Apart (s s' : HttpServer δ) : Prop where
  closing : s'.closing = s.closing
  shutdown : s'.shutdown = s.shutdown
  runtime : s'.runtime.closing.isSome = s.runtime.closing.isSome
  audit : (s.runtime.audit.closes ≠ [] → s.runtime.closing.isSome = true) →
    s'.runtime.audit.closes ≠ [] → s'.runtime.closing.isSome = true

theorem Apart.of_write (event : AuditEvent) (scope : Option Nat) (hclosing : s'.closing = s.closing)
    (hshutdown : s'.shutdown = s.shutdown) (hruntime : s'.runtime = (s.write event scope).runtime) :
    Apart s s' := by
  have hcloses : (s.runtime.audit.write event scope).closes = s.runtime.audit.closes := by
    unfold AuditDispatcher.write
    split <;> rfl
  refine ⟨hclosing, hshutdown, by rw [hruntime]; rfl, fun haudit hne => ?_⟩
  rw [hruntime] at hne ⊢
  exact haudit (hcloses ▸ hne)

theorem Apart.of_step {label : SecureRuntime.Label δ} (hclosing : s'.closing = s.closing)
    (hshutdown : s'.shutdown = s.shutdown)
    (hstep : s.runtime.step setup.rt label = some s'.runtime) (hclose : label ≠ .close)
    (haudit : label ≠ .audit .close) : Apart s s' :=
  ⟨hclosing, hshutdown, SecureRuntime.closing_isSome_kept hstep hclose,
    SecureRuntime.closing_of_closes hstep haudit⟩

/-- Only `close` and its continuation move the phases of `close`. -/
theorem Effect.apart (he : Effect setup s l s') (hhandle : closedByHandle l = true) :
    Apart s s' ∨ l = .close ∨ ∃ ok, l = .closeNext ok := by
  cases he with
  | admitted | responding | attempted | observed =>
      exact Or.inl (.of_write _ _ rfl rfl rfl)
  | invoked x e trace call runtime hx htrace hdispatched hscope hstep =>
      refine Or.inl (.of_step rfl rfl hstep ?_ ?_)
      · simp
      · simp
  | closing runtime closing shutdown hruntime hclosing hlabel => exact Or.inr hlabel
  | runtime label runtime hlabel hforeign hstep =>
      refine Or.inl (.of_step rfl rfl hstep ?_ ?_)
      · rintro rfl
        simp [hlabel, closedByHandle] at hhandle
      · rintro rfl
        simp [hlabel, closedByHandle] at hhandle
  | _ => exact Or.inl ⟨rfl, rfl, rfl, fun haudit hne => haudit hne⟩

theorem ShuttingDown.apart (h : ShuttingDown s) (he : Effect setup s l s') (hapart : Apart s s') :
    ShuttingDown s' := by
  have hholds : s.shutdown.isSome = true → ∀ (x : Nat) e', s'.exchanges[x]? = some e' →
      e'.holds = true → ∃ e, s.exchanges[x]? = some e ∧ e.holds = true :=
    fun hsome x e' => he.holds_of_closing (h.closing.trans hsome)
  refine ⟨?_, ?_, ?_, hapart.audit h.audit, ?_, ?_⟩
  · rw [hapart.closing, hapart.shutdown]
    exact h.closing
  · rw [hapart.shutdown]
    exact fun hsome => SecureRuntime.closing_of_leads (h.execution hsome) he.runtime_leads
  · rw [hapart.runtime, hapart.shutdown]
    exact h.runtime
  · rw [hapart.shutdown]
    intro snapshot hsnapshot x e' hx' he'
    obtain ⟨e, hx, hheld⟩ := hholds (by rw [hsnapshot]; rfl) x e' hx' he'
    exact h.terminals snapshot hsnapshot x e hx hheld
  · rw [hapart.shutdown]
    intro hawaiting x e' hx'
    by_contra hheld
    obtain ⟨e, hx, hold⟩ := hholds (by rw [hawaiting]; rfl) x e' hx' (by simpa using hheld)
    exact absurd (hold.symm.trans (h.ended hawaiting x e hx)) (by simp)

theorem ShuttingDown.close (h : ShuttingDown s) (hreach : (machine setup δ).Reachable s) :
    ShuttingDown s.close := by
  unfold HttpServer.close
  cases hshutdown : s.shutdown with
  | some _ => exact h
  | none =>
      refine ⟨rfl, fun _ => ?_, fun hsome => ?_, h.audit, fun snapshot hs => absurd hs (by simp),
        fun hs => absurd hs (by simp)⟩
      · exact ExecutionController.closing_of_close (ExecutionController.Draining.of_reachable
          (SecureRuntime.execution_reachable (runtime_reachable hreach)))
      · exact absurd (hshutdown.symm.trans (h.runtime hsome)) (by simp)

theorem ShuttingDown.closeNext {ok : Bool} (h : ShuttingDown s)
    (hstep : s.step setup (.closeNext ok) = some s') : ShuttingDown s' := by
  obtain ⟨shutdown, hshutdown, hstep⟩ := Option.bind_eq_some_iff.mp hstep
  have hsome : s.shutdown.isSome = true := by rw [hshutdown]; rfl
  have hnone : shutdown ≠ .awaitingRuntime → s.runtime.closing.isSome ≠ true := by
    intro hne hclosing
    exact hne (Option.some.inj (hshutdown.symm.trans (h.runtime hclosing)))
  have hclosing : s.closing = true := h.closing.trans hsome
  cases shutdown with
  | awaitingExecution k =>
      obtain ⟨returned, _, hstep⟩ := Option.bind_eq_some_iff.mp hstep
      obtain ⟨_, _, hstep⟩ := Option.bind_eq_some_iff.mp hstep
      obtain rfl := Option.some.inj hstep
      exact ⟨hclosing, fun _ => h.execution hsome, fun hc => absurd hc (hnone (by simp)), h.audit,
        fun snapshot hs => absurd hs (by simp), fun hs => absurd hs (by simp)⟩
  | awaitingHandler =>
      obtain rfl := Option.some.inj hstep
      exact ⟨hclosing, fun _ => h.execution hsome, fun hc => absurd hc (hnone (by simp)), h.audit,
        fun snapshot hs => absurd hs (by cases ok <;> simp),
        fun hs => absurd hs (by cases ok <;> simp)⟩
  | awaitingStopped =>
      obtain rfl := Option.some.inj hstep
      refine ⟨hclosing, fun _ => h.execution hsome, fun hc => absurd hc (hnone (by simp)), h.audit,
        fun snapshot hs x e hx hholds => ?_, fun hs => absurd hs (by cases ok <;> simp)⟩
      cases ok with
      | true =>
          obtain rfl := HttpClosing.awaitingTerminals.inj (Option.some.inj hs)
          exact mem_terminals hx hholds
      | false => exact absurd hs (by simp)
  | awaitingTerminals snapshot =>
      dsimp only at hstep
      split at hstep
      · next hall =>
          obtain rfl := Option.some.inj hstep
          refine ⟨hclosing, fun _ => ?_, fun _ => rfl, fun _ => ?_,
            fun snapshot hs => absurd hs (by simp), fun _ x e hx => ?_⟩
          · have hlead : (SecureRuntime.machine setup.rt δ).Leads s.runtime s.runtime.close :=
              Machine.Leads.single (l := .close) rfl
            exact SecureRuntime.closing_of_leads (h.execution hsome) hlead
          · exact SecureRuntime.close_isSome s.runtime
          · by_contra hheld
            have hholds : e.holds = true := by simpa using hheld
            have hmem := h.terminals snapshot hshutdown x e hx hholds
            have hended := not_holds_of_hasEnded hx (List.all_eq_true.mp hall x hmem)
            exact absurd (hholds.symm.trans hended) (by simp)
      · exact absurd hstep (by simp)
  | _ => exact absurd hstep (by simp)

theorem ShuttingDown.step (h : ShuttingDown s) (hreach : (machine setup δ).Reachable s)
    (hhandle : closedByHandle l = true) (hstep : s.step setup l = some s') : ShuttingDown s' := by
  rcases (step_effect hstep).apart hhandle with hapart | rfl | ⟨ok, rfl⟩
  · exact h.apart (step_effect hstep) hapart
  · exact Option.some.inj hstep ▸ h.close hreach
  · exact h.closeNext hstep

theorem ShuttingDown.of_reachableIn
    (h : (machine setup δ).ReachableIn (fun _ l => closedByHandle l = true) s) : ShuttingDown s := by
  refine h.invariant (I := ShuttingDown)
    ⟨rfl, by simp [machine], by simp [machine, SecureRuntime.machine],
      by simp [machine, SecureRuntime.machine], by simp [machine],
      by simp [machine]⟩ ?_
  intro a l b ha hI hhandle hstep
  exact hI.step ha.reachable hhandle hstep

/-! ## Every run -/

theorem runtime_leads_of_leads (h : (machine setup δ).Leads s s') :
    (SecureRuntime.machine setup.rt δ).Leads s.runtime s'.runtime :=
  h.invariant (I := fun b => (SecureRuntime.machine setup.rt δ).Leads s.runtime b.runtime)
    (Machine.Leads.refl _) (fun _ _ _ ha hstep => ha.trans (step_effect hstep).runtime_leads)

/-- Once the server is closing, it stays so, and the requests it has admitted are the ones it had. -/
theorem hasAdmitted_of_leads (hclosing : s.closing = true) (h : (machine setup δ).Leads s s') (x : Nat) :
    s'.hasAdmitted x = s.hasAdmitted x := by
  have key : s'.closing = true ∧ s'.hasAdmitted x = s.hasAdmitted x := by
    refine h.invariant (I := fun b => b.closing = true ∧ b.hasAdmitted x = s.hasAdmitted x)
      ⟨hclosing, rfl⟩ ?_
    rintro a l b ⟨ha, hsame⟩ hstep
    have he := step_effect hstep
    exact ⟨he.closing_mono ha, (he.hasAdmitted_of_closing ha x).trans hsame⟩
  exact key.2

/-- The terminal record of this request was made, once, and its write has settled. -/
def TerminalSettled (r : SecureRuntime δ) (trace : Trace) : Prop :=
  ∃ write, trace.attempts = [write] ∧ r.Settled write ∧
    ∃ outcome status, Recorded r trace write none outcome status

theorem Lifecycle.terminalSettled {r : SecureRuntime δ} {x : Nat} {e : HttpExchange} {trace : Trace}
    (h : Lifecycle r x e trace) (hdone : trace.ending = .done) : TerminalSettled r trace := by
  have hending := h.ending
  unfold Ending at hending
  rw [hdone] at hending
  obtain ⟨_, _, write, hattempts, _, hsettled, hrecorded⟩ := hending
  exact ⟨write, hattempts, hsettled, hrecorded⟩

/-- The sink is closed after the last slot was given back. -/
theorem ShuttingDown.ended_of_sinkCloseCalls (h : ShuttingDown s)
    (hreach : (SecureRuntime.machine setup.rt δ).Reachable s.runtime)
    (hsink : 0 < s.runtime.audit.sinkCloseCalls) :
    ∀ (x : Nat) e, s.exchanges[x]? = some e → e.holds = false := by
  have hcloses := AuditDispatcher.closes_of_sinkCloseCalls (SecureRuntime.audit_reachable hreach) hsink
  exact h.ended (h.runtime (h.audit hcloses))

/-- What the promise of `HttpHandle.close` has resolved to. -/
def returned (s : HttpServer δ) : Option Nat :=
  match s.shutdown, s.runtime.closing with
  | some .awaitingRuntime, some (.resolved remaining) => some remaining
  | _, _ => none

theorem resolved_of_returned {n : Nat} (h : s.returned = some n) :
    s.runtime.closing = some (.resolved n) := by
  unfold returned at h
  split at h
  · next hclosing => rw [hclosing, Option.some.inj h]
  · exact absurd h (by simp)

/-- Every run in which only `HttpHandle.close` closes the runtime, whatever the requests and the tools
    do meanwhile: once `close` was called, no request is admitted and no handler is entered; where the
    sink is closed, every request that was admitted has made its terminal record and the record has
    settled; where the disposers run, among them the one that closes the document root, no operation is
    active, and none is later on; and `close` resolves to at least the number of the operations that
    were still active when the drain of the controller had ended. -/
theorem shutdown_order (setup : HttpSetup) (s : HttpServer δ)
    (h : (machine setup δ).ReachableIn (fun _ l => closedByHandle l = true) s) :
    (s.shutdown.isSome = true → ∀ s', (machine setup δ).LeadsIn (fun _ l => closedByHandle l = true) s s' →
      (∀ x, s'.hasAdmitted x = s.hasAdmitted x) ∧
      ∀ i, s'.runtime.enteredAt i = s.runtime.enteredAt i) ∧
    (0 < s.runtime.audit.sinkCloseCalls → s.requests = 0 ∧
      ∀ (x : Nat) e trace, s.exchanges[x]? = some e → e.trace = some trace →
        TerminalSettled s.runtime trace) ∧
    (s.runtime.closing = some .disposing →
      ∀ s', (machine setup δ).LeadsIn (fun _ l => closedByHandle l = true) s s' →
        s'.runtime.execution.active = []) ∧
    (∀ drain k, s.runtime.execution.shutdown = some drain → drain.phase = .resolved k →
      ∀ s' n, (machine setup δ).LeadsIn (fun _ l => closedByHandle l = true) s s' →
        s'.returned = some n → s.runtime.execution.active.length ≤ n) := by
  have hshutting := ShuttingDown.of_reachableIn h
  have hreach := runtime_reachable h.reachable
  refine ⟨fun hcalled s' hlead => ⟨?_, ?_⟩, fun hsink => ⟨?_, ?_⟩, fun hdisposing s' hlead => ?_,
    fun drain k hshutdown hphase s' n hlead hreturned => ?_⟩
  · exact hasAdmitted_of_leads (hshutting.closing.trans hcalled) hlead.leads
  · exact SecureRuntime.enteredAt_of_closing hreach (hshutting.execution hcalled)
      (runtime_leads_of_leads hlead.leads)
  · have hended := hshutting.ended_of_sinkCloseCalls hreach hsink
    rw [(Counters.of_reachable h.reachable).requests]
    exact Table.countP_eq_zero_of_forall hended
  · intro x e trace hx htrace
    have hended := hshutting.ended_of_sinkCloseCalls hreach hsink x e hx
    rw [holds_of_trace htrace] at hended
    exact ((Rows.of_reachable h.reachable).1 x e trace hx htrace).terminalSettled (by simpa using hended)
  · exact SecureRuntime.active_of_disposing hreach hdisposing (runtime_leads_of_leads hlead.leads)
  · exact SecureRuntime.active_le_of_resolved hreach hshutdown hphase
      (runtime_leads_of_leads hlead.leads) (resolved_of_returned hreturned)

/-- A tool call that ignores its abort, up to the end of the grace. -/
def stubbornTool : List (Label String) :=
  [.listen notesRequest, .verified 0 (some SecureRuntime.notesCall.principal) noteId,
    .runtime (.audit (.callSink 0 .returned)), .runtime (.audit (.resume 0)), .received 0, .fetch 0,
    .text 0 (some false), .invoke 0 (js "notes") SecureRuntime.notesArgs none none noteId,
    .runtime (.start 0), .runtime (.validated 0 (.success "a")),
    .runtime (.audit (.callSink 1 .returned)), .runtime (.audit (.resume 1)),
    .runtime (.admitted 0), .close, .close, .runtime (.execution .drainExpire),
    .runtime (.execution .drainResume)]

/-- The rest of the shutdown, up to the result of `close`. -/
def closedDown : List (Label String) :=
  [.runtime (.execution (.closeReturn 0)), .closeNext true, .runtime (.answered 0),
    .runtime (.audit (.callSink 2 .returned)), .runtime (.audit (.resume 2)), .runtime (.concluded 0),
    .closeNext true, .destroy 0, .closed 0, .adapted 0 false, .terminal 0, .terminal 0,
    .closeNext true, .runtime (.audit (.callSink 3 .returned)), .runtime (.audit (.resume 3)),
    .terminal 0, .closeNext true, .runtime (.execution (.closeReturn 1)), .runtime .closeExecution,
    .runtime (.audit (.drain 0)), .runtime (.audit (.closeResume 0)),
    .runtime (.audit (.callSinkClose .returned)), .runtime (.audit .resumeSinkClose),
    .runtime (.audit (.closeReturn 0)), .runtime .closeAudit]

theorem shutdown_order_stubbornTool :
    ∃ s s', (machine notesServer String).execIn (fun _ l => closedByHandle l)
        (machine notesServer String).init stubbornTool = some s ∧
      (machine notesServer String).execIn (fun _ l => closedByHandle l) s closedDown = some s' ∧
      s.runtime.execution.active = [0] ∧ s.requests = 1 ∧ s'.runtime.audit.sinkCloseCalls = 1 ∧
      s'.returned = some 1 ∧ s'.hasAdmitted 1 = s.hasAdmitted 1 ∧ s'.requests = 0 ∧
      s.runtime.execution.active.length ≤ 1 := by
  have hrun : ∃ s s' drain, (machine notesServer String).execIn (fun _ l => closedByHandle l)
        (machine notesServer String).init stubbornTool = some s ∧
      (machine notesServer String).execIn (fun _ l => closedByHandle l) s closedDown = some s' ∧
      s.shutdown.isSome = true ∧ s.runtime.execution.shutdown = some drain ∧
      drain.phase = .resolved 1 ∧ s.runtime.execution.active = [0] ∧ s.requests = 1 ∧
      s'.runtime.audit.sinkCloseCalls = 1 ∧ s'.returned = some 1 :=
    ⟨_, _, _, rfl, rfl, rfl, rfl, rfl, rfl, rfl, rfl, rfl⟩
  obtain ⟨s, s', drain, hexec, hexec', hcalled, hshutdown, hphase, hactive, hrequests, hsink, hreturned⟩ :=
    hrun
  have hreach := Machine.leadsIn_of_execIn hexec
  have hlead := Machine.leadsIn_of_execIn hexec'
  obtain ⟨hquiet, _, _, hcount⟩ := shutdown_order notesServer s hreach
  obtain ⟨_, hsettled, _⟩ := shutdown_order notesServer s' (hreach.trans hlead)
  exact ⟨s, s', hexec, hexec', hactive, hrequests, hsink, hreturned, (hquiet hcalled s' hlead).1 1,
    (hsettled (by rw [hsink]; exact Nat.one_pos)).1, hcount drain 1 hshutdown hphase s' 1 hlead hreturned⟩

end HttpServer

end SecureMcp
