import SecureMcp.Http.Steps

set_option autoImplicit false

/-! # The life of an HTTP exchange

Two counters, a mutable terminal label and an audit scope have to agree on every order of events. The
counters are counts of rows (`Counters`); everything else is an invariant of one row (`Lifecycle`),
together with the origin of every write made in its scope (`Scoped`). -/

namespace SecureMcp

variable {δ : Type}

/-- A verification is in flight. -/
def HttpExchange.isVerifying (e : HttpExchange) : Bool :=
  match e.phase with
  | .verifying => true
  | _ => false

/-- Admitted, and its terminal attempt has not settled: it holds a slot. -/
def HttpExchange.holds (e : HttpExchange) : Bool :=
  match e.trace with
  | some trace => trace.ending != .done
  | none => false

namespace HttpServer

/-- This write is a record of this request with this outcome. -/
def Recorded (r : SecureRuntime δ) (trace : Trace) (write : Nat) (scope : Option Nat)
    (outcome : Outcome) (status : Nat) : Prop :=
  ∃ w time durationMs, r.audit.writes[write]? = some w ∧ w.scope = scope ∧
    w.event = { trace.event with time, outcome, status := some status, durationMs }

/-- Why a response has the head it has. -/
def Headed (e : HttpExchange) (trace : Trace) (head : Head) : Prop :=
  e.response.statusCode = head.status ∧
    match head with
    | .handler status => ∃ write, trace.fetch = .passed write status
    | .failure status => status = 500 ∨ status = 503
    | .adapter _ => True

/-- What the terminal label says. -/
def Labelled (trace : Trace) : Prop :=
  match trace.terminal with
  | .completed => trace.timedOut = false ∧ trace.caught = false ∧ trace.finishedAtClose ≠ some false
  | .disconnected => trace.finishedAtClose = some false
  | .request_timeout => trace.timedOut = true
  | .failure .internal | .failure .audit_unavailable => trace.caught = true
  | _ => False

/-- How far `terminal` has come. -/
def Ending (r : SecureRuntime δ) (e : HttpExchange) (trace : Trace) : Prop :=
  match trace.ending with
  | .awaitingClose => trace.attempts = []
  | .awaitingDelivery => trace.attempts = [] ∧ e.response.closed = true
  | .settling _ => trace.attempts = [] ∧ e.response.closed = true ∧ trace.delivery = .settled
  | .writing write => trace.attempts = [write] ∧ e.response.closed = true ∧
      trace.delivery = .settled ∧ trace.received < write ∧
      ∃ outcome status, Recorded r trace write none outcome status
  | .done => e.response.closed = true ∧ trace.delivery = .settled ∧ ∃ write,
      trace.attempts = [write] ∧ trace.received < write ∧ r.Settled write ∧
      ∃ outcome status, Recorded r trace write none outcome status

structure Lifecycle (r : SecureRuntime δ) (x : Nat) (e : HttpExchange) (trace : Trace) : Prop where
  received : ∃ w, r.audit.writes[trace.received]? = some w ∧ w.scope = some x ∧
    w.event = trace.event
  event : trace.event.kind = some .http ∧ trace.event.outcome = .received
  receiving : ∀ write, trace.delivery = .receiving write →
    write = trace.received ∧ trace.fetch = .idle ∧ trace.dispatched = false
  response : ∀ write status,
    (trace.fetch = .recording write status ∨ trace.fetch = .passed write status) →
      Recorded r trace write (some x) .response status
  passed : ∀ write status, trace.fetch = .passed write status → r.Delivered write .fulfilled
  failed : ∀ status, trace.fetch = .failed status → status = 500 ∨ status = 503
  head : ∀ head, trace.head = some head → Headed e trace head
  headed : e.response.headersSent = trace.head.isSome
  finishedAtClose : trace.finishedAtClose.isSome = e.response.closed
  labelled : Labelled trace
  ending : Ending r e trace

/-- The counters are the numbers of the rows they count. -/
structure Counters (setup : HttpSetup) (s : HttpServer δ) : Prop where
  authenticating : s.authenticating = s.exchanges.countP HttpExchange.isVerifying
  authenticating_le : s.authenticating ≤ setup.rt.config.limits.maxConcurrent
  requests : s.requests = s.exchanges.countP HttpExchange.holds
  requests_le : s.requests ≤ setup.requestCapacity

variable {setup : HttpSetup} {s s' : HttpServer δ} {l : Label δ}

/-! ## The runtime -/

theorem write_leads (event : AuditEvent) (scope : Option Nat) :
    (SecureRuntime.machine setup.rt δ).Leads s.runtime (s.write event scope).runtime :=
  Machine.Leads.single (l := .audit (.write event scope)) rfl

/-- A step of the server is at most one step of the runtime. -/
theorem Effect.runtime_leads (he : Effect setup s l s') :
    (SecureRuntime.machine setup.rt δ).Leads s.runtime s'.runtime := by
  cases he with
  | admitted | responding | attempted | observed => exact write_leads _ _
  | invoked x e trace call runtime hx htrace hdispatched hscope hstep =>
      exact Machine.Leads.single (l := .invoke call) hstep
  | closing runtime closing shutdown hruntime =>
      rcases hruntime with rfl | ⟨label, _, hstep⟩
      · exact Machine.Leads.refl _
      · exact Machine.Leads.single (l := label) hstep
  | runtime label runtime hlabel hforeign hstep => exact Machine.Leads.single (l := label) hstep
  | _ => exact Machine.Leads.refl _

theorem runtime_reachable (h : (machine setup δ).Reachable s) :
    (SecureRuntime.machine setup.rt δ).Reachable s.runtime :=
  h.invariant (I := fun s => (SecureRuntime.machine setup.rt δ).Reachable s.runtime)
    Machine.reachable_init (fun _ _ _ _ hs hstep => hs.trans (step_effect hstep).runtime_leads)

theorem Effect.writesKept (he : Effect setup s l s') :
    SecureRuntime.WritesKept s.runtime s'.runtime :=
  SecureRuntime.writesKept_of_leads he.runtime_leads

/-! ## The counters -/

theorem isVerifying_of_trace {e : HttpExchange} {trace : Trace} (h : e.trace = some trace) :
    e.isVerifying = false := by
  rw [HttpExchange.isVerifying, admitted_of_trace h]

theorem trace_of_verifying {e : HttpExchange} (h : e.phase = .verifying) : e.trace = none := by
  rw [HttpExchange.trace, h]

/-- No step of the threads gives up a slot but the last one. -/
theorem Moves.ending {e : HttpExchange} {trace trace' : Trace} {response : HttpResponse}
    (h : Moves s e trace response trace') :
    trace'.ending = .done ↔ trace.ending = .done := by
  cases h with
  | awaiting hending => simp [hending]
  | settling snapshot hready =>
      rcases hready with ⟨hending, _⟩ | ⟨snapshot, hending⟩
      · simp [hending]
      · simp [hending]
  | _ => exact Iff.rfl

theorem holds_of_trace {e : HttpExchange} {trace : Trace} (h : e.trace = some trace) :
    e.holds = (trace.ending != .done) := by
  rw [HttpExchange.holds, h]

/-- A row that neither leaves its verification nor gives up its slot. -/
theorem Counters.update (h : Counters setup s) {x : Nat} {e b : HttpExchange}
    (hx : s.exchanges[x]? = some e) (hverifying : b.isVerifying = e.isVerifying)
    (hholds : b.holds = e.holds) : Counters setup (s.setExchange x b) := by
  refine ⟨?_, h.authenticating_le, ?_, h.requests_le⟩
  · show s.authenticating = (s.exchanges.set x b).countP HttpExchange.isVerifying
    rw [Table.countP_set_of_eq hx hverifying]
    exact h.authenticating
  · show s.requests = (s.exchanges.set x b).countP HttpExchange.holds
    rw [Table.countP_set_of_eq hx hholds]
    exact h.requests

theorem Counters.write (h : Counters setup s) (event : AuditEvent) (scope : Option Nat) :
    Counters setup (s.write event scope) :=
  ⟨h.authenticating, h.authenticating_le, h.requests, h.requests_le⟩

/-- An admitted request that does not give up its slot. -/
theorem Counters.thread (h : Counters setup s) {x : Nat} {e : HttpExchange} {trace : Trace}
    (hx : s.exchanges[x]? = some e) (htrace : e.trace = some trace) (response : HttpResponse)
    (trace' : Trace) (hending : trace'.ending = .done ↔ trace.ending = .done) :
    Counters setup (s.setExchange x { e with response, phase := .admitted trace' }) := by
  refine h.update hx (by rw [isVerifying_of_trace htrace]; rfl) ?_
  rw [holds_of_trace htrace]
  show (trace'.ending != .done) = (trace.ending != .done)
  by_cases hdone : trace.ending = .done
  · rw [hending.mpr hdone, hdone]
  · rw [bne_iff_ne.mpr hdone, bne_iff_ne.mpr (fun hd => hdone (hending.mp hd))]

/-- The verification of a row ends, and the row takes a slot or not. -/
theorem Counters.verified (h : Counters setup s) {x : Nat} {e b : HttpExchange}
    (hx : s.exchanges[x]? = some e) (hphase : e.phase = .verifying) (hdone : b.isVerifying = false) :
    s.authenticating - 1 = (s.exchanges.set x b).countP HttpExchange.isVerifying ∧
      (s.exchanges.set x b).countP HttpExchange.holds = s.requests + if b.holds then 1 else 0 := by
  have hverifying : e.isVerifying = true := by rw [HttpExchange.isVerifying, hphase]
  have hholds : e.holds = false := by rw [HttpExchange.holds, trace_of_verifying hphase]
  have hcount := Table.countP_set (a := b) (p := HttpExchange.isVerifying) hx
  have hslots := Table.countP_set (a := b) (p := HttpExchange.holds) hx
  rw [hverifying, hdone] at hcount
  rw [hholds] at hslots
  rw [h.authenticating, h.requests]
  simp only [if_true, Bool.false_eq_true, if_false, Nat.add_zero] at hcount hslots
  exact ⟨by omega, hslots⟩

theorem Ready.not_done {trace : Trace} (h : Ready trace) : trace.ending ≠ .done := by
  rcases h with ⟨hending, _⟩ | ⟨snapshot, hending⟩
  · simp [hending]
  · simp [hending]

theorem Counters.effect (h : Counters setup s) (he : Effect setup s l s') : Counters setup s' := by
  cases he with
  | counted | closing | runtime =>
      exact ⟨h.authenticating, h.authenticating_le, h.requests, h.requests_le⟩
  | listened request endpoint hbound =>
      refine ⟨?_, hbound, ?_, h.requests_le⟩
      · rw [Table.countP_append_one, h.authenticating]
        rfl
      · rw [Table.countP_append_one, h.requests]
        rfl
  | refused x e response reason counters hx hphase =>
      have hverified := h.verified (b := { e with response, phase := .refused reason }) hx hphase rfl
      exact ⟨hverified.1, Nat.le_trans (Nat.sub_le _ _) h.authenticating_le, hverified.2.symm,
        h.requests_le⟩
  | admitted x e principal uuid hx hphase hdestroyed hopen hhealthy hcapacity =>
      have hverified := h.verified
        (b := { e with phase := .admitted (s.newTrace setup e principal uuid) }) hx hphase rfl
      exact ⟨hverified.1, Nat.le_trans (Nat.sub_le _ _) h.authenticating_le, hverified.2.symm,
        hcapacity⟩
  | untraced x e response hx htrace => exact h.update hx rfl rfl
  | moved x e trace trace' response hx htrace hmoves => exact h.thread hx htrace _ _ hmoves.ending
  | responding x e trace status hx htrace => exact (h.write _ _).thread hx htrace _ _ Iff.rfl
  | attempted x e trace hx htrace hready =>
      exact (h.write _ _).thread hx htrace _ _
        ⟨fun hdone => absurd hdone (by simp), fun hdone => absurd hdone hready.not_done⟩
  | released x e trace write hx htrace hending =>
      have hholds : e.holds = true := by
        rw [holds_of_trace htrace, hending]
        rfl
      have hverifying : ∀ b : HttpExchange, b = { e with phase := .admitted { trace with
          ending := .done } } → b.isVerifying = e.isVerifying := by
        intro b hb
        rw [isVerifying_of_trace htrace, hb]
        rfl
      have hslots := Table.countP_set (p := HttpExchange.holds)
        (a := { e with phase := .admitted { trace with ending := .done } }) hx
      rw [hholds, ← h.requests] at hslots
      have hdone : ({ e with phase := .admitted { trace with ending := .done } } :
          HttpExchange).holds = false := rfl
      simp only [hdone, if_true, Bool.false_eq_true, if_false, Nat.add_zero] at hslots
      refine ⟨h.authenticating.trans (Table.countP_set_of_eq hx (hverifying _ rfl)).symm,
        h.authenticating_le, ?_, Nat.le_trans (Nat.sub_le _ _) h.requests_le⟩
      show s.requests - 1 = (s.exchanges.set x _).countP HttpExchange.holds
      omega
  | invoked x e trace call runtime hx htrace =>
      have hruntime : Counters setup { s with runtime } :=
        ⟨h.authenticating, h.authenticating_le, h.requests, h.requests_le⟩
      exact hruntime.thread hx htrace _ _ Iff.rfl
  | observed x e trace event hx htrace => exact (h.write _ _).thread hx htrace _ _ Iff.rfl

theorem Counters.of_reachable (h : (machine setup δ).Reachable s) : Counters setup s :=
  h.invariant (I := Counters setup)
    ⟨rfl, Nat.zero_le _, rfl, Nat.zero_le _⟩
    (fun _ _ _ _ hs hstep => hs.effect (step_effect hstep))

/-! ## Rows that do not move -/

theorem Recorded.kept {r r' : SecureRuntime δ} {trace : Trace} {write status : Nat}
    {scope : Option Nat} {outcome : Outcome} (h : Recorded r trace write scope outcome status)
    (hkept : SecureRuntime.WritesKept r r') : Recorded r' trace write scope outcome status := by
  obtain ⟨w, time, durationMs, hw, hscope, hevent⟩ := h
  obtain ⟨w', hw', hev⟩ := hkept write w hw
  exact ⟨w', time, durationMs, hw', hev.scope.trans hscope, hev.event.trans hevent⟩

theorem Ending.kept {r r' : SecureRuntime δ} {e : HttpExchange} {trace : Trace}
    (h : Ending r e trace) (hkept : SecureRuntime.WritesKept r r') : Ending r' e trace := by
  unfold Ending at h ⊢
  cases hending : trace.ending with
  | writing write =>
      simp only [hending] at h ⊢
      obtain ⟨hattempts, hclosed, hdelivery, hlt, outcome, status, hrecorded⟩ := h
      exact ⟨hattempts, hclosed, hdelivery, hlt, outcome, status, hrecorded.kept hkept⟩
  | done =>
      simp only [hending] at h ⊢
      obtain ⟨hclosed, hdelivery, write, hattempts, hlt, hsettled, outcome, status, hrecorded⟩ := h
      exact ⟨hclosed, hdelivery, write, hattempts, hlt, hsettled.kept hkept, outcome, status,
        hrecorded.kept hkept⟩
  | _ =>
      simp only [hending] at h ⊢
      exact h

/-- A row keeps its place in `terminal` as long as nothing it rests on is taken back. -/
theorem Ending.update {r : SecureRuntime δ} {e e' : HttpExchange} {trace trace' : Trace}
    (h : Ending r e trace) (hending : trace'.ending = trace.ending)
    (hattempts : trace'.attempts = trace.attempts) (hreceived : trace'.received = trace.received)
    (hevent : trace'.event = trace.event)
    (hclosed : e.response.closed = true → e'.response.closed = true)
    (hdelivery : trace.delivery = .settled → trace'.delivery = .settled) : Ending r e' trace' := by
  have hrecorded : ∀ write, (∃ outcome status, Recorded r trace write none outcome status) →
      ∃ outcome status, Recorded r trace' write none outcome status := by
    rintro write ⟨outcome, status, w, time, durationMs, hw, hscope, heq⟩
    exact ⟨outcome, status, w, time, durationMs, hw, hscope, by rw [hevent]; exact heq⟩
  unfold Ending at h ⊢
  rw [hending, hattempts, hreceived]
  cases hphase : trace.ending with
  | awaitingClose =>
      simp only [hphase] at h ⊢
      exact h
  | awaitingDelivery =>
      simp only [hphase] at h ⊢
      exact ⟨h.1, hclosed h.2⟩
  | settling snapshot =>
      simp only [hphase] at h ⊢
      exact ⟨h.1, hclosed h.2.1, hdelivery h.2.2⟩
  | writing write =>
      simp only [hphase] at h ⊢
      obtain ⟨hone, hc, hd, hlt, hrec⟩ := h
      exact ⟨hone, hclosed hc, hdelivery hd, hlt, hrecorded write hrec⟩
  | done =>
      simp only [hphase] at h ⊢
      obtain ⟨hc, hd, write, hone, hlt, hsettled, hrec⟩ := h
      exact ⟨hclosed hc, hdelivery hd, write, hone, hlt, hsettled, hrecorded write hrec⟩

theorem Lifecycle.kept {r r' : SecureRuntime δ} {x : Nat} {e : HttpExchange} {trace : Trace}
    (h : Lifecycle r x e trace) (hkept : SecureRuntime.WritesKept r r') :
    Lifecycle r' x e trace := by
  refine { h with
    received := ?_
    response := fun write status hfetch => (h.response write status hfetch).kept hkept
    passed := fun write status hfetch => (h.passed write status hfetch).kept hkept rfl
    ending := h.ending.kept hkept }
  obtain ⟨w, hw, hscope, hevent⟩ := h.received
  obtain ⟨w', hw', hev⟩ := hkept _ w hw
  exact ⟨w', hw', hev.scope.trans hscope, hev.event.trans hevent⟩

/-! ## Rows that move -/

theorem failureStatus_cases (s : HttpServer δ) : s.failureStatus = 500 ∨ s.failureStatus = 503 := by
  unfold failureStatus
  by_cases hhealthy : s.runtime.audit.healthy = true
  · exact Or.inl (if_pos hhealthy)
  · exact Or.inr (if_neg hhealthy)

/-- A `catch` block has run. -/
theorem labelled_failure {trace : Trace} (s : HttpServer δ) (hterminal : trace.terminal = s.failureOutcome)
    (hcaught : trace.caught = true) : Labelled trace := by
  unfold Labelled
  rw [hterminal, failureOutcome]
  by_cases hhealthy : s.runtime.audit.healthy = true
  · rw [if_pos hhealthy]
    exact hcaught
  · rw [if_neg hhealthy]
    exact hcaught

/-- The label at the `close` event. -/
theorem labelled_closed {trace : Trace} {finished : Bool} (h : Labelled trace)
    (hopen : trace.finishedAtClose.isSome = false) :
    Labelled { trace with
      timer := false
      terminal := if !finished && trace.terminal == .completed then .disconnected
        else trace.terminal
      finishedAtClose := some finished } := by
  cases hterminal : trace.terminal with
  | completed =>
      cases finished with
      | false => simp [Labelled]
      | true =>
          simp only [Labelled, hterminal] at h
          simp [Labelled, h.1, h.2.1]
  | disconnected =>
      simp only [Labelled, hterminal] at h
      rw [h] at hopen
      exact absurd hopen (by simp)
  | request_timeout =>
      simp only [Labelled, hterminal] at h
      simp [Labelled, h]
  | failure code =>
      cases code with
      | internal | audit_unavailable =>
          simp only [Labelled, hterminal] at h
          simp [Labelled, h]
      | _ => simp [Labelled, hterminal] at h
  | _ => simp [Labelled, hterminal] at h

/-- What the adapter sends is what `fetch` returned, or its own. -/
theorem nextHead_cases {own : Option Nat} {fetch : FetchPhase} {head : Head}
    (h : nextHead own fetch = some head) :
    (∃ status, head = .adapter status) ∨ (∃ write status, fetch = .passed write status ∧
      head = .handler status) ∨ ∃ status, fetch = .failed status ∧ head = .failure status := by
  cases own with
  | some status => exact Or.inl ⟨status, (Option.some.inj h).symm⟩
  | none =>
      cases fetch with
      | passed write status => exact Or.inr (Or.inl ⟨write, status, rfl, (Option.some.inj h).symm⟩)
      | failed status => exact Or.inr (Or.inr ⟨status, rfl, (Option.some.inj h).symm⟩)
      | _ => exact absurd h (by simp [nextHead])

/-- A head stands while `fetch` goes on: only a response that was passed on can be its source. -/
theorem Headed.fetch {e : HttpExchange} {trace : Trace} {head : Head} (h : Headed e trace head)
    (fetch : FetchPhase) (hopen : ∀ write status, trace.fetch ≠ .passed write status) :
    Headed e { trace with fetch } head := by
  obtain ⟨hstatus, hhead⟩ := h
  cases head with
  | handler status =>
      obtain ⟨write, hpassed⟩ := hhead
      exact absurd hpassed (hopen write status)
  | failure status => exact ⟨hstatus, hhead⟩
  | adapter status => exact ⟨hstatus, trivial⟩

/-- `fetch` goes on without a response. -/
theorem Lifecycle.fetching {r : SecureRuntime δ} {x : Nat} {e : HttpExchange} {trace : Trace}
    (h : Lifecycle r x e trace) (fetch : FetchPhase) (dispatched : Bool)
    (hopen : ∀ write status, trace.fetch ≠ .passed write status)
    (hstarted : ∀ write, trace.delivery ≠ .receiving write)
    (hnew : fetch = .reading ∨ fetch = .handling) :
    Lifecycle r x { e with phase := .admitted { trace with fetch, dispatched } }
      { trace with fetch, dispatched } := by
  have hfetch : (∀ write status, fetch ≠ .recording write status) ∧
      (∀ write status, fetch ≠ .passed write status) ∧ ∀ status, fetch ≠ .failed status := by
    rcases hnew with rfl | rfl
    · simp
    · simp
  refine { h with
    receiving := fun write hd => absurd hd (hstarted write)
    response := fun write status hf => ?_
    passed := fun write status hf => absurd hf (hfetch.2.1 write status)
    failed := fun status hf => absurd hf (hfetch.2.2 status)
    head := fun head hhead => (h.head head hhead).fetch fetch hopen
    ending := h.ending.update rfl rfl rfl rfl id id }
  rcases hf with hf | hf
  · exact absurd hf (hfetch.1 write status)
  · exact absurd hf (hfetch.2.1 write status)

theorem Lifecycle.moves {x : Nat} {e : HttpExchange} {trace trace' : Trace} {response : HttpResponse}
    (h : Lifecycle s.runtime x e trace) (hm : Moves s e trace response trace') :
    Lifecycle s.runtime x { e with response, phase := .admitted trace' } trace' := by
  cases hm with
  | delivered write delivery hdelivery hwrite hnew =>
      refine { h with
        receiving := fun other hd => ?_
        ending := h.ending.update rfl rfl rfl rfl id (fun hd => ?_) }
      · rcases hnew with rfl | rfl <;> exact absurd hd (by simp)
      · rw [hdelivery] at hd
        exact absurd hd (by simp)
  | adapted hdelivery =>
      exact { h with
        receiving := fun other hd => absurd hd (by simp)
        ending := h.ending.update rfl rfl rfl rfl id (fun _ => rfl) }
  | caught hdelivery =>
      refine { h with
        receiving := fun other hd => absurd hd (by simp)
        head := fun head hhead => ?_
        headed := ?_
        labelled := labelled_failure s rfl rfl
        ending := h.ending.update rfl rfl rfl rfl id (fun _ => rfl) }
      · cases hold : trace.head with
        | some first =>
            have hsent : e.response.headersSent = true := by rw [h.headed, hold]; rfl
            obtain rfl : first = head := by simpa [hold] using hhead
            obtain ⟨hstatus, hsource⟩ := h.head first hold
            exact ⟨by simpa [hsent] using hstatus, hsource⟩
        | none =>
            have hunsent : e.response.headersSent = false := by rw [h.headed, hold]; rfl
            obtain rfl : Head.failure s.failureStatus = head := by
              simpa [hold, hunsent] using hhead
            exact ⟨by simp [hunsent, Head.status], failureStatus_cases s⟩
      · cases hold : trace.head with
        | some first => rfl
        | none =>
            have hunsent : e.response.headersSent = false := by rw [h.headed, hold]; rfl
            simp [hunsent]
  | reading hdelivery hfetch =>
      exact h.fetching .reading trace.dispatched (by simp [hfetch]) (by simp [hdelivery])
        (Or.inl rfl)
  | handling hfetch =>
      refine h.fetching .handling true (fun write status hp => ?_) (fun write hd => ?_) (Or.inr rfl)
      · rcases hfetch with hf | ⟨_, hf⟩
        · rw [hf] at hp
          exact absurd hp (by simp)
        · rw [hf] at hp
          exact absurd hp (by simp)
      · rcases hfetch with hf | ⟨ha, _⟩
        · rw [(h.receiving write hd).2.1] at hf
          exact absurd hf (by simp)
        · rw [ha] at hd
          exact absurd hd (by simp)
  | fetchFailed hfetch =>
      have hopen : ∀ write status, trace.fetch ≠ .passed write status := by
        intro write status hp
        rcases hfetch with hf | hf | ⟨_, _, hf, _⟩ <;> exact absurd (hf.symm.trans hp) (by simp)
      have hbusy : trace.fetch ≠ .idle := by
        intro hp
        rcases hfetch with hf | hf | ⟨_, _, hf, _⟩ <;> exact absurd (hf.symm.trans hp) (by simp)
      refine { h with
        receiving := fun write hd => absurd (h.receiving write hd).2.1 hbusy
        response := fun write status hf => ?_
        passed := fun write status hf => absurd hf (by simp)
        failed := fun status hf => ?_
        head := fun head hhead => (h.head head hhead).fetch _ hopen
        labelled := labelled_failure s rfl rfl
        ending := h.ending.update rfl rfl rfl rfl id id }
      · rcases hf with hf | hf <;> exact absurd hf (by simp)
      · obtain rfl := FetchPhase.failed.inj hf
        exact failureStatus_cases s
  | passed write status hfetch hwrite =>
      have hopen : ∀ other status, trace.fetch ≠ .passed other status := by simp [hfetch]
      refine { h with
        receiving := fun other hd => ?_
        response := fun other status' hf => ?_
        passed := fun other status' hf => ?_
        failed := fun status hf => absurd hf (by simp)
        head := fun head hhead => (h.head head hhead).fetch _ hopen
        ending := h.ending.update rfl rfl rfl rfl id id }
      · have hidle := (h.receiving other hd).2.1
        rw [hfetch] at hidle
        exact absurd hidle (by simp)
      · rcases hf with hf | hf
        · exact absurd hf (by simp)
        · obtain ⟨rfl, rfl⟩ := FetchPhase.passed.inj hf
          exact h.response write status (Or.inl hfetch)
      · obtain ⟨rfl, rfl⟩ := FetchPhase.passed.inj hf
        exact hwrite
  | head own head hdelivery hnone hhead =>
      refine { h with
        head := fun other hother => ?_
        headed := rfl
        ending := h.ending.update rfl rfl rfl rfl id id }
      obtain rfl := Option.some.inj hother
      refine ⟨rfl, ?_⟩
      rcases nextHead_cases hhead with ⟨status, rfl⟩ | ⟨write, status, hfetch, rfl⟩ |
        ⟨status, hfetch, rfl⟩
      · trivial
      · exact ⟨write, hfetch⟩
      · exact h.failed status hfetch
  | ended hdelivery => exact { h with ending := h.ending.update rfl rfl rfl rfl id id }
  | finished hopen => exact { h with ending := h.ending.update rfl rfl rfl rfl id id }
  | destroyed => exact { h with ending := h.ending.update rfl rfl rfl rfl id id }
  | closed hopen =>
      exact { h with
        finishedAtClose := rfl
        labelled := labelled_closed h.labelled (by rw [h.finishedAtClose]; exact hopen)
        ending := h.ending.update rfl rfl rfl rfl (fun _ => rfl) id }
  | expired htimer =>
      exact { h with
        labelled := rfl
        ending := h.ending.update rfl rfl rfl rfl id id }
  | awaiting hending hclosed =>
      have hnone := h.ending
      unfold Ending at hnone
      rw [hending] at hnone
      exact { h with ending := ⟨hnone, hclosed⟩ }
  | settling snapshot hready =>
      have hnone := h.ending
      unfold Ending at hnone
      rcases hready with ⟨hending, hdelivery⟩ | ⟨old, hending⟩
      · rw [hending] at hnone
        exact { h with ending := ⟨hnone.1, hnone.2, hdelivery⟩ }
      · rw [hending] at hnone
        exact { h with ending := hnone }

/-! ## Rows that write -/

/-- A new write is the last row of the dispatcher. -/
theorem write_last (s : HttpServer δ) (event : AuditEvent) (scope : Option Nat) :
    ∃ w, (s.write event scope).runtime.audit.writes = s.runtime.audit.writes ++ [w] ∧
      (s.write event scope).runtime.audit.writes[s.nextWrite]? = some w ∧ w.event = event ∧
      w.scope = scope := by
  obtain ⟨w, hwrites, hevent, hscope, _⟩ :=
    AuditDispatcher.write_row s.runtime.audit event scope
  refine ⟨w, hwrites, ?_, hevent, hscope⟩
  show (s.runtime.audit.write event scope).writes[s.runtime.audit.writes.length]? = some w
  rw [hwrites]
  exact List.getElem?_concat_length

theorem write_recorded (s : HttpServer δ) (trace : Trace) (scope : Option Nat) (outcome : Outcome)
    (status : Nat) : Recorded (s.write (s.traceEvent trace outcome status) scope).runtime trace
      s.nextWrite scope outcome status := by
  obtain ⟨w, _, hw, hevent, hscope⟩ := write_last s (s.traceEvent trace outcome status) scope
  exact ⟨w, _, _, hw, hscope, hevent⟩

theorem Lifecycle.received_lt {r : SecureRuntime δ} {x : Nat} {e : HttpExchange} {trace : Trace}
    (h : Lifecycle r x e trace) : trace.received < r.audit.writes.length := by
  obtain ⟨w, hw, _⟩ := h.received
  exact Table.lt_of_getElem? hw

theorem Lifecycle.accept (s : HttpServer δ) (x : Nat) (e : HttpExchange) (principal : Principal)
    (uuid : JsString) (hresponse : e.response.headersSent = false ∧ e.response.closed = false) :
    Lifecycle (s.accept setup x e principal uuid).runtime x
      { e with phase := .admitted (s.newTrace setup e principal uuid) }
      (s.newTrace setup e principal uuid) := by
  obtain ⟨w, _, hw, hevent, hscope⟩ :=
    write_last { s with requests := s.requests + 1 } (s.receivedEvent setup e principal uuid) (some x)
  refine ⟨⟨w, hw, hscope, hevent⟩, ⟨rfl, rfl⟩, fun write hd => ?_, fun write status hf => ?_,
    fun write status hf => absurd hf (by simp [newTrace]),
    fun status hf => absurd hf (by simp [newTrace]),
    fun head hh => absurd hh (by simp [newTrace]), hresponse.1, hresponse.2.symm,
    ⟨rfl, rfl, by simp [newTrace]⟩, rfl⟩
  · exact ⟨(DeliveryPhase.receiving.inj hd).symm, rfl, rfl⟩
  · rcases hf with hf | hf <;> exact absurd hf (by simp [newTrace])

theorem Lifecycle.respond {x : Nat} {e : HttpExchange} {trace : Trace} {status : Nat}
    (h : Lifecycle s.runtime x e trace)
    (hfetch : (trace.delivery = .adapting ∧ trace.fetch = .idle) ∨ trace.fetch = .reading ∨
      trace.fetch = .handling) {trace' : Trace}
    (htrace' : trace' = { trace with
      fetch := .recording s.nextWrite status
      responses := trace.responses ++ [s.nextWrite] })
    (hkept : SecureRuntime.WritesKept s.runtime (s.respond x e trace status).runtime) :
    Lifecycle (s.respond x e trace status).runtime x { e with phase := .admitted trace' } trace' := by
  subst htrace'
  have hk := h.kept hkept
  have hopen : ∀ write status, trace.fetch ≠ .passed write status := by
    intro write status hp
    rcases hfetch with ⟨_, hf⟩ | hf | hf <;> exact absurd (hf.symm.trans hp) (by simp)
  refine { hk with
    receiving := fun write hd => ?_
    response := fun write status' hf => ?_
    passed := fun write status' hf => absurd hf (by simp)
    failed := fun status' hf => absurd hf (by simp)
    head := fun head hh => (h.head head hh).fetch _ hopen
    ending := hk.ending.update rfl rfl rfl rfl id id }
  · have hidle := (h.receiving write hd).2.1
    rcases hfetch with ⟨ha, _⟩ | hf | hf
    · exact absurd (ha.symm.trans hd) (by simp)
    · exact absurd (hf.symm.trans hidle) (by simp)
    · exact absurd (hf.symm.trans hidle) (by simp)
  · rcases hf with hf | hf
    · obtain ⟨rfl, rfl⟩ := FetchPhase.recording.inj hf
      exact write_recorded s trace (some x) .response status
    · exact absurd hf (by simp)

/-- When `terminal` comes to the loop of `scope.settle`, the response is closed. -/
theorem Lifecycle.ready {r : SecureRuntime δ} {x : Nat} {e : HttpExchange} {trace : Trace}
    (h : Lifecycle r x e trace) (hready : Ready trace) :
    trace.attempts = [] ∧ e.response.closed = true ∧ trace.delivery = .settled := by
  have hending := h.ending
  unfold Ending at hending
  rcases hready with ⟨hphase, hdelivery⟩ | ⟨snapshot, hphase⟩
  · rw [hphase] at hending
    exact ⟨hending.1, hending.2, hdelivery⟩
  · rw [hphase] at hending
    exact hending

/-- The terminal attempt. -/
theorem Lifecycle.attempt {x : Nat} {e : HttpExchange} {trace trace' : Trace}
    (h : Lifecycle s.runtime x e trace) (hready : Ready trace)
    (htrace' : trace' = { trace with
      ending := .writing s.nextWrite
      attempts := trace.attempts ++ [s.nextWrite] }) {r : SecureRuntime δ}
    (hr : r = (s.write (s.traceEvent trace trace.terminal e.response.statusCode) none).runtime)
    (hkept : SecureRuntime.WritesKept s.runtime r) :
    Lifecycle r x { e with phase := .admitted trace' } trace' := by
  subst htrace' hr
  have hk := h.kept hkept
  have hstart := h.ready hready
  refine { hk with
    receiving := fun write hd => ?_
    ending := ⟨?_, hstart.2.1, hstart.2.2, h.received_lt, trace.terminal, e.response.statusCode,
      write_recorded s trace none _ _⟩ }
  · exact absurd (hstart.2.2.symm.trans hd) (by simp)
  · show trace.attempts ++ [s.nextWrite] = [s.nextWrite]
    rw [hstart.1, List.nil_append]

theorem Lifecycle.release {r : SecureRuntime δ} {x write : Nat} {e : HttpExchange} {trace : Trace}
    (h : Lifecycle r x e trace) (hending : trace.ending = .writing write)
    (hsettled : r.Settled write) :
    Lifecycle r x { e with phase := .admitted { trace with ending := .done } }
      { trace with ending := .done } := by
  have hold := h.ending
  unfold Ending at hold
  rw [hending] at hold
  obtain ⟨hattempts, hclosed, hdelivery, hlt, hrecorded⟩ := hold
  exact { h with ending := ⟨hclosed, hdelivery, write, hattempts, hlt, hsettled, hrecorded⟩ }

/-! ## Every row, over every step -/

/-- Every admitted request. -/
def Rows (s : HttpServer δ) : Prop :=
  ∀ (x : Nat) e trace, s.exchanges[x]? = some e → e.trace = some trace →
    Lifecycle s.runtime x e trace

/-- The responses of the rows that are being verified are untouched. -/
def Fresh (s : HttpServer δ) : Prop :=
  ∀ (x : Nat) e, s.exchanges[x]? = some e → e.phase = .verifying → Untouched e.response

theorem Fresh.effect (h : Fresh s) (he : Effect setup s l s') : Fresh s' := by
  have hset : ∀ {x : Nat} {e' : HttpExchange}, (e'.phase = .verifying → Untouched e'.response) →
      ∀ (y : Nat) e, (s.exchanges.set x e')[y]? = some e → e.phase = .verifying →
        Untouched e.response := fun hnew => Table.forall_set h hnew
  cases he with
  | counted | closing | runtime => exact h
  | listened request endpoint hbound =>
      exact Table.forall_append h (fun _ => ⟨rfl, fun _ => rfl⟩)
  | untraced x e response hx htrace hkept => exact hset (fun hphase => hkept (h x e hx hphase))
  | _ => exact hset (fun hphase => absurd hphase (by simp))

theorem Rows.effect (h : Rows s) (hfresh : Fresh s) (he : Effect setup s l s') : Rows s' := by
  have hkept := he.writesKept
  have hold : ∀ (x : Nat) e, s.exchanges[x]? = some e → ∀ trace, e.trace = some trace →
      Lifecycle s'.runtime x e trace := fun x e hx trace htrace => (h x e trace hx htrace).kept hkept
  have hset : ∀ {x : Nat} {e' : HttpExchange},
      (∀ trace, e'.trace = some trace → Lifecycle s'.runtime x e' trace) →
      ∀ (y : Nat) e, (s.exchanges.set x e')[y]? = some e → ∀ trace, e.trace = some trace →
        Lifecycle s'.runtime y e trace := fun hnew => Table.forall_set hold hnew
  -- the row of a request whose threads go on
  have hthread : ∀ {x : Nat} {e' : HttpExchange} {trace' : Trace}, e'.trace = some trace' →
      Lifecycle s'.runtime x e' trace' →
      ∀ (y : Nat) e trace, (s.exchanges.set x e')[y]? = some e → e.trace = some trace →
        Lifecycle s'.runtime y e trace := by
    intro x e' trace' htrace' hnew y e trace hy
    refine hset (fun other hother => ?_) y e hy trace
    obtain rfl := Option.some.inj (htrace'.symm.trans hother)
    exact hnew
  cases he with
  | counted | closing | runtime => exact fun x e trace hx => hold x e hx trace
  | listened request endpoint hbound =>
      intro x e trace hx htrace
      rcases Table.getElem?_append_cases hx with hx | ⟨_, rfl⟩
      · exact hold x e hx trace htrace
      · exact absurd htrace (by simp [HttpExchange.trace])
  | refused x e response reason counters hx hphase =>
      exact fun y b trace hy => hset
        (fun other hother => absurd hother (by simp [HttpExchange.trace])) y b hy trace
  | admitted x e principal uuid hx hphase hdestroyed hopen hhealthy hcapacity =>
      obtain ⟨hheaders, hclosed⟩ := hfresh x e hx hphase
      exact hthread rfl (Lifecycle.accept _ x e principal uuid ⟨hheaders, hclosed hdestroyed⟩)
  | untraced x e response hx htrace hkeep =>
      refine fun y b trace hy => hset (fun other hother => ?_) y b hy trace
      exact absurd (htrace.symm.trans hother) (by simp)
  | moved x e trace trace' response hx htrace hmoves =>
      exact hthread rfl ((h x e trace hx htrace).moves hmoves)
  | responding x e trace status hx htrace hfetch =>
      exact hthread rfl ((h x e trace hx htrace).respond hfetch rfl hkept)
  | attempted x e trace hx htrace hready hsettled =>
      exact hthread rfl ((h x e trace hx htrace).attempt hready rfl rfl hkept)
  | released x e trace write hx htrace hending hsettled =>
      exact hthread rfl ((h x e trace hx htrace).release hending hsettled)
  | invoked x e trace call runtime hx htrace hdispatched =>
      have hk := hold x e hx trace htrace
      exact hthread rfl { hk with ending := hk.ending.update rfl rfl rfl rfl id id }
  | observed x e trace event hx htrace hdispatched =>
      have hk := hold x e hx trace htrace
      exact hthread rfl { hk with ending := hk.ending.update rfl rfl rfl rfl id id }

theorem Rows.of_reachable (h : (machine setup δ).Reachable s) : Rows s ∧ Fresh s := by
  refine h.invariant (I := fun s => Rows s ∧ Fresh s)
    ⟨by simp [Rows, machine], by simp [Fresh, machine]⟩ ?_
  rintro a l b _ ⟨hrows, hfresh⟩ hstep
  exact ⟨hrows.effect hfresh (step_effect hstep), hfresh.effect (step_effect hstep)⟩

end HttpServer

end SecureMcp
