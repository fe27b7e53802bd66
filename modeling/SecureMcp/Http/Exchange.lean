import SecureMcp.Http.Scope

set_option autoImplicit false

/-! # What holds of every HTTP exchange

The counters, the records and the response of each admitted request, in every reachable state and
over every step from one. -/

namespace SecureMcp

variable {δ : Type}

namespace HttpServer

variable {setup : HttpSetup} {s s' : HttpServer δ} {l : Label δ}

/-! ## Slots -/

/-- Admitted, and no terminal write of it has settled. -/
def isUnsettled (s : HttpServer δ) (e : HttpExchange) : Bool :=
  match e.trace with
  | some trace => trace.attempts.all (fun write => !s.hasSettled write)
  | none => false

/-- The terminal write has settled, and the `finally` that gives the slot back is still to run. -/
def isReleasing (s : HttpServer δ) (e : HttpExchange) : Bool :=
  match e.trace with
  | some trace =>
    match trace.ending with
    | .writing write => s.hasSettled write
    | _ => false
  | none => false

/-- A request holds its slot until its terminal write has settled, and no longer than it takes to
    give it back. -/
theorem Lifecycle.holds_iff {x : Nat} {e : HttpExchange} {trace : Trace}
    (h : Lifecycle s.runtime x e trace) (htrace : e.trace = some trace) :
    e.holds = (s.isUnsettled e || s.isReleasing e) ∧
      (s.isUnsettled e && s.isReleasing e) = false := by
  have hending := h.ending
  unfold Ending at hending
  simp only [HttpExchange.holds, isUnsettled, isReleasing, htrace]
  cases hphase : trace.ending with
  | awaitingClose =>
      simp only [hphase] at hending
      simp [hending]
  | awaitingDelivery | settling snapshot =>
      simp only [hphase] at hending
      simp [hending.1]
  | writing write =>
      simp only [hphase] at hending
      simp [hending.1]
  | done =>
      simp only [hphase] at hending
      obtain ⟨_, _, write, hattempts, _, hsettled, _⟩ := hending
      simp [hattempts, hasSettled_iff.mpr hsettled]

/-- `requests`, by the state of the terminal writes. -/
theorem Rows.countP_holds (h : Rows s) :
    s.exchanges.countP HttpExchange.holds =
      s.exchanges.countP s.isUnsettled + s.exchanges.countP s.isReleasing := by
  refine Table.countP_eq_add (fun e he => ?_)
  obtain ⟨x, hx⟩ := List.getElem?_of_mem he
  cases htrace : e.trace with
  | some trace => exact (h x e trace hx htrace).holds_iff htrace
  | none => simp [HttpExchange.holds, isUnsettled, isReleasing, htrace]

theorem releases {x write : Nat} {e : HttpExchange} {trace : Trace}
    (hx : s.exchanges[x]? = some e) (htrace : e.trace = some trace)
    (hending : trace.ending = .writing write) (hsettled : s.hasSettled write = true) :
    s.terminal x = some ({ s with requests := s.requests - 1 }.setExchange x
      { e with phase := .admitted { trace with ending := .done } }) := by
  simp [terminal, hx, htrace, hending, hsettled]

theorem unsettled_eq_nil {x : Nat} (h : s.unsettled x = []) (i : Nat) (w : Write AuditEvent)
    (hw : s.runtime.audit.writes[i]? = some w) (hscope : w.scope = some x) :
    w.delivery.settled = true := by
  rw [unsettled, List.filter_eq_nil_iff] at h
  have hi := h i (List.mem_range.mpr (Table.lt_of_getElem? hw))
  simpa [hw, hscope] using hi

/-! ## One exchange -/

/-- Where the head of a response can come from. -/
def HeadRecorded (s : HttpServer δ) (x : Nat) (e : HttpExchange) (trace : Trace) : Prop :=
  match trace.head with
  | none => e.response.headersSent = false
  | some (.handler status) => e.response.statusCode = status ∧ ∃ write,
      trace.fetch = .passed write status ∧ Recorded s.runtime trace write (some x) .response status ∧
      s.runtime.Delivered write .fulfilled
  | some (.failure status) => e.response.statusCode = status ∧ (status = 500 ∨ status = 503)
  | some (.adapter status) => e.response.statusCode = status

structure Exchange (s : HttpServer δ) (x : Nat) (e : HttpExchange) (trace : Trace) : Prop where
  /-- The `received` record. -/
  received : ∃ w, s.runtime.audit.writes[trace.received]? = some w ∧ w.scope = some x ∧
    w.event = trace.event ∧ w.event.kind = some .http ∧ w.event.outcome = .received
  /-- It is the first of its scope, and the only one of its kind. -/
  first : ∀ (i : Nat) w, s.runtime.audit.writes[i]? = some w → w.scope = some x →
    trace.received ≤ i ∧
      (w.event.kind = some .http → w.event.outcome = .received → i = trace.received)
  terminal : trace.attempts.length ≤ 1
  after : ∀ write ∈ trace.attempts, trace.received < write
  /-- The slot is kept until the terminal attempt has settled. -/
  slot : e.holds = false → ∃ write ∈ trace.attempts, s.runtime.Settled write
  /-- `fetch` passes on what was recorded, or the response of its `catch` block. -/
  passed : ∀ write status, trace.fetch = .passed write status →
    Recorded s.runtime trace write (some x) .response status ∧
      s.runtime.Delivered write .fulfilled
  failed : ∀ status, trace.fetch = .failed status → status = 500 ∨ status = 503
  head : HeadRecorded s x e trace

theorem Lifecycle.exchange {x : Nat} {e : HttpExchange} {trace : Trace}
    (h : Lifecycle s.runtime x e trace) (hscoped : Scoped s) (hx : s.exchanges[x]? = some e)
    (htrace : e.trace = some trace) : Exchange s x e trace := by
  have hpassed : ∀ write status, trace.fetch = .passed write status →
      Recorded s.runtime trace write (some x) .response status ∧
        s.runtime.Delivered write .fulfilled :=
    fun write status hf => ⟨h.response write status (Or.inr hf), h.passed write status hf⟩
  have hattempts : trace.attempts = [] ∨
      ∃ write, trace.attempts = [write] ∧ trace.received < write := by
    have hending := h.ending
    unfold Ending at hending
    cases hphase : trace.ending with
    | awaitingClose =>
        simp only [hphase] at hending
        exact Or.inl hending
    | awaitingDelivery | settling snapshot =>
        simp only [hphase] at hending
        exact Or.inl hending.1
    | writing write =>
        simp only [hphase] at hending
        exact Or.inr ⟨write, hending.1, hending.2.2.2.1⟩
    | done =>
        simp only [hphase] at hending
        obtain ⟨_, _, write, hone, hlt, _⟩ := hending
        exact Or.inr ⟨write, hone, hlt⟩
  refine
    { received := ?_
      first := fun i w hw hscope => ?_
      terminal := ?_
      after := fun write hmem => ?_
      slot := fun hfree => ?_
      passed := hpassed
      failed := h.failed
      head := ?_ }
  · obtain ⟨w, hw, hscope, hevent⟩ := h.received
    exact ⟨w, hw, hscope, hevent, by rw [hevent]; exact h.event.1, by rw [hevent]; exact h.event.2⟩
  · obtain ⟨b, other, hb, hother, hrest⟩ := hscoped.writes i w x hw hscope
    obtain rfl := Option.some.inj (hx.symm.trans hb)
    obtain rfl := Option.some.inj (htrace.symm.trans hother)
    exact hrest
  · rcases hattempts with hnone | ⟨write, hone, _⟩
    · simp [hnone]
    · simp [hone]
  · rcases hattempts with hnone | ⟨first, hone, hlt⟩
    · simp [hnone] at hmem
    · rw [hone, List.mem_singleton] at hmem
      exact hmem ▸ hlt
  · have hdone : trace.ending = .done := by simpa [holds_of_trace htrace] using hfree
    have hending := h.ending
    unfold Ending at hending
    simp only [hdone] at hending
    obtain ⟨_, _, write, hone, _, hsettled, _⟩ := hending
    exact ⟨write, by simp [hone], hsettled⟩
  · unfold HeadRecorded
    cases hhead : trace.head with
    | none =>
        have hheaded := h.headed
        rw [hhead] at hheaded
        exact hheaded
    | some head =>
        obtain ⟨hstatus, hsource⟩ := h.head head hhead
        cases head with
        | handler status =>
            obtain ⟨write, hfetch⟩ := hsource
            exact ⟨hstatus, write, hfetch, hpassed write status hfetch⟩
        | failure status => exact ⟨hstatus, hsource⟩
        | adapter status => exact hstatus

/-- The step makes the terminal record of this request. -/
structure Attempted (s s' : HttpServer δ) (x : Nat) (e : HttpExchange) (trace trace' : Trace) :
    Prop where
  once : trace.attempts = [] ∧ trace'.attempts = [s.nextWrite]
  closed : e.response.closed = true
  delivery : trace.delivery = .settled
  /-- No audit write of its scope is unsettled. -/
  scope : ∀ (i : Nat) w, s.runtime.audit.writes[i]? = some w → w.scope = some x →
    w.delivery.settled = true
  record : ∃ w, s'.runtime.audit.writes[s.nextWrite]? = some w ∧
    w.event = s.traceEvent trace trace.terminal e.response.statusCode
  completed : trace.terminal = .completed ↔
    trace.finishedAtClose = some true ∧ trace.timedOut = false ∧ trace.caught = false

/-- The label is `completed` exactly when everything was sent, in time and without a failure. -/
theorem Lifecycle.completed {r : SecureRuntime δ} {x : Nat} {e : HttpExchange} {trace : Trace}
    (h : Lifecycle r x e trace) (hclosed : e.response.closed = true) :
    trace.terminal = .completed ↔
      trace.finishedAtClose = some true ∧ trace.timedOut = false ∧ trace.caught = false := by
  have hlabelled := h.labelled
  unfold Labelled at hlabelled
  constructor
  · intro hterminal
    rw [hterminal] at hlabelled
    obtain ⟨htimedOut, hcaught, hfinished⟩ := hlabelled
    have hsome := h.finishedAtClose
    rw [hclosed] at hsome
    obtain ⟨finished, hat⟩ := Option.isSome_iff_exists.mp hsome
    cases finished with
    | true => exact ⟨hat, htimedOut, hcaught⟩
    | false => exact absurd hat hfinished
  · rintro ⟨hfinished, htimedOut, hcaught⟩
    split at hlabelled
    · assumption
    · exact absurd (hfinished.symm.trans hlabelled) (by simp)
    · exact absurd (htimedOut.symm.trans hlabelled) (by simp)
    · exact absurd (hcaught.symm.trans hlabelled) (by simp)
    · exact absurd (hcaught.symm.trans hlabelled) (by simp)
    · exact absurd hlabelled id

theorem Lifecycle.attempted {x : Nat} {e : HttpExchange} {trace trace' : Trace}
    (h : Lifecycle s.runtime x e trace) (ha : Attempts s s' x e trace trace') :
    Attempted s s' x e trace trace' := by
  obtain ⟨hready, hsettled, hattempts, hruntime⟩ := ha
  have hstart := h.ready hready
  refine
    { once := ⟨hstart.1, by rw [hattempts, hstart.1, List.nil_append]⟩
      closed := hstart.2.1
      delivery := hstart.2.2
      scope := unsettled_eq_nil hsettled
      record := ?_
      completed := h.completed hstart.2.1 }
  obtain ⟨w, _, hw, hevent, _⟩ :=
    write_last s (s.traceEvent trace trace.terminal e.response.statusCode) none
  exact ⟨w, by rw [hruntime]; exact hw, hevent⟩

/-! ## Every run -/

/-- Every run of the HTTP server: the counters are what they count and stay within their bounds; each
    admitted request has one `received` record, before any other of its records, and at most one
    terminal record; what the handler or the metrics route answered is passed on only over an
    acknowledged record; a slot whose terminal write has settled is given back by the next step of
    `terminal`; and a step that makes a terminal record finds the response closed, the delivery and
    every write of the scope settled, and the label `completed` only for a response that was sent. -/
theorem http_lifecycle (setup : HttpSetup) (s : HttpServer δ)
    (h : (machine setup δ).Reachable s) :
    (s.authenticating = s.exchanges.countP HttpExchange.isVerifying ∧
      s.authenticating ≤ setup.rt.config.limits.maxConcurrent ∧
      s.requests = s.exchanges.countP HttpExchange.holds ∧
      s.requests = s.exchanges.countP s.isUnsettled + s.exchanges.countP s.isReleasing ∧
      s.requests ≤ setup.requestCapacity) ∧
    (∀ (x : Nat) e trace, s.exchanges[x]? = some e → e.trace = some trace →
      Exchange s x e trace) ∧
    (∀ (x : Nat) e trace write, s.exchanges[x]? = some e → e.trace = some trace →
      trace.ending = .writing write → s.hasSettled write = true →
      ∃ s', (machine setup δ).step s (.terminal x) = some s' ∧ s'.requests = s.requests - 1 ∧
        s'.exchanges = s.exchanges.set x
          { e with phase := .admitted { trace with ending := .done } }) ∧
    (∀ l s', (machine setup δ).step s l = some s' →
      ∀ (x : Nat) e trace, s.exchanges[x]? = some e → e.trace = some trace →
        ∃ e' trace', s'.exchanges[x]? = some e' ∧ e'.trace = some trace' ∧
          trace'.received = trace.received ∧
          (trace'.attempts = trace.attempts ∨ Attempted s s' x e trace trace')) := by
  obtain ⟨hrows, _⟩ := Rows.of_reachable h
  have hscoped := Scoped.of_reachable h
  have hcounters := Counters.of_reachable h
  refine ⟨⟨hcounters.authenticating, hcounters.authenticating_le, hcounters.requests,
    hcounters.requests.trans hrows.countP_holds, hcounters.requests_le⟩, ?_, ?_, ?_⟩
  · intro x e trace hx htrace
    exact (hrows x e trace hx htrace).exchange hscoped hx htrace
  · intro x e trace write hx htrace hending hsettled
    exact ⟨_, releases hx htrace hending hsettled, rfl, rfl⟩
  · intro l s' hstep x e trace hx htrace
    obtain ⟨e', trace', hx', htrace', hpersists⟩ := (step_effect hstep).persists hx htrace
    refine ⟨e', trace', hx', htrace', hpersists.received, ?_⟩
    exact hpersists.attempts.imp id (fun ha => (hrows x e trace hx htrace).attempted ha)

/-- One read-only tool behind the scope `notes:read`, as the runtime of its name has it. -/
def notesServer : HttpSetup where
  rt := SecureRuntime.notesRuntime
  allowedOrigins := []

def notesRequest : HttpRequest where
  path := some (js "/mcp")
  host := true
  origin := none
  method := js "POST"
  token := some (js "token")

def noteId : JsString := js "00000000-0000-4000-8000-000000000001"

/-- A tool call over HTTP, served and sent to its end, up to its terminal record. -/
def servedRequest : List (Label String) :=
  [.listen notesRequest, .verified 0 (some SecureRuntime.notesCall.principal) noteId,
    .runtime (.audit (.callSink 0 .returned)), .runtime (.audit (.resume 0)), .received 0, .fetch 0,
    .text 0 (some false), .invoke 0 (js "notes") SecureRuntime.notesArgs none none noteId,
    .runtime (.start 0), .runtime (.validated 0 (.success "a")),
    .runtime (.audit (.callSink 1 .returned)), .runtime (.audit (.resume 1)),
    .runtime (.admitted 0), .runtime (.handled 0 (.ok SecureRuntime.notesResult)),
    .runtime (.audit (.callSink 2 .returned)), .runtime (.audit (.resume 2)),
    .runtime (.recorded 0), .runtime (.settled 0), .runtime (.answered 0), .fetched 0 (some 200),
    .runtime (.audit (.callSink 3 .returned)), .runtime (.audit (.resume 3)), .responded 0,
    .sendHead 0 none, .sendEnd 0, .adapted 0 true, .finish 0, .closed 0, .terminal 0]

theorem http_lifecycle_servedRequest :
    ∃ s s' e trace e' trace',
      (machine notesServer String).exec (machine notesServer String).init servedRequest = some s ∧
      s.exchanges[0]? = some e ∧ e.trace = some trace ∧
      (machine notesServer String).step s (.terminal 0) = some s' ∧
      s'.exchanges[0]? = some e' ∧ e'.trace = some trace' ∧
      trace.head = some (.handler 200) ∧ s.requests = 1 ∧ HeadRecorded s 0 e trace ∧
      Attempted s s' 0 e trace trace' ∧ trace.terminal = .completed := by
  have hrun : ∃ s s' e trace,
      (machine notesServer String).exec (machine notesServer String).init servedRequest = some s ∧
      (machine notesServer String).step s (.terminal 0) = some s' ∧
      s.exchanges[0]? = some e ∧ e.trace = some trace ∧ trace.head = some (.handler 200) ∧
      s.requests = 1 ∧ trace.terminal = .completed ∧ trace.attempts = [] ∧
      (s'.exchanges[0]?.bind HttpExchange.trace).map Trace.attempts = some [4] :=
    ⟨_, _, _, _, rfl, rfl, rfl, rfl, rfl, rfl, rfl, rfl, rfl⟩
  obtain ⟨s, s', e, trace, hexec, hstep, hx, htrace, hhead, hone, hterminal, hnone, hfour⟩ := hrun
  obtain ⟨_, hexchange, _, hsteps⟩ := http_lifecycle notesServer s (Machine.leads_of_exec hexec)
  obtain ⟨e', trace', hx', htrace', _, hattempts⟩ := hsteps _ s' hstep 0 e trace hx htrace
  refine ⟨s, s', e, trace, e', trace', hexec, hx, htrace, hstep, hx', htrace', hhead, hone,
    (hexchange 0 e trace hx htrace).head, ?_, hterminal⟩
  rcases hattempts with hsame | hattempted
  · simp [hx', htrace', hsame, hnone] at hfour
  · exact hattempted

end HttpServer

end SecureMcp
