import SecureMcp.Deployment.Hosts
import SecureMcp.Deployment.Order
import SecureMcp.Http.Exchange
import SecureMcp.Http.Opened
import SecureMcp.Runtime.Entered

set_option autoImplicit false

/-! # What the journal says about a request

The HTTP server, deployed with its collector. Nothing is done for a request before its `received`
record is on disk, no handler of a tool runs before its `allowed` record is, and no answer of the SDK
or of a tool is given before its own record is. In the journal the `received` record of a request comes
first, and a request whose terminal record is there has all its records before it. -/

namespace SecureMcp

namespace HttpServer

variable {δ : Type} {setup : HttpSetup} {journal : JournalSetup}
variable {s s' : Deployment (HttpServer δ)} {l : Deployment.Label (Label δ)}

theorem server_reachable (h : (Deployment.machine (host setup δ) journal).Reachable s) :
    (machine setup δ).Reachable s.host := Deployment.host_reachable h

/-! ## What is on disk for a request -/

/-- A record of this call with this outcome is on disk. -/
def CallOnDisk (journal : JournalSetup) (s : Deployment (HttpServer δ)) (inv : Invocation δ)
    (outcome : Outcome) : Prop :=
  ∃ write event, event.requestId = inv.context.requestId ∧ event.tool = inv.context.tool ∧
    event.actor = inv.context.actor ∧ event.kind = some .tool ∧ event.outcome = outcome ∧
    s.OnDisk journal write event

theorem CallOnDisk.of_record (h : (Deployment.machine (host setup δ) journal).Reachable s)
    {inv : Invocation δ} {write : Nat} {outcome : Outcome}
    (hwrote : s.host.runtime.Wrote inv write outcome)
    (hdelivered : s.host.runtime.Delivered write .fulfilled) : CallOnDisk journal s inv outcome := by
  obtain ⟨w, clock, hw, hevent, _⟩ := hwrote
  obtain ⟨w', hw', hdelivery⟩ := hdelivered
  obtain rfl := Option.some.inj (hw.symm.trans hw')
  exact ⟨write, w.event, by rw [hevent]; rfl, by rw [hevent]; rfl, by rw [hevent]; rfl,
    by rw [hevent]; rfl, by rw [hevent]; rfl, Deployment.onDisk_of_fulfilled h hw hdelivery⟩

structure Served (journal : JournalSetup) (s : Deployment (HttpServer δ)) (trace : Trace) : Prop where
  /-- The request has been given to the adapter. -/
  received : Trace.IsBegun trace → s.OnDisk journal trace.received trace.event
  /-- The handler of a tool was entered. -/
  allowed : ∀ i ∈ trace.invocations, s.host.runtime.enteredAt i ≠ [] →
    ∃ inv, s.host.runtime.invocations[i]? = some inv ∧ CallOnDisk journal s inv .allowed
  /-- A call has returned: an error of the runtime's own, or what the handler said. -/
  answered : ∀ i ∈ trace.invocations, ∀ inv outcome value,
    s.host.runtime.invocations[i]? = some inv → inv.caller = .answered outcome value →
      value = errorResult outcome ∨ CallOnDisk journal s inv outcome
  /-- The head of the SDK's response was sent. -/
  response : ∀ status, trace.head = some (.handler status) → ∃ write event,
    event.requestId = trace.event.requestId ∧ event.kind = some .http ∧
      event.outcome = .response ∧ event.status = some status ∧ s.OnDisk journal write event

/-- Whatever was done for a request, and whatever its client has seen of it, is on disk. -/
theorem served_is_durable (h : (Deployment.machine (host setup δ) journal).Reachable s) {x : Nat}
    {e : HttpExchange} {trace : Trace} (hx : s.host.exchanges[x]? = some e)
    (htrace : e.trace = some trace) : Served journal s trace := by
  have hserver := server_reachable h
  have hruntime := runtime_reachable hserver
  have hexchange := ((Rows.of_reachable hserver).1 x e trace hx htrace).exchange
    (Scoped.of_reachable hserver) hx htrace
  constructor
  case received =>
    intro hbegun
    obtain ⟨w, hw, hdelivery⟩ := (allOpened_of_reachable hserver x e trace hx htrace).begun hbegun
    obtain ⟨w', hw', _, hevent, _⟩ := hexchange.received
    obtain rfl := Option.some.inj (hw.symm.trans hw')
    rw [← hevent]
    exact Deployment.onDisk_of_fulfilled h hw hdelivery
  case allowed =>
    intro i _ hentered
    cases hi : s.host.runtime.invocations[i]? with
    | none => exact absurd (by rw [SecureRuntime.enteredAt, hi]) hentered
    | some inv =>
        obtain ⟨write, _, hwrote, hdelivered⟩ :=
          SecureRuntime.allowedFirst_of_reachable hruntime i inv hi hentered
        exact ⟨inv, rfl, .of_record h hwrote hdelivered⟩
  case answered =>
    intro i _ inv outcome value hi hanswered
    rcases (SecureRuntime.Evidence.of_reachable hruntime i inv hi).answered outcome value hanswered
      with ⟨_, _, hvalue⟩ | ⟨isError, herror, rfl, write, isError', _, herror', hwrote, hdelivered⟩
    · exact Or.inl hvalue
    · obtain rfl := Option.some.inj (herror.symm.trans herror')
      exact Or.inr (.of_record h hwrote hdelivered)
  case response =>
    intro status hhead
    have hrecorded := hexchange.head
    unfold HeadRecorded at hrecorded
    rw [hhead] at hrecorded
    obtain ⟨_, write, _, ⟨w, time, durationMs, hw, _, hevent⟩, w', hw', hdelivery⟩ := hrecorded
    obtain rfl := Option.some.inj (hw.symm.trans hw')
    obtain ⟨first, _, _, hfirst, hkind, _⟩ := hexchange.received
    refine ⟨write, w.event, by rw [hevent], ?_, by rw [hevent], by rw [hevent],
      Deployment.onDisk_of_fulfilled h hw hdelivery⟩
    rw [hevent]
    exact hfirst ▸ hkind

/-- What the network does with a record of this many octets, until its promise has settled. -/
def syncedRecord (write octets : Nat) : List (Deployment.Label (Label String)) :=
  [.network (.deliver 0 octets), .network (.collector (.run 0)),
    .network (.collector (.append 0 octets)), .network (.collector (.appended 0 true)),
    .network (.collector (.synchronized 0 true [])), .network (.answer 0 1 0), .settle write,
    .host (.runtime (.audit (.resume write)))]

/-- An empty journal does not end with a partial record. -/
theorem whole_nil : ([] : Bytes) = [] ∨ ([] : Bytes).getLast? = some Lines.newline := Or.inl rfl

def freshJournal : JournalSetup where
  maxBytes := 4096
  journal := []
  least := Nat.le_add_left 1024 3072
  fits := Nat.zero_le _
  whole := whole_nil

/-- A tool call over HTTP with its five records, from the first octet to the terminal record. -/
def recordedRequest : List (Deployment.Label (Label String)) :=
  [.host (.listen notesRequest), .host (.verified 0 (some SecureRuntime.notesCall.principal) noteId),
    .callSink 0 0, .network (.accept 0), .network (.sink (.connect 0 2))] ++ syncedRecord 0 273 ++
  [.host (.received 0), .host (.fetch 0), .host (.text 0 (some false)),
    .host (.invoke 0 (js "notes") SecureRuntime.notesArgs none none noteId),
    .host (.runtime (.start 0)), .host (.runtime (.validated 0 (.success "a"))), .callSink 1 2] ++
  syncedRecord 1 237 ++
  [.host (.runtime (.admitted 0)),
    .host (.runtime (.handled 0 (.ok SecureRuntime.notesResult))), .callSink 2 2] ++
  syncedRecord 2 237 ++
  [.host (.runtime (.recorded 0)), .host (.runtime (.settled 0)), .host (.runtime (.answered 0)),
    .host (.fetched 0 (some 200)), .callSink 3 2] ++ syncedRecord 3 286 ++
  [.host (.responded 0), .host (.sendHead 0 none), .host (.sendEnd 0), .host (.adapted 0 true),
    .host (.finish 0), .host (.closed 0), .host (.terminal 0), .host (.terminal 0), .callSink 4 2] ++
  syncedRecord 4 287

/-- What the two examples below look at. -/
def summary (s : Deployment (HttpServer String)) :
    Option (Option Head × List Nat × List Nat) × Bool × Nat :=
  ((s.host.exchanges[0]?.bind HttpExchange.trace).map
      (fun trace => (trace.head, trace.invocations, trace.attempts)),
    (s.host.runtime.enteredAt 0).isEmpty,
    (s.network.collector.appendedLines freshJournal).length)

theorem summary_recordedRequest :
    ((Deployment.machine (host notesServer String) freshJournal).exec
      (Deployment.machine (host notesServer String) freshJournal).init recordedRequest).map summary =
    some (some (some (.handler 200), [0], [4]), false, 5) := by
  decide +kernel

/-- The run, with the trace of its request. -/
theorem trace_recordedRequest : ∃ s e trace,
    (Deployment.machine (host notesServer String) freshJournal).exec
      (Deployment.machine (host notesServer String) freshJournal).init recordedRequest = some s ∧
    s.host.exchanges[0]? = some e ∧ e.trace = some trace ∧ trace.head = some (.handler 200) ∧
    trace.invocations = [0] ∧ trace.attempts = [4] ∧ s.host.runtime.enteredAt 0 ≠ [] ∧
    (s.network.collector.appendedLines freshJournal).length = 5 := by
  obtain ⟨s, hexec, hsummary⟩ := Option.map_eq_some_iff.mp summary_recordedRequest
  obtain ⟨htraces, hrest⟩ := Prod.mk.inj hsummary
  obtain ⟨hentered, hlines⟩ := Prod.mk.inj hrest
  obtain ⟨trace, hbind, hfields⟩ := Option.map_eq_some_iff.mp htraces
  obtain ⟨e, hx, htrace⟩ := Option.bind_eq_some_iff.mp hbind
  obtain ⟨hhead, hrest⟩ := Prod.mk.inj hfields
  obtain ⟨hinvocations, hattempts⟩ := Prod.mk.inj hrest
  refine ⟨s, e, trace, hexec, hx, htrace, hhead, hinvocations, hattempts, ?_, hlines⟩
  intro hnil
  rw [hnil] at hentered
  exact absurd hentered (by simp)

theorem served_is_durable_recordedRequest : ∃ s e trace,
    (Deployment.machine (host notesServer String) freshJournal).exec
      (Deployment.machine (host notesServer String) freshJournal).init recordedRequest = some s ∧
    s.host.exchanges[0]? = some e ∧ e.trace = some trace ∧
    (∃ inv, s.host.runtime.invocations[0]? = some inv ∧ CallOnDisk freshJournal s inv .allowed) ∧
    (∃ write event, event.outcome = .response ∧ event.status = some 200 ∧
      s.OnDisk freshJournal write event) ∧ Served freshJournal s trace := by
  obtain ⟨s, e, trace, hexec, hx, htrace, hhead, hinvocations, _, hentered, _⟩ :=
    trace_recordedRequest
  have hserved := served_is_durable (Machine.leads_of_exec hexec) hx htrace
  obtain ⟨write, event, _, _, houtcome, hstatus, hdisk⟩ := hserved.response 200 hhead
  exact ⟨s, e, trace, hexec, hx, htrace,
    hserved.allowed 0 (by rw [hinvocations]; exact List.mem_cons_self) hentered,
    ⟨write, event, houtcome, hstatus, hdisk⟩, hserved⟩

/-! ## The order of its records -/

/-- Write `j` is a record of this request, other than the `received` one. -/
def IsLater (x : Nat) (trace : Trace) (j : Nat) (w : Write AuditEvent) : Prop :=
  (w.scope = some x ∨ j ∈ trace.attempts) ∧ j ≠ trace.received

structure InOrder (setup : HttpSetup) (journal : JournalSetup) (s : Deployment (HttpServer δ))
    (x : Nat) (trace : Trace) : Prop where
  first : ∀ (j : Nat) w, s.host.runtime.audit.writes[j]? = some w → IsLater x trace j w →
    Deployment.Follows (host setup δ) journal s trace.received j
  last : ∀ t ∈ trace.attempts, ∀ (j : Nat) w, j < t → s.host.runtime.audit.writes[j]? = some w →
    w.scope = some x → Deployment.Follows (host setup δ) journal s j t

/-- A terminal record is made once the delivery is over. -/
theorem Lifecycle.isOpen {r : SecureRuntime δ} {x : Nat} {e : HttpExchange} {trace : Trace}
    (h : Lifecycle r x e trace) {t : Nat} (ht : t ∈ trace.attempts) : Trace.IsOpen trace := by
  have hending := h.ending
  unfold Ending at hending
  intro write hdelivery
  split at hending
  · rw [hending] at ht
    exact absurd ht (by simp)
  · rw [hending.1] at ht
    exact absurd ht (by simp)
  · rw [hending.1] at ht
    exact absurd ht (by simp)
  · exact absurd (hdelivery.symm.trans hending.2.2.1) (by simp)
  · exact absurd (hdelivery.symm.trans hending.2.1) (by simp)

/-- A record that is not the `received` one is made after that one has settled. -/
theorem isOpen_of_later {server server' : HttpServer δ} {label : Label δ}
    (hreach : (machine setup δ).Reachable server')
    (he : Effect setup server label server') {x j : Nat} {e : HttpExchange} {trace : Trace}
    {w : Write AuditEvent} (hx : server'.exchanges[x]? = some e) (htrace : e.trace = some trace)
    (hw : server'.runtime.audit.writes[j]? = some w)
    (hnew : server.runtime.audit.writes[j]? = none) (hlater : IsLater x trace j w) :
    Trace.IsOpen trace := by
  have hlife := (Rows.of_reachable hreach).1 x e trace hx htrace
  have hopened := allOpened_of_reachable hreach x e trace hx htrace
  have hsame : ∀ {y : Nat} {b : HttpExchange} {other : Trace}, server'.exchanges[y]? = some b →
      b.trace = some other → w.scope = some y → w.scope = some x → other = trace ∧ y = x := by
    intro y b other hy hother hscope hscope'
    obtain rfl := Option.some.inj (hscope.symm.trans hscope')
    obtain rfl := Option.some.inj (hy.symm.trans hx)
    exact ⟨Option.some.inj (hother.symm.trans htrace), rfl⟩
  -- what is dispatched is open
  have hdispatched : trace.dispatched = true → Trace.IsOpen trace := by
    intro hd write hdelivery
    rw [(hlife.receiving write hdelivery).2.2] at hd
    exact absurd hd (by simp)
  obtain ⟨hscope | hattempt, hne⟩ := hlater
  · obtain ⟨_, horigin⟩ := he.origin hw hnew
    cases horigin with
    | received y b other hy hother hy' hwrite =>
        obtain ⟨rfl, rfl⟩ := hsame hy hother hy' hscope
        exact absurd hwrite hne
    | response y b other status hy hother hy' hwrite hfetch =>
        obtain ⟨rfl, rfl⟩ := hsame hy hother hy' hscope
        intro write hdelivery
        rw [(hlife.receiving write hdelivery).2.1] at hfetch
        exact absurd hfetch (by simp)
    | observed y b other hy hother hy' hwrite =>
        obtain ⟨rfl, rfl⟩ := hsame hy hother hy' hscope
        exact hdispatched (hopened.called (Or.inr (List.ne_nil_of_mem hwrite)))
    | terminal y b other hy hother hnone => exact absurd (hnone.symm.trans hscope) (by simp)
    | call hrecords =>
        obtain ⟨i, inv, outcome, clock, hi, hcall, _⟩ := hrecords
        obtain ⟨b, other, hy, hother, hmem⟩ :=
          (Scoped.of_reachable hreach).calls i inv x hi (hcall.symm.trans hscope)
        obtain ⟨rfl, _⟩ := hsame hy hother hscope hscope
        exact hdispatched (hopened.called (Or.inl (List.ne_nil_of_mem hmem)))
    | other hnone => exact absurd (hnone.symm.trans hscope) (by simp)
  · exact hlife.isOpen hattempt

/-- Every admitted request. -/
def AllInOrder (setup : HttpSetup) (journal : JournalSetup) (s : Deployment (HttpServer δ)) : Prop :=
  ∀ (x : Nat) e trace, s.host.exchanges[x]? = some e → e.trace = some trace →
    InOrder setup journal s x trace

/-- The terminal record is a row of the dispatcher. -/
theorem Lifecycle.attempt_lt {r : SecureRuntime δ} {x : Nat} {e : HttpExchange} {trace : Trace}
    (h : Lifecycle r x e trace) {t : Nat} (ht : t ∈ trace.attempts) : t < r.audit.writes.length := by
  have hending := h.ending
  unfold Ending at hending
  split at hending
  · rw [hending] at ht
    exact absurd ht (by simp)
  · rw [hending.1] at ht
    exact absurd ht (by simp)
  · rw [hending.1] at ht
    exact absurd ht (by simp)
  · obtain ⟨hone, _, _, _, _, _, w, _, _, hw, _⟩ := hending
    rw [hone, List.mem_singleton] at ht
    exact ht ▸ Table.lt_of_getElem? hw
  · obtain ⟨_, _, write, hone, _, _, _, _, w, _, _, hw, _⟩ := hending
    rw [hone, List.mem_singleton] at ht
    exact ht ▸ Table.lt_of_getElem? hw

/-- A request that was admitted before the step: a new record of it follows the `received` one, and
    a new terminal record follows every record of its scope. -/
theorem InOrder.step {x : Nat} {trace trace' : Trace} (h : InOrder setup journal s x trace)
    (hs : (Deployment.machine (host setup δ) journal).Reachable s)
    (hstep : (Deployment.machine (host setup δ) journal).step s l = some s')
    (hreceived : trace'.received = trace.received)
    (hrows : ∀ t ∈ trace.attempts, t < s.host.runtime.audit.writes.length)
    (hnew : ∀ (j : Nat) w, s'.host.runtime.audit.writes[j]? = some w →
      s.host.runtime.audit.writes[j]? = none → IsLater x trace' j w →
      Deployment.Follows (host setup δ) journal s' trace.received j)
    (hattempts : ∀ t ∈ trace'.attempts, t ∈ trace.attempts ∨
      t = s.host.runtime.audit.writes.length ∧
        ∀ (j : Nat) w, s.host.runtime.audit.writes[j]? = some w → w.scope = some x →
          Deployment.Follows (host setup δ) journal s' j t) :
    InOrder setup journal s' x trace' := by
  have hlead := Machine.Leads.single hstep
  have heffect := Deployment.step_effect hstep
  have hold : ∀ {j : Nat} {w b : Write AuditEvent}, s'.host.runtime.audit.writes[j]? = some w →
      s.host.runtime.audit.writes[j]? = some b → w.scope = b.scope := by
    intro j w b hw hb
    obtain ⟨w', hw', hev⟩ := AuditDispatcher.evolves_of_leads heffect.audit_leads hb
    obtain rfl := Option.some.inj (hw.symm.trans hw')
    exact hev.scope
  refine ⟨fun j w hw hlater => ?_, fun t ht j w hj hw hscope => ?_⟩
  · rw [hreceived]
    cases hb : s.host.runtime.audit.writes[j]? with
    | none => exact hnew j w hw hb hlater
    | some b =>
        refine (h.first j b hb ⟨?_, hreceived ▸ hlater.2⟩).of_leads hs hlead
        rcases hlater.1 with hscope | hattempt
        · exact Or.inl ((hold hw hb).symm.trans hscope)
        · rcases hattempts j hattempt with hin | ⟨rfl, _⟩
          · exact Or.inr hin
          · exact absurd (Table.lt_of_getElem? hb) (Nat.lt_irrefl _)
  · have hrange : j < s.host.runtime.audit.writes.length := by
      rcases hattempts t ht with hin | ⟨rfl, _⟩
      · exact Nat.lt_trans hj (hrows t hin)
      · exact hj
    have hb := List.getElem?_eq_getElem hrange
    have hscope' := (hold hw hb).symm.trans hscope
    rcases hattempts t ht with hin | ⟨_, hall⟩
    · exact (h.last t hin j _ hj hb hscope').of_leads hs hlead
    · exact hall j _ hb hscope'

theorem AllInOrder.step (h : AllInOrder setup journal s)
    (hs : (Deployment.machine (host setup δ) journal).Reachable s)
    (hstep : (Deployment.machine (host setup δ) journal).step s l = some s') :
    AllInOrder setup journal s' := by
  have heffect := Deployment.step_effect hstep
  have hserver := server_reachable hs
  have hserver' := server_reachable (hs.snoc hstep)
  have hrows := (Rows.of_reachable hserver).1
  intro x e' trace' hx' htrace'
  rcases heffect.host_step with hsame | ⟨label, hlabel⟩
  · -- the server stands still
    rw [hsame] at hx'
    refine (h x e' trace' hx' htrace').step hs hstep rfl
      (fun t ht => (hrows x e' trace' hx' htrace').attempt_lt ht) (fun j w hw hnone => ?_)
      (fun t ht => Or.inl ht)
    rw [hsame, hnone] at hw
    exact absurd hw (by simp)
  · have he : Effect setup s.host label s'.host := step_effect hlabel
    -- a new row, of a request whose `received` record is a row already
    have hnew : ∀ {trace : Trace} (e : HttpExchange), s.host.exchanges[x]? = some e →
        e.trace = some trace → trace'.received = trace.received → ∀ (j : Nat) w,
        s'.host.runtime.audit.writes[j]? = some w → s.host.runtime.audit.writes[j]? = none →
        IsLater x trace' j w → Deployment.Follows (host setup δ) journal s' trace.received j := by
      intro trace e hx htrace hreceived j w hw hnone hlater
      have hopen := isOpen_of_later hserver' he hx' htrace' hw hnone hlater
      obtain ⟨b', hb', hsettled⟩ :=
        (allOpened_of_reachable hserver' x e' trace' hx' htrace').settled hopen
      rw [hreceived] at hb'
      have hb := List.getElem?_eq_getElem (hrows x e trace hx htrace).received_lt
      obtain ⟨_, event, scope, hwritten⟩ := heffect.new_row hw hnone
      have hwritten' : s'.host.runtime.audit = s.host.runtime.audit.write event scope := hwritten
      obtain ⟨row, hwrites, _⟩ := AuditDispatcher.write_row s.host.runtime.audit event scope
      rw [hwritten', hwrites, Table.getElem?_append_of_some hb] at hb'
      obtain rfl := Option.some.inj hb'
      exact Deployment.follows_new hs hstep hw hnone hb hsettled
    by_cases hadmitted : ∃ e trace, s.host.exchanges[x]? = some e ∧ e.trace = some trace
    · obtain ⟨e, trace, hx, htrace⟩ := hadmitted
      obtain ⟨e'', trace'', hx'', htrace'', hpersists⟩ := he.persists hx htrace
      obtain rfl := Option.some.inj (hx'.symm.trans hx'')
      obtain rfl := Option.some.inj (htrace'.symm.trans htrace'')
      refine (h x e trace hx htrace).step hs hstep hpersists.received
        (fun t ht => (hrows x e trace hx htrace).attempt_lt ht)
        (hnew e hx htrace hpersists.received) (fun t ht => ?_)
      rcases hpersists.attempts with hkept | ⟨_, hsettled, hone, hruntime⟩
      · exact Or.inl (hkept ▸ ht)
      · rw [hone] at ht
        rcases List.mem_append.mp ht with hin | hlast
        · exact Or.inl hin
        · obtain rfl := List.mem_singleton.mp hlast
          refine Or.inr ⟨rfl, fun j w hw hscope => ?_⟩
          obtain ⟨row, hwrites, hlastRow, _⟩ := write_last s.host
            (s.host.traceEvent trace trace.terminal e.response.statusCode) none
          have hrow : s'.host.runtime.audit.writes[s.host.nextWrite]? = some row := by
            rw [hruntime]
            exact hlastRow
          exact Deployment.follows_new hs hstep hrow (List.getElem?_eq_none_iff.mpr (Nat.le_refl _))
            hw (unsettled_eq_nil hsettled j w hw hscope)
    · -- the step admits the request, and its first record is the `received` one
      obtain ⟨hnone, hreceived⟩ := he.fresh hx' htrace'
        (fun e trace hx htrace => hadmitted ⟨e, trace, hx, htrace⟩)
      refine ⟨fun j w hw hlater => ?_, fun t ht => ?_⟩
      · obtain ⟨hscope | hattempt, hne⟩ := hlater
        · obtain ⟨b, other, hy, hother, hle, _⟩ :=
            (Scoped.of_reachable hserver').writes j w x hw hscope
          obtain rfl := Option.some.inj (hx'.symm.trans hy)
          obtain rfl := Option.some.inj (htrace'.symm.trans hother)
          have hlength := he.writes_length
          have hrange := Table.lt_of_getElem? hw
          omega
        · rw [hnone] at hattempt
          exact absurd hattempt (by simp)
      · rw [hnone] at ht
        exact absurd ht (by simp)

theorem allInOrder_of_reachable (h : (Deployment.machine (host setup δ) journal).Reachable s) :
    AllInOrder setup journal s :=
  h.invariant (I := AllInOrder setup journal)
    (by
      intro x e trace hx
      exact absurd hx (by simp [Deployment.machine, host, machine]))
    (fun _ _ _ hr hs hstep => hs.step hr hstep)

/-- In the journal the `received` record of a request comes first; and where its terminal record is
    there, every record that was made for the request before is there too, before it. -/
theorem journal_of_request (h : (Deployment.machine (host setup δ) journal).Reachable s) {x : Nat}
    {e : HttpExchange} {trace : Trace} (hx : s.host.exchanges[x]? = some e)
    (htrace : e.trace = some trace) :
    (∀ (j : Nat) w q, s.host.runtime.audit.writes[j]? = some w → IsLater x trace j w →
      s.LineOf journal j q → ∃ p, p < q ∧ s.LineOf journal trace.received p) ∧
    (∀ t ∈ trace.attempts, ∀ q, s.LineOf journal t q → ∀ (j : Nat) w, j < t →
      s.host.runtime.audit.writes[j]? = some w → w.scope = some x →
      ∃ p, p < q ∧ s.LineOf journal j p) := by
  have horder := allInOrder_of_reachable h x e trace hx htrace
  exact ⟨fun j w q hw hlater hq => (horder.first j w hw hlater).before h hq,
    fun t ht q hq j w hj hw hscope => (horder.last t ht j w hj hw hscope).before h hq⟩

theorem journal_of_request_recordedRequest : ∃ s e trace,
    (Deployment.machine (host notesServer String) freshJournal).exec
      (Deployment.machine (host notesServer String) freshJournal).init recordedRequest = some s ∧
    s.host.exchanges[0]? = some e ∧ e.trace = some trace ∧ trace.attempts = [4] ∧
    (s.network.collector.appendedLines freshJournal).length = 5 ∧
    ∀ q, s.LineOf freshJournal 4 q → ∀ (j : Nat) w, j < 4 →
      s.host.runtime.audit.writes[j]? = some w → w.scope = some 0 →
      ∃ p, p < q ∧ s.LineOf freshJournal j p := by
  obtain ⟨s, e, trace, hexec, hx, htrace, _, _, hattempts, _, hlines⟩ := trace_recordedRequest
  have horder := journal_of_request (Machine.leads_of_exec hexec) hx htrace
  exact ⟨s, e, trace, hexec, hx, htrace, hattempts, hlines,
    horder.2 4 (by rw [hattempts]; exact List.mem_cons_self)⟩

end HttpServer

end SecureMcp
