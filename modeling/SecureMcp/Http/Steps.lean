import SecureMcp.Http.Server
import SecureMcp.Runtime.Awaited

set_option autoImplicit false

/-! # What a step of the HTTP server can do

`Moves` lists the ways in which the threads of one admitted request go on without a write to the
dispatcher, and `Effect` all the ways in which a step changes the server. -/

namespace SecureMcp

namespace HttpServer

variable {δ : Type}

/-- `terminal` is about to run the loop of `scope.settle`. -/
def Ready (trace : Trace) : Prop :=
  (trace.ending = .awaitingDelivery ∧ trace.delivery = .settled) ∨
    ∃ snapshot, trace.ending = .settling snapshot

inductive Moves (s : HttpServer δ) (e : HttpExchange) (trace : Trace) : HttpResponse → Trace → Prop
  | delivered (write : Nat) (delivery : DeliveryPhase) (hdelivery : trace.delivery = .receiving write)
      (hwrite : s.runtime.Delivered write .fulfilled)
      (hnew : delivery = .adapting ∨ delivery = .settled) :
      Moves s e trace e.response { trace with delivery }
  | adapted (hdelivery : trace.delivery = .adapting) :
      Moves s e trace e.response { trace with delivery := .settled }
  | caught (hdelivery : (∃ write, trace.delivery = .receiving write ∧
        s.runtime.Delivered write .rejected) ∨ trace.delivery = .adapting) :
      Moves s e trace
        { e.response with
          headersSent := true
          statusCode := if e.response.headersSent then e.response.statusCode else s.failureStatus
          ended := true }
        { trace with
          terminal := s.failureOutcome
          delivery := .settled
          caught := true
          head := trace.head.or (if e.response.headersSent then none
            else some (.failure s.failureStatus)) }
  | reading (hdelivery : trace.delivery = .adapting) (hfetch : trace.fetch = .idle) :
      Moves s e trace e.response { trace with fetch := .reading }
  | handling (hfetch : trace.fetch = .reading ∨
        (trace.delivery = .adapting ∧ trace.fetch = .idle)) :
      Moves s e trace e.response { trace with fetch := .handling, dispatched := true }
  | fetchFailed (hfetch : trace.fetch = .reading ∨ trace.fetch = .handling ∨
        ∃ write status, trace.fetch = .recording write status ∧
          s.runtime.Delivered write .rejected) :
      Moves s e trace e.response
        { trace with
          terminal := s.failureOutcome
          fetch := .failed s.failureStatus
          caught := true }
  | passed (write status : Nat) (hfetch : trace.fetch = .recording write status)
      (hwrite : s.runtime.Delivered write .fulfilled) :
      Moves s e trace e.response { trace with fetch := .passed write status }
  | head (own : Option Nat) (head : Head) (hdelivery : trace.delivery = .adapting)
      (hnone : e.response.headersSent = false) (hhead : nextHead own trace.fetch = some head) :
      Moves s e trace { e.response with headersSent := true, statusCode := head.status }
        { trace with head := some head }
  | ended (hdelivery : trace.delivery = .adapting) :
      Moves s e trace { e.response with ended := true } trace
  | finished (hopen : e.response.closed = false) :
      Moves s e trace { e.response with finished := true } trace
  | destroyed : Moves s e trace { e.response with destroyed := true } trace
  | closed (hopen : e.response.closed = false) :
      Moves s e trace { e.response with destroyed := true, closed := true }
        { trace with
          timer := false
          terminal :=
            if !e.response.finished && trace.terminal == .completed then .disconnected
            else trace.terminal
          finishedAtClose := some e.response.finished }
  | expired (htimer : trace.timer = true) :
      Moves s e trace { e.response with destroyed := true }
        { trace with timer := false, terminal := .request_timeout, timedOut := true }
  | awaiting (hending : trace.ending = .awaitingClose) (hclosed : e.response.closed = true) :
      Moves s e trace e.response { trace with ending := .awaitingDelivery }
  | settling (snapshot : List Nat) (hready : Ready trace) (hknown : ∀ i ∈ snapshot, i < s.nextWrite) :
      Moves s e trace e.response { trace with ending := .settling snapshot }

/-- No head was written, and a `close` event destroys. -/
def Untouched (response : HttpResponse) : Prop :=
  response.headersSent = false ∧ (response.destroyed = false → response.closed = false)

inductive Effect (setup : HttpSetup) (s : HttpServer δ) (l : Label δ) : HttpServer δ → Prop
  | counted (counters : Rejection → Nat) : Effect setup s l { s with counters }
  | listened (request : HttpRequest) (endpoint : Endpoint)
      (hbound : s.authenticating < setup.rt.config.limits.maxConcurrent) :
      Effect setup s l { s with
        authenticating := s.authenticating + 1
        exchanges := s.exchanges ++ [{ request, endpoint }] }
  | refused (x : Nat) (e : HttpExchange) (response : HttpResponse) (reason : Option Rejection)
      (counters : Rejection → Nat) (hx : s.exchanges[x]? = some e) (hphase : e.phase = .verifying) :
      Effect setup s l ({ s with authenticating := s.authenticating - 1, counters }.setExchange x
        { e with response, phase := .refused reason })
  | admitted (x : Nat) (e : HttpExchange) (principal : Principal) (uuid : JsString)
      (hx : s.exchanges[x]? = some e) (hphase : e.phase = .verifying)
      (hdestroyed : e.response.destroyed = false) (hopen : s.closing = false)
      (hhealthy : s.runtime.audit.healthy = true) (hcapacity : s.requests < setup.requestCapacity) :
      Effect setup s l
        ({ s with authenticating := s.authenticating - 1 }.accept setup x e principal uuid)
  /-- The response of a request that is not admitted. -/
  | untraced (x : Nat) (e : HttpExchange) (response : HttpResponse)
      (hx : s.exchanges[x]? = some e) (htrace : e.trace = none)
      (hkept : Untouched e.response → Untouched response) :
      Effect setup s l (s.setExchange x { e with response })
  | moved (x : Nat) (e : HttpExchange) (trace trace' : Trace) (response : HttpResponse)
      (hx : s.exchanges[x]? = some e) (htrace : e.trace = some trace)
      (hmoves : Moves s e trace response trace')
      (hclosed : response.closed = true → e.response.closed = true ∨ l = .closed x) :
      Effect setup s l (s.setExchange x { e with response, phase := .admitted trace' })
  | responding (x : Nat) (e : HttpExchange) (trace : Trace) (status : Nat)
      (hx : s.exchanges[x]? = some e) (htrace : e.trace = some trace)
      (hfetch : (trace.delivery = .adapting ∧ trace.fetch = .idle) ∨ trace.fetch = .reading ∨
        trace.fetch = .handling) : Effect setup s l (s.respond x e trace status)
  | attempted (x : Nat) (e : HttpExchange) (trace : Trace) (hx : s.exchanges[x]? = some e)
      (htrace : e.trace = some trace) (hready : Ready trace) (hsettled : s.unsettled x = []) :
      Effect setup s l
        ((s.write (s.traceEvent trace trace.terminal e.response.statusCode) none).setExchange x
          { e with
            phase := .admitted { trace with
              ending := .writing s.nextWrite
              attempts := trace.attempts ++ [s.nextWrite] } })
  | released (x : Nat) (e : HttpExchange) (trace : Trace) (write : Nat)
      (hx : s.exchanges[x]? = some e) (htrace : e.trace = some trace)
      (hending : trace.ending = .writing write) (hsettled : s.runtime.Settled write) :
      Effect setup s l ({ s with requests := s.requests - 1 }.setExchange x
        { e with phase := .admitted { trace with ending := .done } })
  | invoked (x : Nat) (e : HttpExchange) (trace : Trace) (call : Call) (runtime : SecureRuntime δ)
      (hx : s.exchanges[x]? = some e) (htrace : e.trace = some trace)
      (hdispatched : trace.dispatched = true) (hscope : call.scope = some x)
      (hstep : s.runtime.step setup.rt (.invoke call) = some runtime)
      (hlabel : ∃ name args caller request uuid, l = .invoke x name args caller request uuid) :
      Effect setup s l ({ s with runtime }.setExchange x
        { e with
          phase := .admitted { trace with
            invocations := trace.invocations ++ [s.runtime.invocations.length] } })
  | observed (x : Nat) (e : HttpExchange) (trace : Trace) (event : AuditEvent)
      (hx : s.exchanges[x]? = some e) (htrace : e.trace = some trace)
      (hdispatched : trace.dispatched = true) (hkind : event.kind = some .protocol)
      (hlabel : ∃ outcome, l = .observe x outcome) :
      Effect setup s l ((s.write event (some x)).setExchange x
        { e with phase := .admitted { trace with observed := trace.observed ++ [s.nextWrite] } })
  | closing (runtime : SecureRuntime δ) (closing : Bool) (shutdown : Option HttpClosing)
      (hruntime : runtime = s.runtime ∨ ∃ label, (label = .close ∨ label = .execution .close) ∧
        s.runtime.step setup.rt label = some runtime)
      (hclosing : s.closing = true → closing = true) (hlabel : l = .close ∨ ∃ ok, l = .closeNext ok) :
      Effect setup s l { s with runtime, closing, shutdown }
  | runtime (label : SecureRuntime.Label δ) (runtime : SecureRuntime δ)
      (hlabel : l = .runtime label) (hforeign : isForeign label = true)
      (hstep : s.runtime.step setup.rt label = some runtime) : Effect setup s l { s with runtime }

variable {setup : HttpSetup} {s s' : HttpServer δ} {l : Label δ}

/-! ## Each function -/

theorem admitted_of_trace {e : HttpExchange} {trace : Trace} (h : e.trace = some trace) :
    e.phase = .admitted trace := by
  unfold HttpExchange.trace at h
  split at h
  · next hphase => rw [hphase, Option.some.inj h]
  · exact absurd h (by simp)

theorem hasSettled_iff {i : Nat} : s.hasSettled i = true ↔ s.runtime.Settled i := by
  unfold hasSettled SecureRuntime.Settled
  cases s.runtime.audit.writes[i]? with
  | none => simp
  | some w => simp

/-- The dispatcher has settled this write: the two ways in which its `await` goes on. -/
theorem delivery_cases {α : Type} {write : Nat} {f g : Option α} {a : α}
    (h : (do
      let w ← s.runtime.audit.writes[write]?
      match w.delivery with
      | .fulfilled => f
      | .rejected => g
      | _ => none) = some a) :
    (s.runtime.Delivered write .fulfilled ∧ f = some a) ∨
      (s.runtime.Delivered write .rejected ∧ g = some a) := by
  obtain ⟨w, hw, h⟩ := Option.bind_eq_some_iff.mp h
  split at h
  · next hdelivery => exact Or.inl ⟨⟨w, hw, hdelivery⟩, h⟩
  · next hdelivery => exact Or.inr ⟨⟨w, hw, hdelivery⟩, h⟩
  · exact absurd h (by simp)

theorem listen_effect (request : HttpRequest) : Effect setup s l (s.listen setup request) := by
  unfold listen
  split
  · exact .counted _
  · next endpoint _ =>
      split
      · exact .counted _
      · next hbound => exact .listened request endpoint (by omega)
  · exact .counted s.counters

theorem verified_effect {x : Nat} {principal : Option Principal} {uuid : JsString}
    (h : s.verified setup x principal uuid = some s') : Effect setup s l s' := by
  obtain ⟨e, hx, h⟩ := Option.bind_eq_some_iff.mp h
  split at h
  · next hphase =>
      dsimp only at h
      cases principal with
      | none =>
          dsimp only at h
          split at h
          · exact Option.some.inj h ▸ .refused x e e.response none s.counters hx hphase
          · exact Option.some.inj h ▸ .refused x e _ _ _ hx hphase
      | some principal =>
          dsimp only at h
          split at h
          · exact Option.some.inj h ▸ .refused x e e.response none s.counters hx hphase
          · next hdestroyed =>
            split at h
            · exact Option.some.inj h ▸ .refused x e _ _ _ hx hphase
            · next hopen =>
                split at h
                · exact Option.some.inj h ▸ .refused x e _ _ _ hx hphase
                · next hhealthy =>
                    split at h
                    · exact Option.some.inj h ▸ .refused x e _ _ _ hx hphase
                    · next hcapacity =>
                        exact Option.some.inj h ▸ .admitted x e principal uuid hx hphase
                          (by simpa using hdestroyed) (by simpa using hopen) (by simpa using hhealthy) (by omega)
  · exact absurd h (by simp)

theorem received_effect {x : Nat} (h : s.received x = some s') : Effect setup s l s' := by
  obtain ⟨e, hx, h⟩ := Option.bind_eq_some_iff.mp h
  obtain ⟨trace, htrace, h⟩ := Option.bind_eq_some_iff.mp h
  split at h
  · next write hdelivery =>
      rcases delivery_cases h with ⟨hwrite, h⟩ | ⟨hwrite, h⟩
      · refine Option.some.inj h ▸ .moved x e trace _ _ hx htrace
          (.delivered write _ hdelivery hwrite ?_) Or.inl
        split
        · exact Or.inr rfl
        · exact Or.inl rfl
      · exact Option.some.inj h ▸ .moved x e trace _ _ hx htrace
          (.caught (Or.inl ⟨write, hdelivery, hwrite⟩)) Or.inl
  · exact absurd h (by simp)

theorem adapted_effect {x : Nat} {ok : Bool} (h : s.adapted x ok = some s') :
    Effect setup s l s' := by
  obtain ⟨e, hx, h⟩ := Option.bind_eq_some_iff.mp h
  obtain ⟨trace, htrace, h⟩ := Option.bind_eq_some_iff.mp h
  split at h
  · next hdelivery =>
      split at h
      · exact Option.some.inj h ▸ .moved x e trace _ _ hx htrace (.adapted hdelivery) Or.inl
      · exact Option.some.inj h ▸ .moved x e trace _ _ hx htrace (.caught (Or.inr hdelivery)) Or.inl
  · exact absurd h (by simp)

theorem fetch_effect {x : Nat} (h : s.fetch x = some s') : Effect setup s l s' := by
  obtain ⟨e, hx, h⟩ := Option.bind_eq_some_iff.mp h
  obtain ⟨trace, htrace, h⟩ := Option.bind_eq_some_iff.mp h
  split at h
  · next hdelivery hfetch =>
      split at h
      · exact Option.some.inj h ▸ .responding x e trace _ hx htrace (Or.inl ⟨hdelivery, hfetch⟩)
      · split at h
        · exact Option.some.inj h ▸ .moved x e trace _ _ hx htrace (.reading hdelivery hfetch) Or.inl
        · exact Option.some.inj h ▸ .moved x e trace _ _ hx htrace
            (.handling (Or.inr ⟨hdelivery, hfetch⟩)) Or.inl
  · exact absurd h (by simp)

theorem text_effect {x : Nat} {batch : Option Bool} (h : s.text x batch = some s') :
    Effect setup s l s' := by
  obtain ⟨e, hx, h⟩ := Option.bind_eq_some_iff.mp h
  obtain ⟨trace, htrace, h⟩ := Option.bind_eq_some_iff.mp h
  split at h
  · next hfetch =>
      split at h
      · exact Option.some.inj h ▸ .moved x e trace _ _ hx htrace (.fetchFailed (Or.inl hfetch)) Or.inl
      · exact Option.some.inj h ▸ .responding x e trace _ hx htrace (Or.inr (Or.inl hfetch))
      · exact Option.some.inj h ▸ .moved x e trace _ _ hx htrace (.handling (Or.inl hfetch)) Or.inl
  · exact absurd h (by simp)

theorem fetched_effect {x : Nat} {status : Option Nat} (h : s.fetched x status = some s') :
    Effect setup s l s' := by
  obtain ⟨e, hx, h⟩ := Option.bind_eq_some_iff.mp h
  obtain ⟨trace, htrace, h⟩ := Option.bind_eq_some_iff.mp h
  split at h
  · next hfetch =>
      split at h
      · exact Option.some.inj h ▸ .moved x e trace _ _ hx htrace
          (.fetchFailed (Or.inr (Or.inl hfetch))) Or.inl
      · exact Option.some.inj h ▸ .responding x e trace _ hx htrace (Or.inr (Or.inr hfetch))
  · exact absurd h (by simp)

theorem responded_effect {x : Nat} (h : s.responded x = some s') : Effect setup s l s' := by
  obtain ⟨e, hx, h⟩ := Option.bind_eq_some_iff.mp h
  obtain ⟨trace, htrace, h⟩ := Option.bind_eq_some_iff.mp h
  split at h
  · next write status hfetch =>
      rcases delivery_cases h with ⟨hwrite, h⟩ | ⟨hwrite, h⟩
      · exact Option.some.inj h ▸ .moved x e trace _ _ hx htrace (.passed write status hfetch hwrite)
          Or.inl
      · exact Option.some.inj h ▸ .moved x e trace _ _ hx htrace
          (.fetchFailed (Or.inr (Or.inr ⟨write, status, hfetch, hwrite⟩))) Or.inl
  · exact absurd h (by simp)

theorem sendHead_effect {x : Nat} {own : Option Nat} (h : s.sendHead x own = some s') :
    Effect setup s l s' := by
  obtain ⟨e, hx, h⟩ := Option.bind_eq_some_iff.mp h
  obtain ⟨trace, htrace, h⟩ := Option.bind_eq_some_iff.mp h
  split at h
  · next hguard =>
      simp only [Bool.and_eq_true, decide_eq_true_eq, Bool.not_eq_true'] at hguard
      obtain ⟨head, hhead, h⟩ := Option.bind_eq_some_iff.mp h
      exact Option.some.inj h ▸ .moved x e trace _ _ hx htrace
        (.head own head hguard.1 hguard.2 hhead) Or.inl
  · exact absurd h (by simp)

/-- A step of the response that no listener of an admitted request sees. -/
private theorem response_effect {x : Nat} {e : HttpExchange} {response : HttpResponse}
    (hx : s.exchanges[x]? = some e)
    (hmoves : ∀ trace, e.trace = some trace → Moves s e trace response trace)
    (hkept : Untouched e.response → Untouched response)
    (hclosed : response.closed = true → e.response.closed = true) :
    Effect setup s l (s.setExchange x { e with response }) := by
  cases htrace : e.trace with
  | none => exact .untraced x e response hx htrace hkept
  | some trace =>
      have heta : ({ e with response } : HttpExchange) =
          { e with response, phase := .admitted trace } := by
        rw [← admitted_of_trace htrace]
      rw [heta]
      exact .moved x e trace trace response hx htrace (hmoves trace htrace) (fun h => Or.inl (hclosed h))

theorem sendEnd_effect {x : Nat} (h : s.sendEnd x = some s') : Effect setup s l s' := by
  obtain ⟨e, hx, h⟩ := Option.bind_eq_some_iff.mp h
  obtain ⟨trace, htrace, h⟩ := Option.bind_eq_some_iff.mp h
  split at h
  · next hdelivery =>
      refine Option.some.inj h ▸ response_effect hx (fun trace' htrace' => ?_) id id
      obtain rfl := Option.some.inj (htrace.symm.trans htrace')
      exact .ended hdelivery
  · exact absurd h (by simp)

theorem finish_effect {x : Nat} (h : s.finish x = some s') : Effect setup s l s' := by
  obtain ⟨e, hx, h⟩ := Option.bind_eq_some_iff.mp h
  split at h
  · next hguard =>
      simp only [Bool.and_eq_true, Bool.not_eq_true'] at hguard
      exact Option.some.inj h ▸ response_effect hx (fun _ _ => .finished hguard.2) id id
  · exact absurd h (by simp)

theorem destroy_effect {x : Nat} (h : s.destroy x = some s') : Effect setup s l s' := by
  obtain ⟨e, hx, h⟩ := Option.bind_eq_some_iff.mp h
  exact Option.some.inj h ▸ response_effect hx (fun _ _ => .destroyed)
    (fun huntouched => ⟨huntouched.1, fun hd => absurd hd (by simp)⟩) id

theorem closed_effect {x : Nat} (h : s.closed x = some s') : Effect setup s (.closed x) s' := by
  obtain ⟨e, hx, h⟩ := Option.bind_eq_some_iff.mp h
  split at h
  · exact absurd h (by simp)
  · next hopen =>
      dsimp only at h
      split at h
      · next trace hphase =>
          exact Option.some.inj h ▸ .moved x e trace _ _ hx (by simp [HttpExchange.trace, hphase])
            (.closed (by simpa using hopen)) (fun _ => Or.inr rfl)
      · next hphase =>
          refine Option.some.inj h ▸ .untraced x e _ hx ?_
            (fun huntouched => ⟨huntouched.1, fun hd => absurd hd (by simp)⟩)
          unfold HttpExchange.trace
          split
          · next trace htrace => exact absurd htrace (hphase trace)
          · rfl

theorem expire_effect {x : Nat} (h : s.expire x = some s') : Effect setup s l s' := by
  obtain ⟨e, hx, h⟩ := Option.bind_eq_some_iff.mp h
  obtain ⟨trace, htrace, h⟩ := Option.bind_eq_some_iff.mp h
  split at h
  · next htimer =>
      exact Option.some.inj h ▸ .moved x e trace _ _ hx htrace (.expired htimer) Or.inl
  · exact absurd h (by simp)

theorem settle_effect {x : Nat} {e : HttpExchange} {trace : Trace}
    (hx : s.exchanges[x]? = some e) (htrace : e.trace = some trace) (hready : Ready trace) :
    Effect setup s l (s.settle x e trace) := by
  unfold settle
  split
  · next hsettled => exact .attempted x e trace hx htrace hready hsettled
  · next snapshot _ =>
      refine .moved x e trace _ _ hx htrace (.settling _ hready (fun i hi => ?_)) Or.inl
      exact List.mem_range.mp (List.mem_filter.mp hi).1

theorem terminal_effect {x : Nat} (h : s.terminal x = some s') : Effect setup s l s' := by
  obtain ⟨e, hx, h⟩ := Option.bind_eq_some_iff.mp h
  obtain ⟨trace, htrace, h⟩ := Option.bind_eq_some_iff.mp h
  split at h
  · next hending =>
      split at h
      · next hclosed =>
          exact Option.some.inj h ▸ .moved x e trace _ _ hx htrace (.awaiting hending hclosed) Or.inl
      · exact absurd h (by simp)
  · next hending =>
      split at h
      · next hdelivery =>
          exact Option.some.inj h ▸ settle_effect hx htrace (Or.inl ⟨hending, hdelivery⟩)
      · exact absurd h (by simp)
  · next snapshot hending =>
      split at h
      · exact Option.some.inj h ▸ settle_effect hx htrace (Or.inr ⟨snapshot, hending⟩)
      · exact absurd h (by simp)
  · next write hending =>
      split at h
      · next hsettled =>
          exact Option.some.inj h ▸
            .released x e trace write hx htrace hending (hasSettled_iff.mp hsettled)
      · exact absurd h (by simp)
  · exact absurd h (by simp)

theorem invoke_effect {x : Nat} {name : JsString} {args : Graph} {caller : Option Thrown}
    {request : Option Nat} {uuid : JsString}
    (h : s.invoke setup x name args caller request uuid = some s') :
    Effect setup s (.invoke x name args caller request uuid) s' := by
  obtain ⟨e, hx, h⟩ := Option.bind_eq_some_iff.mp h
  obtain ⟨trace, htrace, h⟩ := Option.bind_eq_some_iff.mp h
  split at h
  · next hdispatched =>
      obtain ⟨runtime, hstep, h⟩ := Option.bind_eq_some_iff.mp h
      exact Option.some.inj h ▸ .invoked x e trace _ runtime hx htrace hdispatched rfl hstep
        ⟨_, _, _, _, _, rfl⟩
  · exact absurd h (by simp)

theorem observe_effect {x : Nat} {outcome : Outcome} (h : s.observe x outcome = some s') :
    Effect setup s (.observe x outcome) s' := by
  obtain ⟨e, hx, h⟩ := Option.bind_eq_some_iff.mp h
  obtain ⟨trace, htrace, h⟩ := Option.bind_eq_some_iff.mp h
  split at h
  · next hdispatched =>
      exact Option.some.inj h ▸ .observed x e trace _ hx htrace hdispatched rfl ⟨outcome, rfl⟩
  · exact absurd h (by simp)

theorem close_effect : Effect setup s .close s.close := by
  unfold close
  cases s.shutdown with
  | some _ => exact .counted s.counters
  | none =>
      exact .closing _ _ _ (Or.inr ⟨.execution .close, Or.inr rfl, rfl⟩) (fun _ => rfl) (Or.inl rfl)

theorem closeNext_effect {ok : Bool} (h : s.closeNext ok = some s') :
    Effect setup s (.closeNext ok) s' := by
  have hlabel : (.closeNext ok : Label δ) = .close ∨ ∃ ok', (.closeNext ok : Label δ) = .closeNext ok' :=
    Or.inr ⟨ok, rfl⟩
  obtain ⟨shutdown, _, h⟩ := Option.bind_eq_some_iff.mp h
  cases shutdown with
  | awaitingExecution k =>
      obtain ⟨returned, _, h⟩ := Option.bind_eq_some_iff.mp h
      obtain ⟨_, _, h⟩ := Option.bind_eq_some_iff.mp h
      exact Option.some.inj h ▸ .closing s.runtime s.closing _ (Or.inl rfl) id hlabel
  | awaitingHandler =>
      exact Option.some.inj h ▸ .closing s.runtime s.closing _ (Or.inl rfl) id hlabel
  | awaitingStopped =>
      exact Option.some.inj h ▸ .closing s.runtime s.closing _ (Or.inl rfl) id hlabel
  | awaitingTerminals snapshot =>
      dsimp only at h
      split at h
      · exact Option.some.inj h ▸ .closing _ s.closing _ (Or.inr ⟨.close, Or.inl rfl, rfl⟩) id
          hlabel
      · exact absurd h (by simp)
  | _ => exact absurd h (by simp)

theorem step_effect (h : s.step setup l = some s') : Effect setup s l s' := by
  cases l with
  | listen request => exact Option.some.inj h ▸ listen_effect request
  | verified x principal uuid => exact verified_effect h
  | received x => exact received_effect h
  | adapted x ok => exact adapted_effect h
  | fetch x => exact fetch_effect h
  | text x batch => exact text_effect h
  | fetched x status => exact fetched_effect h
  | responded x => exact responded_effect h
  | sendHead x own => exact sendHead_effect h
  | sendEnd x => exact sendEnd_effect h
  | finish x => exact finish_effect h
  | destroy x => exact destroy_effect h
  | closed x => exact closed_effect h
  | expire x => exact expire_effect h
  | terminal x => exact terminal_effect h
  | invoke x name args caller request uuid => exact invoke_effect h
  | observe x outcome => exact observe_effect h
  | close => exact Option.some.inj h ▸ close_effect
  | closeNext ok => exact closeNext_effect h
  | runtime label =>
      simp only [step] at h
      split at h
      · next hforeign =>
          obtain ⟨runtime, hstep, rfl⟩ := Option.map_eq_some_iff.mp h
          exact .runtime label runtime rfl hforeign hstep
      · exact absurd h (by simp)

end HttpServer

end SecureMcp
