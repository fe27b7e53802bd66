import SecureMcp.Runtime.Evidence
import SecureMcp.Server.Transport

set_option autoImplicit false

/-! # No unaudited outcome reaches the client

The wrapper around `send` and `invoke` share one flag, `toolOutcomeRecorded`, and the guarantee rests
on both: an error leaves only after the wrapper's own record or, where the flag is set, after a
terminal record of a call of the same request. The proof follows every call of `send` through its
phases (`Gate`), over a runtime that is only known to make steps of its own (`Leads`). -/

namespace SecureMcp

variable {δ : Type}

/-- The outcome the wrapper records for this message, when it records one. -/
def Message.outcome : Message → Option Outcome
  | .error _ code _ _ => some (protocolOutcome code)
  | .result _ value => if value.isErrorTrue then some .tool_rejected else none
  | .other _ => none

theorem errorResult_isErrorTrue (outcome : Outcome) : (errorResult outcome).isErrorTrue = true :=
  rfl

/-- The record a call of `send` rests on or waits for. -/
def SendPhase.write : SendPhase → Option Nat
  | .auditing write | .replaced write | .dropped write => some write
  | .passed write => write

namespace AuditedMcpServer

/-- What went to the transport from one call of `send`. -/
def deliveries (passed : List (Nat × Message)) (k : Nat) : List Message :=
  (passed.filter (fun entry => entry.1 == k)).map Prod.snd

/-- The server-side id of a request. -/
def serverSideId (server : ServerSetup) (r : SecureRuntime δ) (q : Nat) : Option JsString :=
  (r.requests[q]?).map (fun context => server.requestId.getD context.requestId)

/-- A record of this outcome and with this request id is acknowledged. -/
def Recorded (r : SecureRuntime δ) (requestId : JsString) (outcome : Outcome) : Prop :=
  ∃ (write : Nat) (w : Write AuditEvent), r.audit.writes[write]? = some w ∧
    w.event.requestId = requestId ∧ w.event.outcome = outcome ∧ w.delivery = .fulfilled

/-- The write of this number is the record that the wrapper makes for this message. -/
def Observes (server : ServerSetup) (r : SecureRuntime δ) (send : Send) (write : Nat) : Prop :=
  ∃ w, r.audit.writes[write]? = some w ∧ w.event.kind = some .protocol ∧
    send.message.outcome = some w.event.outcome ∧
    ∀ q, send.request = some q → serverSideId server r q = some w.event.requestId

/-- What must have been acknowledged before this message is passed on. -/
structure Cleared (server : ServerSetup) (s : AuditedMcpServer δ) (send : Send) : Prop where
  error : ∀ id code text data, send.message = .error id code text data → ∃ requestId,
    Recorded s.runtime requestId (protocolOutcome code) ∧
      ∀ q, send.request = some q → serverSideId server s.runtime q = some requestId
  isError : ∀ id value, send.message = .result id value → value.isErrorTrue = true →
    ∃ q requestId outcome, send.request = some q ∧
      serverSideId server s.runtime q = some requestId ∧ Recorded s.runtime requestId outcome ∧
      (outcome = .tool_rejected ∨ Outcome.endsCall outcome = true)
  tool : ∀ x exchange id value, send.answers = some x → s.exchanges[x]? = some exchange →
    exchange.toolCall = true → send.message = .result id value → value.isErrorTrue = false →
    ∃ i inv isError, exchange.invocation = some i ∧ s.runtime.invocations[i]? = some inv ∧
      inv.call.request = some exchange.request ∧ value.isError = some isError ∧
      ∃ write, write ∈ inv.records ∧ s.runtime.Wrote inv write (resultOutcome isError) ∧
        s.runtime.Delivered write .fulfilled

/-- How far a call of `send` has come, and what the transport has got from it. -/
def Gate (r : SecureRuntime δ) (passed : List (Nat × Message)) (k : Nat) (send : Send) : Prop :=
  match send.phase with
  | .auditing _ => deliveries passed k = []
  | .passed none => deliveries passed k = [send.message]
  | .passed (some write) => deliveries passed k = [send.message] ∧ r.Delivered write .fulfilled
  | .replaced write => ∃ id, send.message.id = some id ∧
      deliveries passed k = [.auditUnavailable id] ∧ r.Delivered write .rejected
  | .dropped write => send.message.id = none ∧ deliveries passed k = [] ∧
      r.Delivered write .rejected

/-- A call of `send` in a request answers it, and every result answers a request. -/
def Addressed (exchanges : List Exchange) (send : Send) : Prop :=
  (∀ id value, send.message = .result id value → send.answers.isSome = true) ∧
    (send.answers = none → send.request = none) ∧
    ∀ x, send.answers = some x → ∃ exchange, exchanges[x]? = some exchange ∧
      send.request = some exchange.request ∧ send.message.id = some exchange.id

structure Gated (server : ServerSetup) (s : AuditedMcpServer δ) : Prop where
  range : ∀ (x : Nat) exchange, s.exchanges[x]? = some exchange →
    exchange.request < s.runtime.requests.length
  /-- Every call made in a request of this transport was made by its server. -/
  own : ∀ (x i : Nat) exchange inv, s.exchanges[x]? = some exchange →
    s.runtime.invocations[i]? = some inv → inv.call.request = some exchange.request →
    inv.call.requestId = server.requestId
  called : ∀ (x i : Nat) exchange, s.exchanges[x]? = some exchange →
    exchange.invocation = some i → ∃ inv, s.runtime.invocations[i]? = some inv ∧
      inv.call.request = some exchange.request
  sends : ∀ (k : Nat) send, s.sends[k]? = some send → Gate s.runtime s.passed k send ∧
    (∀ write, send.phase.write = some write → Observes server s.runtime send write) ∧
    Addressed s.exchanges send
  passed : ∀ entry ∈ s.passed, entry.1 < s.sends.length

variable {server : ServerSetup} {s s' : AuditedMcpServer δ} {r r' : SecureRuntime δ}

/-! ## What the transport has got -/

theorem deliveries_append (passed : List (Nat × Message)) (j k : Nat) (message : Message) :
    deliveries (passed ++ [(j, message)]) k =
      deliveries passed k ++ if j = k then [message] else [] := by
  unfold deliveries
  by_cases hjk : j = k <;> simp [List.filter_append, hjk]

theorem deliveries_append_ne (passed : List (Nat × Message)) {j k : Nat} (message : Message)
    (hne : j ≠ k) : deliveries (passed ++ [(j, message)]) k = deliveries passed k := by
  simp [deliveries_append, hne]

theorem deliveries_append_self (passed : List (Nat × Message)) (k : Nat) (message : Message) :
    deliveries (passed ++ [(k, message)]) k = deliveries passed k ++ [message] := by
  simp [deliveries_append]

/-- Nothing has come from a call of `send` that has not been made. -/
theorem Gated.deliveries_fresh (h : Gated server s) : deliveries s.passed s.sends.length = [] := by
  unfold deliveries
  rw [List.map_eq_nil_iff, List.filter_eq_nil_iff]
  intro entry hentry hlast
  have hlt := h.passed entry hentry
  rw [beq_iff_eq] at hlast
  omega

/-! ## While the runtime moves -/

theorem serverSideId_kept (hleads : (SecureRuntime.machine server.rt δ).Leads r r') {q : Nat}
    {requestId : JsString} (h : serverSideId server r q = some requestId) :
    serverSideId server r' q = some requestId := by
  obtain ⟨context, hq, hid⟩ := Option.map_eq_some_iff.mp h
  obtain ⟨context', hq', hsame⟩ := SecureRuntime.request_of_leads hleads hq
  exact Option.map_eq_some_iff.mpr ⟨context', hq', by rw [hsame]; exact hid⟩

theorem Observes.kept (hleads : (SecureRuntime.machine server.rt δ).Leads r r') {send : Send}
    {write : Nat} (h : Observes server r send write) : Observes server r' send write := by
  obtain ⟨w, hw, hkind, houtcome, hid⟩ := h
  obtain ⟨w', hw', hev⟩ := SecureRuntime.writesKept_of_leads hleads write w hw
  refine ⟨w', hw', by rw [hev.event]; exact hkind, by rw [hev.event]; exact houtcome, ?_⟩
  intro q hq
  rw [hev.event]
  exact serverSideId_kept hleads (hid q hq)

theorem Gate.kept (hleads : (SecureRuntime.machine server.rt δ).Leads r r')
    {passed : List (Nat × Message)} {k : Nat} {send : Send} (h : Gate r passed k send) :
    Gate r' passed k send := by
  have hkept := SecureRuntime.writesKept_of_leads hleads
  unfold Gate at h ⊢
  cases hphase : send.phase with
  | auditing write =>
      simp only [hphase] at h ⊢
      exact h
  | passed write =>
      cases write with
      | none =>
          simp only [hphase] at h ⊢
          exact h
      | some write =>
          simp only [hphase] at h ⊢
          exact ⟨h.1, h.2.kept hkept rfl⟩
  | replaced write =>
      simp only [hphase] at h ⊢
      obtain ⟨id, hid, hpassed, hdelivered⟩ := h
      exact ⟨id, hid, hpassed, hdelivered.kept hkept rfl⟩
  | dropped write =>
      simp only [hphase] at h ⊢
      exact ⟨h.1, h.2.1, h.2.2.kept hkept rfl⟩

/-- Calls made in requests of the transport are its server's. -/
def OwnCalls (server : ServerSetup) (exchanges : List Exchange) (call : Call) : Prop :=
  ∀ (x : Nat) exchange, exchanges[x]? = some exchange → call.request = some exchange.request →
    call.requestId = server.requestId

theorem Gated.move (h : Gated server s)
    (hleads : (SecureRuntime.machine server.rt δ).Leads s.runtime r)
    (hnew : ∀ (i : Nat) inv, r.invocations[i]? = some inv →
      (∃ old, s.runtime.invocations[i]? = some old ∧ inv.call = old.call) ∨
        OwnCalls server s.exchanges inv.call) : Gated server { s with runtime := r } := by
  refine ⟨fun x exchange hx => ?_, fun x i exchange inv hx hi hrequest => ?_,
    fun x i exchange hx hcall => ?_, fun k send hk => ?_, h.passed⟩
  · have hrange := h.range x exchange hx
    have hle := SecureRuntime.requests_le_of_leads hleads
    exact Nat.lt_of_lt_of_le hrange hle
  · rcases hnew i inv hi with ⟨old, hold, hcall⟩ | hown
    · rw [hcall] at hrequest ⊢
      exact h.own x i exchange old hx hold hrequest
    · exact hown x exchange hx hrequest
  · obtain ⟨inv, hi, hrequest⟩ := h.called x i exchange hx hcall
    obtain ⟨inv', hi', hgrows⟩ := SecureRuntime.grows_of_leads hleads hi
    exact ⟨inv', hi', by rw [hgrows.call]; exact hrequest⟩
  · obtain ⟨hgate, hobserves, haddressed⟩ := h.sends k send hk
    exact ⟨hgate.kept hleads, fun write hwrite => (hobserves write hwrite).kept hleads, haddressed⟩

/-- The row of an exchange moves on. -/
theorem Gated.setExchange (h : Gated server s) {x : Nat} {exchange exchange' : Exchange}
    (hx : s.exchanges[x]? = some exchange) (hid : exchange'.id = exchange.id)
    (hrequest : exchange'.request = exchange.request)
    (hcalled : ∀ i, exchange'.invocation = some i → ∃ inv, s.runtime.invocations[i]? = some inv ∧
      inv.call.request = some exchange.request) :
    Gated server { s with exchanges := s.exchanges.set x exchange' } := by
  refine ⟨Table.forall_set h.range (hrequest ▸ h.range x exchange hx), fun y i e inv hy => ?_,
    fun y i e hy => ?_, fun k send hk => ?_, h.passed⟩
  · rcases Table.getElem?_set_cases hy with ⟨_, rfl⟩ | ⟨_, hold⟩
    · rw [hrequest]
      exact h.own x i exchange inv hx
    · exact h.own y i e inv hold
  · rcases Table.getElem?_set_cases hy with ⟨_, rfl⟩ | ⟨_, hold⟩
    · rw [hrequest]
      exact hcalled i
    · exact h.called y i e hold
  · obtain ⟨hgate, hobserves, hresult, hnone, hanswers⟩ := h.sends k send hk
    refine ⟨hgate, hobserves, hresult, hnone, fun y hy => ?_⟩
    obtain ⟨e, he, hsend, hmessage⟩ := hanswers y hy
    by_cases hyx : y = x
    · subst hyx
      obtain rfl := Option.some.inj (hx.symm.trans he)
      exact ⟨exchange', Table.getElem?_set_of_some hx, by rw [hrequest]; exact hsend,
        by rw [hid]; exact hmessage⟩
    · exact ⟨e, by rw [← he]; exact Table.getElem?_set_of_ne hyx, hsend, hmessage⟩

/-- A request is opened in a new context. -/
theorem Gated.addExchange (h : Gated server s) {exchange : Exchange}
    (hrange : exchange.request < s.runtime.requests.length)
    (hfresh : ∀ (i : Nat) inv, s.runtime.invocations[i]? = some inv →
      inv.call.request ≠ some exchange.request) (hinvocation : exchange.invocation = none) :
    Gated server { s with exchanges := s.exchanges ++ [exchange] } := by
  refine ⟨Table.forall_append h.range hrange, fun x i e inv hx hi hrequest => ?_,
    fun x i e hx hcall => ?_, fun k send hk => ?_, h.passed⟩
  · rcases Table.getElem?_append_cases hx with hold | ⟨_, rfl⟩
    · exact h.own x i e inv hold hi hrequest
    · exact absurd hrequest (hfresh i inv hi)
  · rcases Table.getElem?_append_cases hx with hold | ⟨_, rfl⟩
    · exact h.called x i e hold hcall
    · rw [hinvocation] at hcall
      exact absurd hcall (by simp)
  · obtain ⟨hgate, hobserves, hresult, hnone, hanswers⟩ := h.sends k send hk
    refine ⟨hgate, hobserves, hresult, hnone, fun y hy => ?_⟩
    obtain ⟨e, he, hsend, hmessage⟩ := hanswers y hy
    exact ⟨e, Table.getElem?_append_of_some he, hsend, hmessage⟩

/-! ## One call of `send` -/

theorem observation_outcome {message : Message} {request : Option Nat} {outcome : Outcome}
    (h : s.observation message request = some outcome) : message.outcome = some outcome := by
  cases message with
  | error id code text data => exact h
  | result id value =>
      simp only [observation] at h
      cases herror : value.isErrorTrue with
      | true =>
          simp only [herror, Bool.true_and] at h
          split at h
          · simp only [Message.outcome, herror, if_true]
            exact h
          · exact absurd h (by simp)
      | false => simp [herror] at h
  | other id => exact absurd h (by simp [observation])

/-- The wrapper's record carries the id of the request it runs in. -/
theorem protocolEvent_requestId {q : Nat} {context : AuditRequestContext} (outcome : Outcome)
    (uuid : JsString) (hq : s.runtime.requests[q]? = some context) :
    serverSideId server s.runtime q =
      some (s.protocolEvent server outcome (some q) uuid).requestId := by
  simp only [serverSideId, protocolEvent, hq, Option.map_some, Option.bind_some, auditContext]
  cases server.requestId <;> rfl

theorem send_leads (server : ServerSetup) (s : AuditedMcpServer δ) (message : Message) (request answers : Option Nat) (uuid : JsString) :
    (SecureRuntime.machine server.rt δ).Leads s.runtime
      (s.send server message request answers uuid).runtime := by
  unfold send
  cases s.observation message request with
  | none => exact Machine.Leads.refl _
  | some outcome => exact Machine.Leads.single (l := .audit (.write _ _)) rfl

theorem send_exchanges (message : Message) (request answers : Option Nat) (uuid : JsString) :
    (s.send server message request answers uuid).exchanges = s.exchanges := by
  unfold send
  cases s.observation message request <;> rfl

theorem send_invocations (message : Message) (request answers : Option Nat) (uuid : JsString) :
    (s.send server message request answers uuid).runtime.invocations = s.runtime.invocations := by
  unfold send
  cases s.observation message request <;> rfl

/-- A new call of `send`: the other ones are left alone. -/
theorem Gated.addSend (h : Gated server s) {passed : List (Nat × Message)} {send : Send}
    (hothers : ∀ k, k < s.sends.length → deliveries passed k = deliveries s.passed k)
    (hgate : Gate s.runtime passed s.sends.length send)
    (hobserves : ∀ write, send.phase.write = some write → Observes server s.runtime send write)
    (haddressed : Addressed s.exchanges send)
    (hrange : ∀ entry ∈ passed, entry ∈ s.passed ∨ entry.1 = s.sends.length) :
    Gated server { s with sends := s.sends ++ [send], passed := passed } := by
  refine ⟨h.range, h.own, h.called, fun k b hk => ?_, fun entry hentry => ?_⟩
  · rcases Table.getElem?_append_cases hk with hold | ⟨rfl, rfl⟩
    · obtain ⟨hb, hrest⟩ := h.sends k b hold
      have hsame := hothers k (Table.lt_of_getElem? hold)
      refine ⟨?_, hrest⟩
      unfold Gate at hb ⊢
      rw [hsame]
      exact hb
    · exact ⟨hgate, hobserves, haddressed⟩
  · rw [List.length_append, List.length_singleton]
    rcases hrange entry hentry with hold | hlast
    · have := h.passed entry hold
      omega
    · omega

theorem Gated.send (h : Gated server s) {message : Message} {request answers : Option Nat}
    (uuid : JsString) (haddressed : ∀ phase, Addressed s.exchanges
      { message, request, phase, answers }) :
    Gated server (s.send server message request answers uuid) := by
  have hleads := send_leads server s message request answers uuid
  unfold AuditedMcpServer.send at hleads ⊢
  cases hobservation : s.observation message request with
  | none =>
      refine h.addSend (fun k hk => deliveries_append_ne _ _ (by omega)) ?_ (by simp [SendPhase.write])
        (haddressed _) (fun entry hentry => ?_)
      · simp only [Gate, deliveries_append_self, h.deliveries_fresh, List.nil_append]
      · rcases List.mem_append.mp hentry with hold | hnew
        · exact Or.inl hold
        · rw [List.mem_singleton.mp hnew]
          exact Or.inr rfl
  | some outcome =>
      simp only [hobservation] at hleads
      have hmoved := h.move hleads (fun i inv hi => Or.inl ⟨inv, hi, rfl⟩)
      refine hmoved.addSend (fun k _ => rfl) h.deliveries_fresh (fun write hwrite => ?_)
        (haddressed _) (fun entry hentry => Or.inl hentry)
      obtain rfl := Option.some.inj hwrite
      obtain ⟨w, hwrites, hevent, _⟩ := AuditDispatcher.write_row s.runtime.audit
        (s.protocolEvent server outcome request uuid) server.scope
      refine ⟨w, ?_, by rw [hevent]; rfl, ?_, fun q hq => ?_⟩
      · simp only [hwrites]
        exact List.getElem?_concat_length
      · rw [hevent]
        exact observation_outcome hobservation
      · -- a call of `send` in a request is one that answers an exchange
        obtain rfl : request = some q := hq
        obtain ⟨_, hnone, hanswers⟩ := haddressed (.passed none)
        cases answers with
        | none => exact absurd (hnone rfl) (by simp)
        | some x =>
            obtain ⟨exchange, hx, hsend, _⟩ := hanswers x rfl
            obtain rfl := Option.some.inj hsend
            have hlt := h.range x exchange hx
            rw [hevent]
            exact protocolEvent_requestId outcome uuid (List.getElem?_eq_getElem hlt)

/-- The record that a call of `send` waits for settles. -/
theorem Gated.setSend (h : Gated server s) {k : Nat} {send : Send} {phase : SendPhase}
    {passed : List (Nat × Message)} (hk : s.sends[k]? = some send)
    (hothers : ∀ j, j ≠ k → deliveries passed j = deliveries s.passed j)
    (hgate : Gate s.runtime passed k { send with phase })
    (hwrite : phase.write = send.phase.write)
    (hrange : ∀ entry ∈ passed, entry ∈ s.passed ∨ entry.1 = k) :
    Gated server { s with sends := s.sends.set k { send with phase }, passed := passed } := by
  obtain ⟨_, hobserves, haddressed⟩ := h.sends k send hk
  refine ⟨h.range, h.own, h.called, ?_, fun entry hentry => ?_⟩
  · refine Table.forall_set_of_ne (fun j b hne hj => ?_) ⟨hgate, ?_, haddressed⟩
    · obtain ⟨hb, hrest⟩ := h.sends j b hj
      refine ⟨?_, hrest⟩
      unfold Gate at hb ⊢
      rw [hothers j hne]
      exact hb
    · intro write hphase
      exact hobserves write (by rw [← hwrite]; exact hphase)
  · rw [List.length_set]
    rcases hrange entry hentry with hold | hlast
    · exact h.passed entry hold
    · have := Table.lt_of_getElem? hk
      omega

/-- What the wrapper does once its record has settled. -/
inductive Passes (s : AuditedMcpServer δ) (k : Nat) : AuditedMcpServer δ → Prop
  | forwarded (send : Send) (write : Nat) (hk : s.sends[k]? = some send)
      (hphase : send.phase = .auditing write) (hwrite : s.runtime.Delivered write .fulfilled) :
      Passes s k { s with
        sends := s.sends.set k { send with phase := .passed (some write) }
        passed := s.passed ++ [(k, send.message)] }
  | replaced (send : Send) (write : Nat) (id : RpcId) (hk : s.sends[k]? = some send)
      (hphase : send.phase = .auditing write) (hwrite : s.runtime.Delivered write .rejected)
      (hid : send.message.id = some id) :
      Passes s k { s with
        sends := s.sends.set k { send with phase := .replaced write }
        passed := s.passed ++ [(k, .auditUnavailable id)] }
  | dropped (send : Send) (write : Nat) (hk : s.sends[k]? = some send)
      (hphase : send.phase = .auditing write) (hwrite : s.runtime.Delivered write .rejected)
      (hid : send.message.id = none) :
      Passes s k { s with sends := s.sends.set k { send with phase := .dropped write } }

theorem audited_passes {k : Nat} (h : s.audited k = some s') : Passes s k s' := by
  obtain ⟨send, hk, h⟩ := Option.bind_eq_some_iff.mp h
  cases hphase : send.phase with
  | auditing write =>
      simp only [hphase] at h
      obtain ⟨w, hw, h⟩ := Option.bind_eq_some_iff.mp h
      cases hdelivery : w.delivery with
      | fulfilled =>
          simp only [hdelivery] at h
          exact Option.some.inj h ▸ .forwarded send write hk hphase ⟨w, hw, hdelivery⟩
      | rejected =>
          simp only [hdelivery] at h
          cases hid : send.message.id with
          | some id =>
              simp only [hid] at h
              exact Option.some.inj h ▸ .replaced send write id hk hphase ⟨w, hw, hdelivery⟩ hid
          | none =>
              simp only [hid] at h
              exact Option.some.inj h ▸ .dropped send write hk hphase ⟨w, hw, hdelivery⟩ hid
      | _ => simp [hdelivery] at h
  | _ => simp [hphase] at h

/-- A waiting call has sent nothing yet. -/
theorem Gated.waiting (h : Gated server s) {k : Nat} {send : Send} {write : Nat}
    (hk : s.sends[k]? = some send) (hphase : send.phase = .auditing write) :
    deliveries s.passed k = [] ∧ Observes server s.runtime send write := by
  obtain ⟨hgate, hobserves, _⟩ := h.sends k send hk
  unfold Gate at hgate
  rw [hphase] at hgate
  exact ⟨hgate, hobserves write (by rw [hphase]; rfl)⟩

theorem Gated.passes (h : Gated server s) {k : Nat} (hpasses : Passes s k s') : Gated server s' := by
  have hentry : ∀ message, ∀ entry ∈ s.passed ++ [(k, message)], entry ∈ s.passed ∨ entry.1 = k := by
    intro message entry hmem
    rcases List.mem_append.mp hmem with hold | hnew
    · exact Or.inl hold
    · rw [List.mem_singleton.mp hnew]
      exact Or.inr rfl
  cases hpasses with
  | forwarded send write hk hphase hwrite =>
      refine h.setSend hk (fun j hne => deliveries_append_ne _ _ (Ne.symm hne)) ⟨?_, hwrite⟩
        (by rw [hphase]; rfl) (hentry _)
      rw [deliveries_append_self, (h.waiting hk hphase).1, List.nil_append]
  | replaced send write id hk hphase hwrite hid =>
      refine h.setSend hk (fun j hne => deliveries_append_ne _ _ (Ne.symm hne)) ⟨id, hid, ?_, hwrite⟩
        (by rw [hphase]; rfl) (hentry _)
      rw [deliveries_append_self, (h.waiting hk hphase).1, List.nil_append]
  | dropped send write hk hphase hwrite hid =>
      exact h.setSend hk (fun _ _ => rfl) ⟨hid, (h.waiting hk hphase).1, hwrite⟩
        (by rw [hphase]; rfl) (fun entry hmem => Or.inl hmem)

theorem addressed_answer {exchanges : List Exchange} {x : Nat} {exchange : Exchange}
    {message : Message} (hx : exchanges[x]? = some exchange) (hid : message.id = some exchange.id)
    (phase : SendPhase) :
    Addressed exchanges { message, request := some exchange.request, phase, answers := some x } := by
  refine ⟨fun _ _ _ => rfl, fun hnone => absurd hnone (by simp), fun y hy => ?_⟩
  obtain rfl := Option.some.inj hy
  exact ⟨exchange, hx, rfl, hid⟩

/-! ## Every step -/

/-- A request is opened in a context of its own: no call runs in it yet. -/
theorem Gated.opened (h : Gated server s) (hrequests : SecureRuntime.Requests s.runtime)
    (rest : List Incoming) (exchange : Exchange) (uuid : JsString)
    (hrequest : exchange.request = s.runtime.requests.length)
    (hinvocation : exchange.invocation = none) : Gated server (s.opened rest exchange uuid) := by
  have hmoved : Gated server { s with runtime :=
      { s.runtime with requests := s.runtime.requests ++ [{ requestId := uuid }] } } :=
    h.move (Machine.Leads.single (l := .openRequest uuid) rfl)
      (fun i inv hi => Or.inl ⟨inv, hi, rfl⟩)
  have hadded := hmoved.addExchange (by simp [hrequest]) (fun i inv hi hcall => ?_) hinvocation
  · exact ⟨hadded.range, hadded.own, hadded.called, hadded.sends, hadded.passed⟩
  · obtain ⟨context, hq, _⟩ := hrequests.named i inv _ hi hcall
    have hlt := Table.lt_of_getElem? hq
    omega

theorem opened_leads (rest : List Incoming) (exchange : Exchange) (uuid : JsString) :
    (SecureRuntime.machine server.rt δ).Leads s.runtime (s.opened rest exchange uuid).runtime :=
  Machine.Leads.single (l := .openRequest uuid) rfl

theorem Gated.deliver (h : Gated server s) (hrequests : SecureRuntime.Requests s.runtime)
    {uuid : JsString} (hstep : s.deliver server uuid = some s') : Gated server s' := by
  have hskip : ∀ rest, Gated server { s with incoming := rest } :=
    fun _ => ⟨h.range, h.own, h.called, h.sends, h.passed⟩
  unfold AuditedMcpServer.deliver at hstep
  split at hstep
  · next message rest _ _ =>
      split at hstep
      · next method id _ _ =>
          have hopened := fun rejected => h.opened hrequests rest
            { id, rejected, toolCall := method == js "tools/call"
              request := s.runtime.requests.length } uuid rfl rfl
          dsimp only at hstep
          split at hstep
          · exact Option.some.inj hstep ▸ (hopened _).send uuid
              (addressed_answer List.getElem?_concat_length rfl)
          · exact Option.some.inj hstep ▸ hopened _
      · exact Option.some.inj hstep ▸ hskip rest
  · exact absurd hstep (by simp)

/-- The server itself calls `invoke`. -/
theorem Gated.ownCall (h : Gated server s) (call : Call) (hid : call.requestId = server.requestId)
    (hrequest : ∀ q, call.request = some q → q < s.runtime.requests.length) :
    Gated server { s with runtime := s.runtime.invoke server.rt call } ∧
      (SecureRuntime.machine server.rt δ).Leads s.runtime (s.runtime.invoke server.rt call) := by
  have hguard : call.request.all (fun q => decide (q < s.runtime.requests.length)) = true := by
    cases hq : call.request with
    | none => rfl
    | some q => simpa using hrequest q hq
  have hstep : (SecureRuntime.machine server.rt δ).step s.runtime (.invoke call) =
      some (s.runtime.invoke server.rt call) := if_pos hguard
  have hleads := Machine.Leads.single hstep
  refine ⟨h.move hleads (fun i inv hi => ?_), hleads⟩
  have he : SecureRuntime.Effect server.rt s.runtime (.invoke call) _ :=
    SecureRuntime.step_effect hstep
  rcases he.origin hi with ⟨old, hold, hgrows⟩ |
    ⟨call', hlabel, _, hsame, _⟩
  · exact Or.inl ⟨old, hold, hgrows.call⟩
  · refine Or.inr (fun y e _ _ => ?_)
    rw [hsame, ← SecureRuntime.Label.invoke.inj hlabel]
    exact hid

theorem Gated.invoke (h : Gated server s) {x : Nat} {name : JsString} {args : Graph}
    {caller : Option Thrown} {uuid : JsString}
    (hstep : s.invoke server x name args caller uuid = some s') :
    Gated server s' ∧ (SecureRuntime.machine server.rt δ).Leads s.runtime s'.runtime := by
  obtain ⟨exchange, hx, hstep⟩ := Option.bind_eq_some_iff.mp hstep
  split at hstep
  · have hmoved := h.ownCall
      { principal := server.identity, name, args, caller, requestId := server.requestId
        request := some exchange.request, scope := server.scope, uuid } rfl
      (fun q hq => Option.some.inj hq ▸ h.range x exchange hx)
    refine Option.some.inj hstep ▸ ⟨hmoved.1.setExchange hx rfl rfl (fun i hi => ?_), hmoved.2⟩
    obtain rfl := Option.some.inj hi
    obtain ⟨inv, hrows, hsame⟩ := SecureRuntime.invoke_row server.rt s.runtime
      { principal := server.identity, name, args, caller, requestId := server.requestId
        request := some exchange.request, scope := server.scope, uuid }
    refine ⟨inv, ?_, by rw [hsame]⟩
    simp only [hrows]
    exact List.getElem?_concat_length
  · exact absurd hstep (by simp)

/-- The SDK answers an exchange. -/
theorem Gated.answer (h : Gated server s) {x : Nat} {exchange : Exchange} {message : Message}
    (uuid : JsString) (hx : s.exchanges[x]? = some exchange) (hid : message.id = some exchange.id) :
    Gated server { s.send server message (some exchange.request) (some x) uuid with
      exchanges := (s.send server message (some exchange.request) (some x) uuid).exchanges.set x
        { exchange with responded := true } } := by
  have hsent := h.send uuid (addressed_answer hx hid)
  have hold : (s.send server message (some exchange.request) (some x) uuid).exchanges[x]? =
      some exchange := by
    rw [send_exchanges]
    exact hx
  refine hsent.setExchange hold rfl rfl (fun i hi => ?_)
  rw [send_invocations]
  exact h.called x i exchange hx hi

/-- Other code calls `invoke` in none of the requests of the transport. -/
theorem Gated.foreign (h : Gated server s) {label : SecureRuntime.Label δ} {r : SecureRuntime δ}
    (hforeign : s.isForeign label = true) (hstep : s.runtime.step server.rt label = some r) :
    Gated server { s with runtime := r } := by
  refine h.move (Machine.Leads.single (l := label) hstep) (fun i inv hi => ?_)
  rcases (SecureRuntime.step_effect hstep).origin hi with ⟨old, hold, hgrows⟩ |
    ⟨call, rfl, _, hsame, _⟩
  · exact Or.inl ⟨old, hold, hgrows.call⟩
  · refine Or.inr (fun x exchange hx hrequest => ?_)
    rw [hsame] at hrequest
    simp only [isForeign, hrequest, Option.all_some, Bool.not_eq_true', List.any_eq_false,
      beq_iff_eq] at hforeign
    exact absurd rfl (hforeign exchange (List.mem_of_getElem? hx))

theorem accepts_id {exchange : Exchange} {message : Message}
    (h : Exchange.accepts exchange message = true) : message.id = some exchange.id := by
  cases message with
  | error id code text data => simpa [Exchange.accepts, Message.id] using h
  | result id value =>
      simp only [Exchange.accepts, Bool.and_eq_true, beq_iff_eq] at h
      rw [Message.id, h.1]
  | other id => exact absurd h (by simp [Exchange.accepts])

/-- The two ways in which the SDK answers an exchange. -/
theorem respond_cases {x : Nat} {message : Message} {uuid : JsString}
    (h : s.respond server x message uuid = some s') :
    ∃ exchange, s.exchanges[x]? = some exchange ∧ Exchange.accepts exchange message = true ∧
      s' = { s.send server message (some exchange.request) (some x) uuid with
        exchanges := (s.send server message (some exchange.request) (some x) uuid).exchanges.set x
          { exchange with responded := true } } := by
  obtain ⟨exchange, hx, h⟩ := Option.bind_eq_some_iff.mp h
  split at h
  · next hguard =>
      rw [Bool.and_eq_true] at hguard
      exact ⟨exchange, hx, hguard.2, (Option.some.inj h).symm⟩
  · exact absurd h (by simp)

theorem respondTool_cases {x : Nat} {uuid : JsString} (h : s.respondTool server x uuid = some s') :
    ∃ exchange i inv outcome value, s.exchanges[x]? = some exchange ∧
      exchange.invocation = some i ∧ s.runtime.invocations[i]? = some inv ∧
      inv.caller = .answered outcome value ∧
      s' = { s.send server (.result exchange.id value) (some exchange.request) (some x) uuid with
        exchanges := (s.send server (.result exchange.id value) (some exchange.request) (some x)
          uuid).exchanges.set x { exchange with responded := true } } := by
  obtain ⟨exchange, hx, h⟩ := Option.bind_eq_some_iff.mp h
  obtain ⟨i, hinvocation, h⟩ := Option.bind_eq_some_iff.mp h
  obtain ⟨inv, hi, h⟩ := Option.bind_eq_some_iff.mp h
  cases hcaller : inv.caller with
  | answered outcome value =>
      simp only [hcaller] at h
      split at h
      · exact ⟨exchange, i, inv, outcome, value, hx, hinvocation, hi, hcaller,
          (Option.some.inj h).symm⟩
      · exact absurd h (by simp)
  | _ => simp [hcaller] at h

theorem deliver_leads {uuid : JsString} (hstep : s.deliver server uuid = some s') :
    (SecureRuntime.machine server.rt δ).Leads s.runtime s'.runtime := by
  unfold AuditedMcpServer.deliver at hstep
  split at hstep
  · split at hstep
    · dsimp only at hstep
      split at hstep
      · refine Option.some.inj hstep ▸ (opened_leads _ _ _).trans (send_leads server _ _ _ _ _)
      · exact Option.some.inj hstep ▸ opened_leads _ _ _
    · exact Option.some.inj hstep ▸ Machine.Leads.refl _
  · exact absurd hstep (by simp)

/-- The runtime makes steps of its own, and every call of `send` stays gated. -/
theorem Gated.step (h : Gated server s) (hrequests : SecureRuntime.Requests s.runtime) {l : Label δ}
    (hstep : s.step server l = some s') :
    Gated server s' ∧ (SecureRuntime.machine server.rt δ).Leads s.runtime s'.runtime := by
  cases l with
  | receive message =>
      obtain rfl := Option.some.inj hstep
      exact ⟨⟨h.range, h.own, h.called, h.sends, h.passed⟩, Machine.Leads.refl _⟩
  | start =>
      obtain rfl := Option.some.inj hstep
      exact ⟨⟨h.range, h.own, h.called, h.sends, h.passed⟩, Machine.Leads.refl _⟩
  | deliver uuid => exact ⟨h.deliver hrequests hstep, deliver_leads hstep⟩
  | invoke x name args caller uuid => exact h.invoke hstep
  | respond x message uuid =>
      obtain ⟨exchange, hx, haccepts, rfl⟩ := respond_cases hstep
      exact ⟨h.answer uuid hx (accepts_id haccepts), send_leads server s _ _ _ _⟩
  | respondTool x uuid =>
      obtain ⟨exchange, i, inv, outcome, value, hx, _, _, _, rfl⟩ := respondTool_cases hstep
      exact ⟨h.answer uuid hx rfl, send_leads server s _ _ _ _⟩
  | emit message uuid =>
      cases message with
      | result id value => exact absurd hstep (by simp [AuditedMcpServer.step])
      | error id code text data =>
          obtain rfl := Option.some.inj hstep
          exact ⟨h.send uuid (fun _ => ⟨by simp, fun _ => rfl, by simp⟩), send_leads server s _ _ _ _⟩
      | other id =>
          obtain rfl := Option.some.inj hstep
          exact ⟨h.send uuid (fun _ => ⟨by simp, fun _ => rfl, by simp⟩), send_leads server s _ _ _ _⟩
  | audited k =>
      have hpasses := audited_passes hstep
      exact ⟨h.passes hpasses, by cases hpasses <;> exact Machine.Leads.refl _⟩
  | runtime label =>
      simp only [AuditedMcpServer.step] at hstep
      split at hstep
      · next hforeign =>
          obtain ⟨r, hruntime, rfl⟩ := Option.map_eq_some_iff.mp hstep
          exact ⟨h.foreign hforeign hruntime, Machine.Leads.single hruntime⟩
      · exact absurd hstep (by simp)

/-- Over every run the runtime makes steps of its own, and every call of `send` is gated. -/
theorem gated_of_reachable (h : (machine server δ).Reachable s) :
    Gated server s ∧ (SecureRuntime.machine server.rt δ).Reachable s.runtime := by
  refine h.invariant (I := fun s => Gated server s ∧
    (SecureRuntime.machine server.rt δ).Reachable s.runtime) ⟨?_, Machine.reachable_init⟩ ?_
  · exact ⟨by simp [machine], by simp [machine], by simp [machine], by simp [machine],
      by simp [machine]⟩
  · rintro a l b _ ⟨hg, hr⟩ hstep
    obtain ⟨hgated, hleads⟩ := hg.step (.of_reachable hr) hstep
    exact ⟨hgated, hr.trans hleads⟩

/-! ## What stands behind a message that is passed on -/

/-- The wrapper's own record is acknowledged. -/
theorem Cleared.of_observed {send : Send} {write : Nat} (haddressed : Addressed s.exchanges send)
    (hobserves : Observes server s.runtime send write)
    (hdelivered : s.runtime.Delivered write .fulfilled) : Cleared server s send := by
  obtain ⟨w, hw, _, houtcome, hid⟩ := hobserves
  obtain ⟨w', hw', hdelivery⟩ := hdelivered
  obtain rfl := Option.some.inj (hw.symm.trans hw')
  refine ⟨fun id code text data hmessage => ?_, fun id value hmessage herror => ?_,
    fun x exchange id value _ _ _ hmessage herror => ?_⟩
  · rw [hmessage] at houtcome
    exact ⟨w.event.requestId, ⟨write, w, hw, rfl, (Option.some.inj houtcome).symm, hdelivery⟩, hid⟩
  · obtain ⟨hresult, _, hanswers⟩ := haddressed
    obtain ⟨x, hx⟩ := Option.isSome_iff_exists.mp (hresult id value hmessage)
    obtain ⟨exchange, _, hrequest, _⟩ := hanswers x hx
    have hrejected : w.event.outcome = .tool_rejected := by
      simp only [hmessage, Message.outcome, herror, if_true, Option.some.injEq] at houtcome
      exact houtcome.symm
    exact ⟨_, w.event.requestId, _, hrequest, hid _ hrequest,
      ⟨write, w, hw, rfl, hrejected, hdelivery⟩, Or.inl rfl⟩
  · simp [hmessage, Message.outcome, herror] at houtcome

/-- The flag of a request stands for a terminal record of a call made in it. -/
theorem Gated.flagged (h : Gated server s) (hrequests : SecureRuntime.Requests s.runtime)
    {x : Nat} {exchange : Exchange} (hx : s.exchanges[x]? = some exchange)
    (hflag : s.outcomeRecorded (some exchange.request) = true) :
    ∃ requestId outcome, serverSideId server s.runtime exchange.request = some requestId ∧
      Recorded s.runtime requestId outcome ∧ Outcome.endsCall outcome = true := by
  have hlt := h.range x exchange hx
  have hq := List.getElem?_eq_getElem hlt
  simp only [outcomeRecorded, Option.bind_some, hq] at hflag
  obtain ⟨i, inv, hi, hrequest, write, outcome, _, hwrote, hends, w', hw', hdelivery⟩ :=
    hrequests.flagged _ _ hq hflag
  obtain ⟨w, clock, hw, hevent, _⟩ := hwrote
  obtain rfl := Option.some.inj (hw.symm.trans hw')
  obtain ⟨context, hcontext, hid⟩ := hrequests.named i inv _ hi hrequest
  rw [h.own x i exchange inv hx hi hrequest] at hid
  refine ⟨inv.context.requestId, outcome, ?_, ⟨write, w, hw, by rw [hevent]; rfl,
    by rw [hevent]; rfl, hdelivery⟩, hends⟩
  rw [hid, serverSideId, hcontext, Option.map_some]

/-- A result the wrapper makes no record for. -/
theorem Gated.cleared_result (h : Gated server s) (hrequests : SecureRuntime.Requests s.runtime)
    {x : Nat} {exchange : Exchange} {id : RpcId} {value : Graph} {phase : SendPhase}
    (hx : s.exchanges[x]? = some exchange)
    (hnone : s.observation (.result id value) (some exchange.request) = none)
    (htool : exchange.toolCall = true → value.isErrorTrue = false →
      ∃ i inv isError, exchange.invocation = some i ∧ s.runtime.invocations[i]? = some inv ∧
        inv.call.request = some exchange.request ∧ value.isError = some isError ∧
        ∃ write, write ∈ inv.records ∧ s.runtime.Wrote inv write (resultOutcome isError) ∧
          s.runtime.Delivered write .fulfilled) :
    Cleared server s { message := .result id value, request := some exchange.request, phase
                       answers := some x } := by
  refine ⟨fun _ _ _ _ hmessage => absurd hmessage (by simp), fun id' value' hmessage herror => ?_,
    fun y e id' value' hy he hcall hmessage herror => ?_⟩
  · obtain ⟨rfl, rfl⟩ := Message.result.inj hmessage
    have hflag : s.outcomeRecorded (some exchange.request) = true := by
      by_contra hunset
      simp [observation, herror, hunset] at hnone
    obtain ⟨requestId, outcome, hid, hrecorded, hends⟩ := h.flagged hrequests hx hflag
    exact ⟨_, requestId, outcome, rfl, hid, hrecorded, Or.inr hends⟩
  · obtain ⟨rfl, rfl⟩ := Message.result.inj hmessage
    obtain rfl := Option.some.inj hy
    obtain rfl := Option.some.inj (hx.symm.trans he)
    exact htool hcall herror

/-- What the tool's `invoke` returned, when it is no error. -/
theorem Gated.returned (h : Gated server s)
    (hreach : (SecureRuntime.machine server.rt δ).Reachable s.runtime) {x i : Nat}
    {exchange : Exchange} {inv : Invocation δ} {outcome : Outcome} {value : Graph}
    (hx : s.exchanges[x]? = some exchange) (hcalled : exchange.invocation = some i)
    (hi : s.runtime.invocations[i]? = some inv) (hcaller : inv.caller = .answered outcome value)
    (herror : value.isErrorTrue = false) :
    ∃ i inv isError, exchange.invocation = some i ∧ s.runtime.invocations[i]? = some inv ∧
      inv.call.request = some exchange.request ∧ value.isError = some isError ∧
      ∃ write, write ∈ inv.records ∧ s.runtime.Wrote inv write (resultOutcome isError) ∧
        s.runtime.Delivered write .fulfilled := by
  obtain ⟨inv', hi', hrequest⟩ := h.called x i exchange hx hcalled
  obtain rfl := Option.some.inj (hi.symm.trans hi')
  rcases (SecureRuntime.Evidence.of_reachable hreach i inv hi).answered outcome value hcaller with
    ⟨_, _, hvalue⟩ | ⟨_, _, _, write, isError, hmem, hgiven, hwrote, hdelivered⟩
  · rw [hvalue, errorResult_isErrorTrue] at herror
    exact absurd herror (by simp)
  · exact ⟨i, inv, isError, hcalled, hi, hrequest, hgiven, write, hmem, hwrote, hdelivered⟩

/-! ## Main result -/

/-- Why this message may go to the transport for this call of `send`. -/
def Justified (server : ServerSetup) (s : AuditedMcpServer δ) (send : Send) (message : Message) :
    Prop :=
  (message = send.message ∧ Cleared server s send) ∨
    ∃ write id, send.phase = .replaced write ∧ Observes server s.runtime send write ∧
      s.runtime.Delivered write .rejected ∧ send.message.id = some id ∧
      message = .auditUnavailable id

/-- What a step passes on. -/
def PassesOn (server : ServerSetup) (s s' : AuditedMcpServer δ) : Prop :=
  s'.passed = s.passed ∨ ∃ k message send, s'.passed = s.passed ++ [(k, message)] ∧
    deliveries s.passed k = [] ∧ s'.sends[k]? = some send ∧ Justified server s send message

theorem Gated.step_send (h : Gated server s) (message : Message) (request answers : Option Nat)
    (uuid : JsString) (hcleared : s.observation message request = none →
      ∀ phase, Cleared server s { message, request, phase, answers }) :
    PassesOn server s (s.send server message request answers uuid) := by
  unfold AuditedMcpServer.send
  cases hobservation : s.observation message request with
  | none =>
      exact Or.inr ⟨s.sends.length, message, _, rfl, h.deliveries_fresh,
        List.getElem?_concat_length, Or.inl ⟨rfl, hcleared hobservation _⟩⟩
  | some outcome => exact Or.inl rfl

theorem Gated.step_passes (h : Gated server s) {k : Nat} (hpasses : Passes s k s') :
    PassesOn server s s' := by
  cases hpasses with
  | forwarded send write hk hphase hwrite =>
      obtain ⟨hnothing, hobserves⟩ := h.waiting hk hphase
      have hcleared := Cleared.of_observed (h.sends k send hk).2.2 hobserves hwrite
      exact Or.inr ⟨k, send.message, _, rfl, hnothing, Table.getElem?_set_of_some hk,
        Or.inl ⟨rfl, hcleared.error, hcleared.isError, hcleared.tool⟩⟩
  | replaced send write id hk hphase hwrite hid =>
      obtain ⟨hnothing, hobserves⟩ := h.waiting hk hphase
      exact Or.inr ⟨k, _, _, rfl, hnothing, Table.getElem?_set_of_some hk,
        Or.inr ⟨write, id, rfl, hobserves, hwrite, hid, rfl⟩⟩
  | dropped send write hk hphase hwrite hid => exact Or.inl rfl

/-- The messages that take the place of one whose record was lost. -/
def replacement (message : Message) : List Message :=
  match message.id with
  | some id => [.auditUnavailable id]
  | none => []

/-- The record of this call of `send` was lost: the client gets the replacement, or will. -/
theorem Gated.lost (h : Gated server s) {k : Nat} {send : Send} {write : Nat}
    (hk : s.sends[k]? = some send) (hwrite : send.phase.write = some write)
    (hlost : s.runtime.Delivered write .rejected) :
    (send.phase = .auditing write ∧ deliveries s.passed k = [] ∧
      ∃ s'', s.audited k = some s'' ∧ deliveries s''.passed k = replacement send.message) ∨
    deliveries s.passed k = replacement send.message := by
  obtain ⟨w, hw, hdelivery⟩ := hlost
  have hgate := (h.sends k send hk).1
  cases hphase : send.phase with
  | auditing first =>
      obtain rfl : first = write := by simpa [hphase, SendPhase.write] using hwrite
      have hnothing := (h.waiting hk hphase).1
      refine Or.inl ⟨rfl, hnothing, ?_⟩
      cases hid : send.message.id with
      | some id =>
          refine ⟨_, by simp only [audited, hk, Option.bind_eq_bind, Option.bind_some, hphase, hw,
            hdelivery, hid]; rfl, ?_⟩
          simp only [deliveries_append_self, hnothing, List.nil_append, replacement, hid]
      | none =>
          refine ⟨_, by simp only [audited, hk, Option.bind_eq_bind, Option.bind_some, hphase, hw,
            hdelivery, hid]; rfl, ?_⟩
          simp only [hnothing, replacement, hid]
  | passed first =>
      -- a message is passed on after its own record only if that was acknowledged
      unfold Gate at hgate
      obtain rfl : first = some write := by simpa [hphase, SendPhase.write] using hwrite
      simp only [hphase] at hgate
      obtain ⟨_, w', hw', hkept⟩ := hgate
      obtain rfl := Option.some.inj (hw.symm.trans hw')
      rw [hkept] at hdelivery
      exact absurd hdelivery (by simp)
  | replaced first =>
      unfold Gate at hgate
      simp only [hphase] at hgate
      obtain ⟨id, hid, hpassed, _⟩ := hgate
      exact Or.inr (by rw [hpassed, replacement, hid])
  | dropped first =>
      unfold Gate at hgate
      simp only [hphase] at hgate
      exact Or.inr (by rw [hgate.2.1, replacement, hgate.1])

theorem Gated.deliveries_le (h : Gated server s) (k : Nat) :
    (deliveries s.passed k).length ≤ 1 := by
  cases hk : s.sends[k]? with
  | none =>
      rw [List.getElem?_eq_none_iff] at hk
      have hnil : deliveries s.passed k = [] := by
        unfold deliveries
        rw [List.map_eq_nil_iff, List.filter_eq_nil_iff]
        intro entry hentry hlast
        have hlt := h.passed entry hentry
        rw [beq_iff_eq] at hlast
        omega
      simp [hnil]
  | some send =>
      have hgate := (h.sends k send hk).1
      unfold Gate at hgate
      split at hgate
      · simp [hgate]
      · simp [hgate]
      · simp [hgate.1]
      · obtain ⟨id, _, hpassed, _⟩ := hgate
        simp [hpassed]
      · simp [hgate.2.1]

/-- Every message that a step passes on is justified by what was acknowledged before that step. A
    call of `send` puts at most one message on the transport; when its own record is lost, that is
    the replacement and nothing else. -/
theorem no_unaudited_outcome {l : Label δ} (h : (machine server δ).Reachable s)
    (hstep : (machine server δ).step s l = some s') :
    PassesOn server s s' ∧
    (∀ k, (deliveries s'.passed k).length ≤ 1) ∧
    (∀ (k : Nat) send write, s'.sends[k]? = some send → send.phase.write = some write →
      s'.runtime.Delivered write .rejected →
      (send.phase = .auditing write ∧ deliveries s'.passed k = [] ∧
        ∃ s'', (machine server δ).step s' (.audited k) = some s'' ∧
          deliveries s''.passed k = replacement send.message) ∨
      deliveries s'.passed k = replacement send.message) ∧
    ∀ (k : Nat) send, s'.sends[k]? = some send → Addressed s'.exchanges send := by
  obtain ⟨hg, hr⟩ := gated_of_reachable h
  obtain ⟨hg', _⟩ := gated_of_reachable (h.snoc hstep)
  have hrequests := SecureRuntime.Requests.of_reachable hr
  refine ⟨?_, hg'.deliveries_le, fun k send write hk hwrite hlost => hg'.lost hk hwrite hlost,
    fun k send hk => (hg'.sends k send hk).2.2⟩
  cases l with
  | receive message | start => exact Or.inl (by rw [← Option.some.inj hstep])
  | deliver uuid =>
      simp only [machine, step, deliver] at hstep
      split at hstep
      · split at hstep
        · split at hstep
          · exact Or.inl (by rw [← Option.some.inj hstep]; rfl)
          · exact Or.inl (by rw [← Option.some.inj hstep]; rfl)
        · exact Or.inl (by rw [← Option.some.inj hstep])
      · exact absurd hstep (by simp)
  | invoke x name args caller uuid =>
      obtain ⟨exchange, hx, hstep⟩ := Option.bind_eq_some_iff.mp hstep
      split at hstep
      · exact Or.inl (by rw [← Option.some.inj hstep])
      · exact absurd hstep (by simp)
  | respond x message uuid =>
      obtain ⟨exchange, hx, haccepts, rfl⟩ := respond_cases hstep
      refine hg.step_send message _ _ uuid (fun hnone phase => ?_)
      cases message with
      | error id code text data => exact absurd hnone (by simp [observation])
      | other id => exact absurd haccepts (by simp [Exchange.accepts])
      | result id value =>
          refine hg.cleared_result hrequests hx hnone (fun hcall herror => ?_)
          simp [Exchange.accepts, hcall, herror] at haccepts
  | respondTool x uuid =>
      obtain ⟨exchange, i, inv, outcome, value, hx, hcalled, hi, hcaller, rfl⟩ :=
        respondTool_cases hstep
      refine hg.step_send _ _ _ uuid (fun hnone phase => ?_)
      exact hg.cleared_result hrequests hx hnone
        (fun _ herror => hg.returned hr hx hcalled hi hcaller herror)
  | emit message uuid =>
      cases message with
      | result id value => exact absurd hstep (by simp [machine, step])
      | error id code text data => exact Or.inl (by rw [← Option.some.inj hstep]; rfl)
      | other id =>
          obtain rfl := Option.some.inj hstep
          exact hg.step_send _ _ _ uuid (fun _ phase => ⟨by simp, by simp, by simp⟩)
  | audited k => exact hg.step_passes (audited_passes hstep)
  | runtime label =>
      simp only [machine, step] at hstep
      split at hstep
      · obtain ⟨r, _, rfl⟩ := Option.map_eq_some_iff.mp hstep
        exact Or.inl rfl
      · exact absurd hstep (by simp)

/-- The tool `notes`, served to its principal. -/
def notesServer : ServerSetup where
  rt := SecureRuntime.notesRuntime
  identity := SecureRuntime.notesCall.principal
  requestId := none
  createdAt := 0
  scope := none

/-- A call of a tool that does not exist, received before `start`, whose `invalid_params` record
    the sink rejects. -/
def lostRejection : List (Label String) :=
  [.receive
      { method := some (js "tools/call"), id := some (.string (js "7"))
        arguments := some SecureRuntime.notesArgs },
    .start, .deliver (js "a"),
    .respond 0 (.error (some (.string (js "7"))) (-32602) (js "Tool secret not found") none) (js "b"),
    .runtime (.audit (.callSink 0 .promise)), .runtime (.audit (.settle 0 false)),
    .runtime (.audit (.resume 0))]

theorem no_unaudited_outcome_lostRejection :
    ∃ s s' : AuditedMcpServer String,
      (machine notesServer String).exec (machine notesServer String).init lostRejection = some s ∧
      (machine notesServer String).step s (.audited 0) = some s' ∧ s.passed = [] ∧
      s'.passed = [(0, .auditUnavailable (.string (js "7")))] ∧ PassesOn notesServer s s' := by
  have hrun : ∃ s s' : AuditedMcpServer String,
      (machine notesServer String).exec (machine notesServer String).init lostRejection = some s ∧
      (machine notesServer String).step s (.audited 0) = some s' ∧ s.passed = [] ∧
      s'.passed = [(0, .auditUnavailable (.string (js "7")))] := ⟨_, _, rfl, rfl, rfl, rfl⟩
  obtain ⟨s, s', hexec, hstep, hbefore, hafter⟩ := hrun
  exact ⟨s, s', hexec, hstep, hbefore, hafter,
    (no_unaudited_outcome (Machine.leads_of_exec hexec) hstep).1⟩

end AuditedMcpServer

end SecureMcp
