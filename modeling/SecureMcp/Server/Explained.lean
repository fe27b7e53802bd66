import SecureMcp.Server.Arguments

set_option autoImplicit false

/-! # Why each message is on the transport

What cleared a message when it was passed on still stands in every later state: records stay
acknowledged, and an exchange keeps the call it has made. So in any reachable state every message on
the transport can be explained by what the dispatcher has acknowledged (`explained`). -/

namespace SecureMcp

namespace AuditedMcpServer

variable {δ : Type} {server : ServerSetup} {s s' : AuditedMcpServer δ} {l : Label δ}

/-! ## What later steps keep -/

/-- An exchange stays what it is, and keeps the call it has made. -/
def ExchangesKept (s s' : AuditedMcpServer δ) : Prop :=
  ∀ (x : Nat) e, s.exchanges[x]? = some e → ∃ e', s'.exchanges[x]? = some e' ∧
    e'.request = e.request ∧ e'.toolCall = e.toolCall ∧
    ∀ i, e.invocation = some i → e'.invocation = some i

theorem ExchangesKept.of_eq (h : s'.exchanges = s.exchanges) : ExchangesKept s s' :=
  fun _ e he => ⟨e, by rw [h]; exact he, rfl, rfl, fun _ hi => hi⟩

theorem ExchangesKept.of_set {x : Nat} {e e' : Exchange} (hx : s.exchanges[x]? = some e)
    (h : s'.exchanges = s.exchanges.set x e') (hrequest : e'.request = e.request)
    (htool : e'.toolCall = e.toolCall)
    (hcalled : ∀ i, e.invocation = some i → e'.invocation = some i) : ExchangesKept s s' := by
  intro y b hb
  rw [h]
  by_cases hyx : y = x
  · subst hyx
    obtain rfl := Option.some.inj (hx.symm.trans hb)
    exact ⟨e', Table.getElem?_set_of_some hx, hrequest, htool, hcalled⟩
  · exact ⟨b, (Table.getElem?_set_of_ne hyx).trans hb, rfl, rfl, fun _ hi => hi⟩

theorem step_exchangesKept (h : s.step server l = some s') : ExchangesKept s s' := by
  cases step_turn h with
  | opened uuid message rest exchange _ _ hexchanges =>
      intro x e he
      rw [hexchanges]
      exact ⟨e, Table.getElem?_append_of_some he, rfl, rfl, fun _ hi => hi⟩
  | called x name args caller uuid hlabel =>
      subst hlabel
      obtain ⟨exchange, hx, hstep⟩ := Option.bind_eq_some_iff.mp h
      split at hstep
      · next hguard =>
          obtain rfl := Option.some.inj hstep
          -- a request calls its tool once
          simp only [Bool.and_eq_true] at hguard
          refine .of_set hx rfl rfl rfl (fun i hi => ?_)
          rw [hi] at hguard
          exact absurd hguard.1.2 (by simp)
      · exact absurd hstep (by simp)
  | answered x exchange hx hexchanges =>
      exact .of_set hx hexchanges rfl rfl (fun _ hi => hi)
  | same hexchanges => exact .of_eq hexchanges

theorem Recorded.kept {r r' : SecureRuntime δ} {requestId : JsString} {outcome : Outcome}
    (hleads : (SecureRuntime.machine server.rt δ).Leads r r') (h : Recorded r requestId outcome) :
    Recorded r' requestId outcome := by
  obtain ⟨write, w, hw, hid, houtcome, hdelivery⟩ := h
  obtain ⟨w', hw', hev⟩ := SecureRuntime.writesKept_of_leads hleads write w hw
  refine ⟨write, w', hw', by rw [hev.event]; exact hid, by rw [hev.event]; exact houtcome, ?_⟩
  rw [hev.delivery (by rw [hdelivery]; rfl), hdelivery]

/-- What has cleared a message clears it ever after. -/
theorem Cleared.kept {send : Send} (h : Cleared server s send) (haddressed : Addressed s.exchanges send)
    (hleads : (SecureRuntime.machine server.rt δ).Leads s.runtime s'.runtime)
    (hexchanges : ExchangesKept s s') : Cleared server s' send := by
  refine ⟨fun id code text data hmessage => ?_, fun id value hmessage herror => ?_,
    fun x exchange id value hanswers hx htool hmessage herror => ?_⟩
  · obtain ⟨requestId, hrecorded, hid⟩ := h.error id code text data hmessage
    exact ⟨requestId, hrecorded.kept hleads, fun q hq => serverSideId_kept hleads (hid q hq)⟩
  · obtain ⟨q, requestId, outcome, hq, hid, hrecorded, hkind⟩ := h.isError id value hmessage herror
    exact ⟨q, requestId, outcome, hq, serverSideId_kept hleads hid, hrecorded.kept hleads, hkind⟩
  · obtain ⟨e, he, _, _⟩ := haddressed.2.2 x hanswers
    obtain ⟨e', he', hrequest', htool', hcalled'⟩ := hexchanges x e he
    obtain rfl := Option.some.inj (hx.symm.trans he')
    obtain ⟨i, inv, isError, hcalled, hi, hrequest, hgiven, write, hmem, hwrote, hdelivered⟩ :=
      h.tool x e id value hanswers he (htool'.symm.trans htool) hmessage herror
    obtain ⟨inv', hi', hgrows⟩ := SecureRuntime.grows_of_leads hleads hi
    have hkept := SecureRuntime.writesKept_of_leads hleads
    refine ⟨i, inv', isError, hcalled' i hcalled, hi', ?_, hgiven, write, hgrows.records write hmem,
      hwrote.kept hkept ⟨hgrows.context, hgrows.start, hgrows.call⟩, hdelivered.kept hkept rfl⟩
    rw [hgrows.call, hrequest', hrequest]

/-! ## Messages that needed no record of their own -/

/-- The calls of `send` that passed their message on at once. -/
def Released (server : ServerSetup) (s : AuditedMcpServer δ) : Prop :=
  ∀ (k : Nat) send, s.sends[k]? = some send → send.phase = .passed none → Cleared server s send

/-- A step that passes a message on at once does so for a call of `send` that is cleared. -/
def Releases (server : ServerSetup) (s s' : AuditedMcpServer δ) : Prop :=
  ∀ (k : Nat) send, s'.sends[k]? = some send → send.phase = .passed none →
    s.sends[k]? = some send ∨ (Cleared server s send ∧ Addressed s.exchanges send)

theorem Releases.of_eq (h : s'.sends = s.sends) : Releases server s s' :=
  fun _ _ hk _ => Or.inl (h ▸ hk)

theorem Releases.send {message : Message} {request answers : Option Nat} (uuid : JsString)
    (hcleared : s.observation message request = none → ∀ phase,
      Cleared server s { message, request, phase, answers } ∧
        Addressed s.exchanges { message, request, phase, answers }) :
    Releases server s (s.send server message request answers uuid) := by
  intro k send hk hphase
  unfold AuditedMcpServer.send at hk
  cases hobservation : s.observation message request with
  | none =>
      simp only [hobservation] at hk
      rcases Table.getElem?_append_cases hk with hold | ⟨_, rfl⟩
      · exact Or.inl hold
      · exact Or.inr (hcleared hobservation _)
  | some outcome =>
      simp only [hobservation] at hk
      rcases Table.getElem?_append_cases hk with hold | ⟨_, rfl⟩
      · exact Or.inl hold
      · exact absurd hphase (by simp)

theorem Releases.audited {k : Nat} (h : Passes s k s') : Releases server s s' := by
  intro j send hj hphase
  cases h with
  | forwarded other write hk hother hwrite =>
      rcases Table.getElem?_set_cases hj with ⟨_, rfl⟩ | ⟨_, hold⟩
      · exact absurd hphase (by simp)
      · exact Or.inl hold
  | replaced other write id hk hother hwrite hid =>
      rcases Table.getElem?_set_cases hj with ⟨_, rfl⟩ | ⟨_, hold⟩
      · exact absurd hphase (by simp)
      · exact Or.inl hold
  | dropped other write hk hother hwrite hid =>
      rcases Table.getElem?_set_cases hj with ⟨_, rfl⟩ | ⟨_, hold⟩
      · exact absurd hphase (by simp)
      · exact Or.inl hold

theorem Gated.releases (h : Gated server s)
    (hreach : (SecureRuntime.machine server.rt δ).Reachable s.runtime)
    (hstep : s.step server l = some s') : Releases server s s' := by
  have hrequests := SecureRuntime.Requests.of_reachable hreach
  cases l with
  | receive message | start => exact .of_eq (by rw [← Option.some.inj hstep])
  | deliver uuid =>
      simp only [AuditedMcpServer.step, AuditedMcpServer.deliver] at hstep
      split at hstep
      · split at hstep
        · split at hstep
          · obtain rfl := Option.some.inj hstep
            -- the wrapper's own answer is an error, which needs a record
            intro k send hk hphase
            rcases Table.getElem?_append_cases hk with hold | ⟨_, rfl⟩
            · exact Or.inl hold
            · exact absurd hphase (by simp)
          · exact .of_eq (by rw [← Option.some.inj hstep]; rfl)
        · exact .of_eq (by rw [← Option.some.inj hstep])
      · exact absurd hstep (by simp)
  | invoke x name args caller uuid =>
      obtain ⟨exchange, _, hstep⟩ := Option.bind_eq_some_iff.mp hstep
      split at hstep
      · exact .of_eq (by rw [← Option.some.inj hstep])
      · exact absurd hstep (by simp)
  | respond x message uuid =>
      obtain ⟨exchange, hx, haccepts, rfl⟩ := respond_cases hstep
      have haddressed := addressed_answer hx (accepts_id haccepts)
      refine Releases.send (s := s) uuid (fun hnone phase => ⟨?_, haddressed phase⟩)
      cases message with
      | error id code text data => exact absurd hnone (by simp [observation])
      | other id => exact absurd haccepts (by simp [Exchange.accepts])
      | result id value =>
          refine h.cleared_result hrequests hx hnone (fun hcall herror => ?_)
          simp [Exchange.accepts, hcall, herror] at haccepts
  | respondTool x uuid =>
      obtain ⟨exchange, i, inv, outcome, value, hx, hcalled, hi, hcaller, rfl⟩ :=
        respondTool_cases hstep
      refine Releases.send (s := s) uuid (fun hnone phase => ⟨?_, addressed_answer hx rfl phase⟩)
      exact h.cleared_result hrequests hx hnone
        (fun _ herror => h.returned hreach hx hcalled hi hcaller herror)
  | emit message uuid =>
      cases message with
      | result id value => exact absurd hstep (by simp [AuditedMcpServer.step])
      | error id code text data =>
          obtain rfl := Option.some.inj hstep
          exact .send uuid (fun hnone => absurd hnone (by simp [observation]))
      | other id =>
          obtain rfl := Option.some.inj hstep
          exact .send uuid (fun _ phase => ⟨⟨by simp, by simp, by simp⟩,
            by simp, fun _ => rfl, by simp⟩)
  | audited k => exact .audited (audited_passes hstep)
  | runtime label =>
      simp only [AuditedMcpServer.step] at hstep
      split at hstep
      · obtain ⟨r, _, rfl⟩ := Option.map_eq_some_iff.mp hstep
        exact .of_eq rfl
      · exact absurd hstep (by simp)

theorem released_of_reachable (h : (machine server δ).Reachable s) : Released server s := by
  refine h.invariant (I := Released server) (by simp [Released, machine]) ?_
  intro s l s' hr hreleased hstep
  obtain ⟨hgated, hruntime⟩ := gated_of_reachable hr
  have hleads := (hgated.step (.of_reachable hruntime) hstep).2
  have hexchanges := step_exchangesKept hstep
  intro k send hk hphase
  rcases hgated.releases hruntime hstep k send hk hphase with hold | ⟨hcleared, haddressed⟩
  · exact (hreleased k send hold hphase).kept (hgated.sends k send hold).2.2 hleads hexchanges
  · exact hcleared.kept haddressed hleads hexchanges

/-! ## Every message on the transport -/

/-- Whatever is on the transport is still justified. -/
theorem justified_of_passed (h : (machine server δ).Reachable s) {k : Nat} {message : Message}
    (hpassed : (k, message) ∈ s.passed) :
    ∃ send, s.sends[k]? = some send ∧ Justified server s send message := by
  obtain ⟨hgated, hruntime⟩ := gated_of_reachable h
  obtain ⟨send, hk⟩ : ∃ send, s.sends[k]? = some send :=
    ⟨_, List.getElem?_eq_getElem (hgated.passed _ hpassed)⟩
  obtain ⟨hgate, hobserves, haddressed⟩ := hgated.sends k send hk
  have hmem : message ∈ deliveries s.passed k :=
    List.mem_map.mpr ⟨(k, message), List.mem_filter.mpr ⟨hpassed, beq_self_eq_true k⟩, rfl⟩
  refine ⟨send, hk, ?_⟩
  unfold Gate at hgate
  cases hphase : send.phase with
  | auditing write =>
      simp only [hphase] at hgate
      exact absurd hmem (by simp [hgate])
  | passed write =>
      cases write with
      | none =>
          simp only [hphase] at hgate
          rw [hgate, List.mem_singleton] at hmem
          exact Or.inl ⟨hmem, released_of_reachable h k send hk hphase⟩
      | some write =>
          simp only [hphase] at hgate
          rw [hgate.1, List.mem_singleton] at hmem
          have hown := hobserves write (by rw [hphase]; rfl)
          exact Or.inl ⟨hmem, .of_observed haddressed hown hgate.2⟩
  | replaced write =>
      simp only [hphase] at hgate
      obtain ⟨id, hid, hone, hlost⟩ := hgate
      rw [hone, List.mem_singleton] at hmem
      exact Or.inr ⟨write, id, hphase, hobserves write (by rw [hphase]; rfl), hlost, hid, hmem⟩
  | dropped write =>
      simp only [hphase] at hgate
      exact absurd hmem (by simp [hgate.2.1])

end AuditedMcpServer

end SecureMcp
