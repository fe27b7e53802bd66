import SecureMcp.Deployment.Hosts
import SecureMcp.Server.Explained

set_option autoImplicit false

/-! # What a client of the server has seen is on disk

The server over one transport, deployed with its collector. The wrapper around `send` waits for an
acknowledgement, the dispatcher acknowledges what the sink did, the sink what the collector has
synced. So every error and every result of a tool that the transport has got has its record on disk;
where the record was lost instead, the transport has got `audit_unavailable`, and no write is
accepted any more. -/

namespace SecureMcp

namespace AuditedMcpServer

variable {δ : Type} {server : ServerSetup} {setup : JournalSetup}
variable {s : Deployment (AuditedMcpServer δ)}

/-- A record of this outcome and with this request id is on disk. -/
def RecordOnDisk (setup : JournalSetup) (s : Deployment (AuditedMcpServer δ)) (requestId : JsString)
    (outcome : Outcome) : Prop :=
  ∃ i event, event.requestId = requestId ∧ event.outcome = outcome ∧ s.OnDisk setup i event

/-- What is on disk for a message that this call of `send` has passed on. -/
structure Durable (server : ServerSetup) (setup : JournalSetup) (s : Deployment (AuditedMcpServer δ))
    (send : Send) : Prop where
  error : ∀ id code text data, send.message = .error id code text data → ∃ requestId,
    RecordOnDisk setup s requestId (protocolOutcome code) ∧
      ∀ q, send.request = some q → serverSideId server s.host.runtime q = some requestId
  isError : ∀ id value, send.message = .result id value → value.isErrorTrue = true →
    ∃ q requestId outcome, send.request = some q ∧
      serverSideId server s.host.runtime q = some requestId ∧
      RecordOnDisk setup s requestId outcome ∧
      (outcome = .tool_rejected ∨ Outcome.endsCall outcome = true)
  tool : ∀ x exchange id value, send.answers = some x → s.host.exchanges[x]? = some exchange →
    exchange.toolCall = true → send.message = .result id value → value.isErrorTrue = false →
    ∃ i inv isError, exchange.invocation = some i ∧ s.host.runtime.invocations[i]? = some inv ∧
      inv.call.request = some exchange.request ∧ value.isError = some isError ∧
      RecordOnDisk setup s inv.context.requestId (resultOutcome isError)

theorem RecordOnDisk.of_recorded
    (h : (Deployment.machine (host server δ) setup).Reachable s) {requestId : JsString}
    {outcome : Outcome} (hrecorded : Recorded s.host.runtime requestId outcome) :
    RecordOnDisk setup s requestId outcome := by
  obtain ⟨write, w, hw, hid, houtcome, hdelivery⟩ := hrecorded
  exact ⟨write, w.event, hid, houtcome, Deployment.onDisk_of_fulfilled h hw hdelivery⟩

theorem Cleared.durable (h : (Deployment.machine (host server δ) setup).Reachable s) {send : Send}
    (hcleared : Cleared server s.host send) : Durable server setup s send := by
  refine ⟨fun id code text data hmessage => ?_, fun id value hmessage herror => ?_,
    fun x exchange id value hanswers hx htool hmessage herror => ?_⟩
  · obtain ⟨requestId, hrecorded, hid⟩ := hcleared.error id code text data hmessage
    exact ⟨requestId, .of_recorded h hrecorded, hid⟩
  · obtain ⟨q, requestId, outcome, hq, hid, hrecorded, hkind⟩ :=
      hcleared.isError id value hmessage herror
    exact ⟨q, requestId, outcome, hq, hid, .of_recorded h hrecorded, hkind⟩
  · obtain ⟨i, inv, isError, hcalled, hi, hrequest, hgiven, write, _, ⟨w, clock, hw, hevent, _⟩,
      w', hw', hdelivery⟩ := hcleared.tool x exchange id value hanswers hx htool hmessage herror
    obtain rfl := Option.some.inj (hw.symm.trans hw')
    exact ⟨i, inv, isError, hcalled, hi, hrequest, hgiven, write, w.event, by rw [hevent]; rfl,
      by rw [hevent]; rfl, Deployment.onDisk_of_fulfilled h hw hdelivery⟩

/-- A lost record latches the dispatcher. -/
theorem unhealthy_of_lost (h : (Deployment.machine (host server δ) setup).Reachable s) {write : Nat}
    (hlost : s.host.runtime.Delivered write .rejected) : s.host.runtime.audit.healthy = false := by
  have haudit : (AuditDispatcher.machine AuditEvent (host server δ).capacity).Reachable
      s.host.runtime.audit := Deployment.audit_reachable h
  obtain ⟨w, hw, hdelivery⟩ := hlost
  exact (AuditDispatcher.Accounting.of_reachable haudit).unhealthy hw hdelivery

/-- Every message on the transport: what it tells the client is on disk, or it is the answer for a
    lost record and the dispatcher accepts nothing more. -/
theorem seen_is_durable (h : (Deployment.machine (host server δ) setup).Reachable s) {k : Nat}
    {message : Message} (hpassed : (k, message) ∈ s.host.passed) :
    ∃ send, s.host.sends[k]? = some send ∧
      ((message = send.message ∧ Durable server setup s send) ∨
        ∃ id, send.message.id = some id ∧ message = .auditUnavailable id ∧
          s.host.runtime.audit.healthy = false) := by
  have hserver : (machine server δ).Reachable s.host := Deployment.host_reachable h
  obtain ⟨send, hk, hjustified⟩ := justified_of_passed hserver hpassed
  refine ⟨send, hk, ?_⟩
  rcases hjustified with ⟨hmessage, hcleared⟩ | ⟨write, id, _, _, hlost, hid, hmessage⟩
  · exact Or.inl ⟨hmessage, hcleared.durable h⟩
  · exact Or.inr ⟨id, hid, hmessage, unhealthy_of_lost h hlost⟩

/-- A call of a tool that does not exist, turned down once its record of 215 octets is on disk. -/
def recordedRejection : List (Deployment.Label (Label String)) :=
  [.host (.receive
      { method := some (js "tools/call"), id := some (.string (js "7"))
        arguments := some SecureRuntime.notesArgs }),
    .host .start, .host (.deliver (js "a")),
    .host (.respond 0
      (.error (some (.string (js "7"))) (-32602) (js "Tool secret not found") none) (js "b")),
    .callSink 0 0, .network (.accept 0), .network (.sink (.connect 0 2)), .network (.deliver 0 215),
    .network (.collector (.run 0)), .network (.collector (.append 0 215)),
    .network (.collector (.appended 0 true)), .network (.collector (.synchronized 0 true [])),
    .network (.answer 0 1 0), .settle 0, .host (.runtime (.audit (.resume 0))), .host (.audited 0)]

theorem seen_is_durable_recordedRejection : ∃ s send,
    (Deployment.machine (host notesServer String) Collector.emptyJournal).exec
      (Deployment.machine (host notesServer String) Collector.emptyJournal).init
      recordedRejection = some s ∧
    s.host.sends[0]? = some send ∧ s.host.runtime.audit.healthy = true ∧
    (0, send.message) ∈ s.host.passed ∧ Durable notesServer Collector.emptyJournal s send := by
  have hrun : ((Deployment.machine (host notesServer String) Collector.emptyJournal).exec
      (Deployment.machine (host notesServer String) Collector.emptyJournal).init
      recordedRejection).map
        (fun s => (s.host.passed.map Prod.fst, s.host.runtime.audit.healthy)) =
      some ([0], true) := by
    decide +kernel
  obtain ⟨s, hexec, hstate⟩ := Option.map_eq_some_iff.mp hrun
  obtain ⟨hpassed, hhealthy⟩ := Prod.mk.inj hstate
  obtain ⟨⟨k, message⟩, hmem, hk⟩ := List.mem_map.mp (hpassed ▸ List.mem_cons_self : 0 ∈ _)
  obtain rfl : k = 0 := hk
  obtain ⟨send, hsend, ⟨rfl, hdurable⟩ | ⟨_, _, _, hlatched⟩⟩ :=
    seen_is_durable (Machine.leads_of_exec hexec) hmem
  · exact ⟨s, send, hexec, hsend, hhealthy, hmem, hdurable⟩
  · exact absurd (hhealthy.symm.trans hlatched) Bool.false_ne_true.symm

end AuditedMcpServer

end SecureMcp
