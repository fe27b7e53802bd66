import SecureMcp.Audit.Log
import SecureMcp.Collector.Records

set_option autoImplicit false

/-! # A process and its collector (`SecureRuntime` over `socketAuditSink`, with a collector behind it)

The dispatcher of a process, its socket sink and the collector are put together. The process is any
machine with a dispatcher in it (`AuditHost`); its sink is the client `0` of a network in which other
processes may have sinks too. The dispatcher calls the sink with the event of a write, and hears what
became of the promise that the sink returned. -/

namespace SecureMcp

/-- A machine that has a dispatcher, and the steps in which it does what the dispatcher does with its
    sink. -/
structure AuditHost (σ ℓ : Type) where
  machine : Machine σ ℓ
  audit : σ → AuditDispatcher AuditEvent
  capacity : Nat
  init : audit machine.init = { capacity }
  /-- The step that is this one of the dispatcher. -/
  label : AuditDispatcher.Label AuditEvent → ℓ
  step_label : ∀ s k s', machine.step s (label k) = some s' → (audit s).step k = some (audit s')
  /-- The step is one of the dispatcher with its sink. -/
  isSink : ℓ → Bool
  quiet : ∀ s l s', isSink l = false → machine.step s l = some s' → audit s' = audit s ∨
    ∃ k : AuditDispatcher.Label AuditEvent, k.isSink = false ∧ (audit s).step k = some (audit s')

/-- A call of the sink: the write it is for, and the record that the sink made of it. -/
structure SinkCall where
  write : Nat
  record : Nat
deriving DecidableEq, Repr

structure Deployment (σ : Type) where
  host : σ
  network : CollectorNetwork
  calls : List SinkCall := []

namespace Deployment

variable {σ ℓ : Type} (H : AuditHost σ ℓ) (setup : JournalSetup)

/-- The promise job that calls the sink, in which `room` calls of `socket.write` return `true`. -/
def callSink (s : Deployment σ) (i room : Nat) : Option (Deployment σ) := do
  let w ← (H.audit s.host).writes[i]?
  let host ← H.machine.step s.host (H.label (.callSink i .promise))
  let network ← s.network.step setup (.sink (.send 0 w.event.toJson room))
  some { host, network, calls := s.calls ++ [⟨i, s.network.sinks.records.length⟩] }

/-- How the promise of a record has settled. -/
def Settlement.result : Settlement → Option Bool
  | .pending => none
  | .fulfilled => some true
  | .rejected => some false

/-- The dispatcher sees the promise of this call settle. -/
def settle (s : Deployment σ) (n : Nat) : Option (Deployment σ) := do
  let call ← s.calls[n]?
  let record ← s.network.sinks.records[call.record]?
  let ok ← Settlement.result record.promise
  let host ← H.machine.step s.host (H.label (.settle call.write ok))
  some { s with host }

/-- The promise job that calls `sink.close`, which returns nothing. -/
def callSinkClose (s : Deployment σ) : Option (Deployment σ) := do
  let host ← H.machine.step s.host (H.label (.callSinkClose .returned))
  let network ← s.network.step setup (.sink (.close 0))
  some { s with host, network }

/-- A call of the process's own sink. -/
def isOwn : CollectorNetwork.Label → Bool
  | .sink (.send c _ _) | .sink (.close c) => c == 0
  | _ => false

inductive Label (ℓ : Type)
  /-- A step of the process in which its sink has no part. -/
  | host (label : ℓ)
  /-- A step of the network: of the collector, of a connection, a timer, or of another process. -/
  | network (label : CollectorNetwork.Label)
  | callSink (i room : Nat)
  | settle (n : Nat)
  | callSinkClose

def step (s : Deployment σ) : Label ℓ → Option (Deployment σ)
  | .host label =>
    if H.isSink label then none
    else (H.machine.step s.host label).map (fun host => { s with host })
  | .network label =>
    if isOwn label then none
    else (s.network.step setup label).map (fun network => { s with network })
  | .callSink i room => s.callSink H setup i room
  | .settle n => s.settle H n
  | .callSinkClose => s.callSinkClose H setup

/-- The process has made its sink; the collector listens. -/
def machine : Machine (Deployment σ) (Label ℓ) :=
  { init :=
      { host := H.machine.init
        network := { sinks := { clients := [{}] }, collector := .start setup } }
    step := step H setup }

variable {H setup} {s s' : Deployment σ} {l : Label ℓ}

/-! ## What a step can do -/

inductive Effect (H : AuditHost σ ℓ) (setup : JournalSetup) (s : Deployment σ) : Deployment σ → Prop
  | host (label : ℓ) (host : σ) (hsink : H.isSink label = false)
      (hstep : H.machine.step s.host label = some host) : Effect H setup s { s with host }
  | network (label : CollectorNetwork.Label) (network : CollectorNetwork) (hown : isOwn label = false)
      (hstep : s.network.step setup label = some network) : Effect H setup s { s with network }
  | called (i room : Nat) (w : Write AuditEvent) (host : σ) (network : CollectorNetwork)
      (hw : (H.audit s.host).writes[i]? = some w)
      (hhost : H.machine.step s.host (H.label (.callSink i .promise)) = some host)
      (hnetwork : s.network.step setup (.sink (.send 0 w.event.toJson room)) = some network) :
      Effect H setup s
        { host, network, calls := s.calls ++ [⟨i, s.network.sinks.records.length⟩] }
  | settled (n : Nat) (call : SinkCall) (record : SinkRecord) (ok : Bool) (host : σ)
      (hcall : s.calls[n]? = some call)
      (hrecord : s.network.sinks.records[call.record]? = some record)
      (hok : Settlement.result record.promise = some ok)
      (hhost : H.machine.step s.host (H.label (.settle call.write ok)) = some host) :
      Effect H setup s { s with host }
  | closed (host : σ) (network : CollectorNetwork)
      (hhost : H.machine.step s.host (H.label (.callSinkClose .returned)) = some host)
      (hnetwork : s.network.step setup (.sink (.close 0)) = some network) :
      Effect H setup s { s with host, network }

theorem step_effect (h : s.step H setup l = some s') : Effect H setup s s' := by
  cases l with
  | host label =>
      simp only [step] at h
      split at h
      · exact absurd h (by simp)
      · next hsink =>
          obtain ⟨host, hstep, rfl⟩ := Option.map_eq_some_iff.mp h
          exact .host label host (by simpa using hsink) hstep
  | network label =>
      simp only [step] at h
      split at h
      · exact absurd h (by simp)
      · next hown =>
          obtain ⟨network, hstep, rfl⟩ := Option.map_eq_some_iff.mp h
          exact .network label network (by simpa using hown) hstep
  | callSink i room =>
      obtain ⟨w, hw, h⟩ := Option.bind_eq_some_iff.mp h
      obtain ⟨host, hhost, h⟩ := Option.bind_eq_some_iff.mp h
      obtain ⟨network, hnetwork, h⟩ := Option.bind_eq_some_iff.mp h
      obtain rfl := Option.some.inj h
      exact .called i room w host network hw hhost hnetwork
  | settle n =>
      obtain ⟨call, hcall, h⟩ := Option.bind_eq_some_iff.mp h
      obtain ⟨record, hrecord, h⟩ := Option.bind_eq_some_iff.mp h
      obtain ⟨ok, hok, h⟩ := Option.bind_eq_some_iff.mp h
      obtain ⟨host, hhost, h⟩ := Option.bind_eq_some_iff.mp h
      obtain rfl := Option.some.inj h
      exact .settled n call record ok host hcall hrecord hok hhost
  | callSinkClose =>
      obtain ⟨host, hhost, h⟩ := Option.bind_eq_some_iff.mp h
      obtain ⟨network, hnetwork, h⟩ := Option.bind_eq_some_iff.mp h
      obtain rfl := Option.some.inj h
      exact .closed host network hhost hnetwork

/-- The process makes at most one step, -/
theorem Effect.host_leads (he : Effect H setup s s') : H.machine.Leads s.host s'.host := by
  cases he with
  | host label host _ hstep => exact Machine.Leads.single hstep
  | network => exact Machine.Leads.refl _
  | called i room w host network _ hhost => exact Machine.Leads.single hhost
  | settled n call record ok host _ _ _ hhost => exact Machine.Leads.single hhost
  | closed host network hhost => exact Machine.Leads.single hhost

/-- its dispatcher too, -/
theorem Effect.audit_leads (he : Effect H setup s s') :
    (AuditDispatcher.machine AuditEvent H.capacity).Leads (H.audit s.host) (H.audit s'.host) := by
  cases he with
  | host label host hsink hstep =>
      rcases H.quiet _ label host hsink hstep with hsame | ⟨k, _, hk⟩
      · rw [hsame]
        exact Machine.Leads.refl _
      · exact Machine.Leads.single hk
  | network => exact Machine.Leads.refl _
  | called i room w host network _ hhost => exact Machine.Leads.single (H.step_label _ _ _ hhost)
  | settled n call record ok host _ _ _ hhost =>
      exact Machine.Leads.single (H.step_label _ _ _ hhost)
  | closed host network hhost => exact Machine.Leads.single (H.step_label _ _ _ hhost)

/-- and the network. -/
theorem Effect.network_leads (he : Effect H setup s s') :
    (CollectorNetwork.machine setup).Leads s.network s'.network := by
  cases he with
  | host => exact Machine.Leads.refl _
  | network label network _ hstep => exact Machine.Leads.single hstep
  | called i room w host network _ _ hnetwork =>
      exact Machine.Leads.single (l := .sink (.send 0 w.event.toJson room)) hnetwork
  | settled => exact Machine.Leads.refl _
  | closed host network _ hnetwork => exact Machine.Leads.single (l := .sink (.close 0)) hnetwork

theorem host_of_leads (h : (machine H setup).Leads s s') : H.machine.Leads s.host s'.host :=
  h.rel (R := fun s s' => H.machine.Leads s.host s'.host) (fun s => Machine.Leads.refl s.host)
    (fun _ _ _ => Machine.Leads.trans) (fun _ _ _ hstep => (step_effect hstep).host_leads)

theorem audit_of_leads (h : (machine H setup).Leads s s') :
    (AuditDispatcher.machine AuditEvent H.capacity).Leads (H.audit s.host) (H.audit s'.host) :=
  h.rel (R := fun s s' =>
      (AuditDispatcher.machine AuditEvent H.capacity).Leads (H.audit s.host) (H.audit s'.host))
    (fun s => Machine.Leads.refl (H.audit s.host)) (fun _ _ _ => Machine.Leads.trans)
    (fun _ _ _ hstep => (step_effect hstep).audit_leads)

theorem host_reachable (h : (machine H setup).Reachable s) : H.machine.Reachable s.host :=
  host_of_leads h

theorem audit_reachable (h : (machine H setup).Reachable s) :
    (AuditDispatcher.machine AuditEvent H.capacity).Reachable (H.audit s.host) := by
  have hlead := audit_of_leads h
  have hinit : H.audit (machine H setup).init.host =
      (AuditDispatcher.machine AuditEvent H.capacity).init := H.init
  rw [hinit] at hlead
  exact hlead

theorem network_reachable (h : (machine H setup).Reachable s) :
    (CollectorNetwork.machine setup).Reachable s.network :=
  h.invariant (I := fun s => (CollectorNetwork.machine setup).Reachable s.network)
    (Machine.Reachable.snoc (l := .sink .socketAuditSink) Machine.reachable_init rfl)
    (fun _ _ _ _ hs hstep => hs.trans (step_effect hstep).network_leads)

/-! ## Writes and records -/

/-- What joins a write and the record that the sink made of it. -/
structure Paired (w : Write AuditEvent) (record : SinkRecord) : Prop where
  reached : w.work ≠ .refused ∧ w.work ≠ .deferred
  client : record.client = 0
  line : record.line = w.event.line
  fulfilled : w.work = .fulfilled → record.promise = .fulfilled
  rejected : w.work = .rejected → record.promise = .rejected

/-- The calls of the sink join the writes that reached it with the records of the client `0`. -/
structure Joined (H : AuditHost σ ℓ) (s : Deployment σ) : Prop where
  /-- The calls are for the writes handed over, in this order. -/
  writes : s.calls.map SinkCall.write = (H.audit s.host).handed
  records : (s.calls.map SinkCall.record).Pairwise (· < ·)
  call : ∀ call ∈ s.calls, ∃ w record, (H.audit s.host).writes[call.write]? = some w ∧
    s.network.sinks.records[call.record]? = some record ∧ Paired w record
  /-- Every record of the client is one of them. -/
  all : ∀ (r : Nat) record, s.network.sinks.records[r]? = some record → record.client = 0 →
    ∃ call ∈ s.calls, call.record = r

theorem Paired.quiet {w w' : Write AuditEvent} {record : SinkRecord} (h : Paired w record)
    (hevent : w'.event = w.event) (hwork : w'.work = w.work) : Paired w' record :=
  ⟨by rw [hwork]; exact h.reached, h.client, by rw [hevent]; exact h.line,
    by rw [hwork]; exact h.fulfilled, by rw [hwork]; exact h.rejected⟩

theorem Paired.same {w : Write AuditEvent} {record record' : SinkRecord} (h : Paired w record)
    (hsame : Sinks.SameRecord record record') : Paired w record' := by
  obtain ⟨hclient, hline, hpromise⟩ := hsame
  refine ⟨h.reached, hclient.trans h.client, hline.trans h.line, fun hw => ?_, fun hw => ?_⟩
  · rw [hpromise (by rw [h.fulfilled hw]; decide), h.fulfilled hw]
  · rw [hpromise (by rw [h.rejected hw]; decide), h.rejected hw]

theorem Joined.init : Joined H (machine H setup).init := by
  refine ⟨?_, List.Pairwise.nil, by simp [machine], by simp [machine]⟩
  show [] = (H.audit H.machine.init).handed
  rw [H.init]

/-- The rows of the dispatcher that are handed over stay as they are, as far as the sink goes. -/
theorem Joined.quiet (h : Joined H s) {host : σ}
    (hquiet : AuditDispatcher.Quiet (H.audit s.host) (H.audit host))
    (hkept : ∀ (j : Nat) b, (H.audit s.host).writes[j]? = some b →
      ∃ b', (H.audit host).writes[j]? = some b' ∧ b.Evolves b') : Joined H { s with host } := by
  refine ⟨h.writes.trans hquiet.handed.symm, h.records, fun call hcall => ?_, h.all⟩
  obtain ⟨w, record, hw, hrecord, hpaired⟩ := h.call call hcall
  obtain ⟨w', hw', hev⟩ := hkept _ _ hw
  refine ⟨w', record, hw', hrecord, hpaired.quiet hev.event ?_⟩
  rcases hquiet.rows _ _ hw' with ⟨old, hold, _, hwork⟩ | ⟨hnew, _⟩
  · rw [hwork, Option.some.inj (hw.symm.trans hold)]
  · exact absurd (Table.lt_of_getElem? hw) (Nat.not_lt.mpr hnew)

/-- Promises settle, and other processes make records. -/
theorem Joined.network (h : Joined H s) {network : CollectorNetwork}
    (hkept : ∀ (r : Nat) record, s.network.sinks.records[r]? = some record →
      ∃ record', network.sinks.records[r]? = some record' ∧ Sinks.SameRecord record record')
    (hnew : ∀ (r : Nat) record, network.sinks.records[r]? = some record → record.client = 0 →
      r < s.network.sinks.records.length) : Joined H { s with network } := by
  refine ⟨h.writes, h.records, fun call hcall => ?_, fun r record hr hclient => ?_⟩
  · obtain ⟨w, record, hw, hrecord, hpaired⟩ := h.call call hcall
    obtain ⟨record', hrecord', hsame⟩ := hkept _ _ hrecord
    exact ⟨w, record', hw, hrecord', hpaired.same hsame⟩
  · have hold := List.getElem?_eq_getElem (hnew r record hr hclient)
    obtain ⟨record', hrecord', hsame⟩ := hkept _ _ hold
    obtain rfl := Option.some.inj (hr.symm.trans hrecord')
    exact h.all r _ hold (hsame.1.symm.trans hclient)

theorem Joined.settles (h : Joined H s) {network : CollectorNetwork}
    (hsettles : Sinks.Settles s.network.sinks network.sinks) : Joined H { s with network } :=
  h.network hsettles.same (fun _ _ hr _ => hsettles.length ▸ Table.lt_of_getElem? hr)

theorem Joined.write_injective (h : Joined H s) (hbooks : (H.audit s.host).Accounting)
    {call call' : SinkCall} (hcall : call ∈ s.calls) (hcall' : call' ∈ s.calls)
    (hsame : call.write = call'.write) : call = call' :=
  List.inj_on_of_nodup_map (h.writes ▸ hbooks.nodup_handed) hcall hcall' hsame

theorem Joined.record_injective (h : Joined H s) {call call' : SinkCall} (hcall : call ∈ s.calls)
    (hcall' : call' ∈ s.calls) (hsame : call.record = call'.record) : call = call' :=
  List.inj_on_of_nodup_map (h.records.imp Nat.ne_of_lt) hcall hcall' hsame

/-- The sink is called: a row is handed over, and a record is made. -/
theorem Joined.called (h : Joined H s) {i : Nat} {w : Write AuditEvent} {host : σ}
    {network : CollectorNetwork} {promise : Settlement} (hw : (H.audit s.host).writes[i]? = some w)
    (hdeferred : w.work = .deferred)
    (haudit : H.audit host = { H.audit s.host with
      handed := (H.audit s.host).handed ++ [i]
      writes := (H.audit s.host).writes.set i { w with work := .called } })
    (hrecords : network.sinks.records =
      s.network.sinks.records ++ [{ client := 0, line := w.event.line, promise }]) :
    Joined H { host, network, calls := s.calls ++ [⟨i, s.network.sinks.records.length⟩] } := by
  have hlt : ∀ call ∈ s.calls, call.record < s.network.sinks.records.length := by
    intro call hcall
    obtain ⟨_, record, _, hrecord, _⟩ := h.call call hcall
    exact Table.lt_of_getElem? hrecord
  refine ⟨?_, ?_, fun call hcall => ?_, fun r record hr hclient => ?_⟩
  · rw [List.map_append, h.writes, haudit]
    rfl
  · rw [List.map_append, List.pairwise_append]
    refine ⟨h.records, List.pairwise_singleton _ _, fun r hr r' hr' => ?_⟩
    obtain ⟨call, hcall, rfl⟩ := List.mem_map.mp hr
    obtain rfl := List.mem_singleton.mp hr'
    exact hlt call hcall
  · rcases List.mem_append.mp hcall with hold | hnew
    · obtain ⟨w', record, hw', hrecord, hpaired⟩ := h.call call hold
      have hne : call.write ≠ i := by
        intro heq
        rw [heq, hw] at hw'
        exact hpaired.reached.2 (Option.some.inj hw' ▸ hdeferred)
      refine ⟨w', record, ?_, ?_, hpaired⟩
      · rw [haudit]
        exact (Table.getElem?_set_of_ne hne).trans hw'
      · rw [hrecords]
        exact Table.getElem?_append_of_some hrecord
    · obtain rfl := List.mem_singleton.mp hnew
      refine ⟨{ w with work := .called }, { client := 0, line := w.event.line, promise }, ?_, ?_, ?_⟩
      · rw [haudit]
        exact Table.getElem?_set_of_some hw
      · rw [hrecords]
        exact List.getElem?_concat_length
      · exact ⟨⟨by simp, by simp⟩, rfl, rfl, by simp, by simp⟩
  · rw [hrecords] at hr
    rcases Table.getElem?_append_cases hr with hold | ⟨rfl, _⟩
    · obtain ⟨call, hcall, heq⟩ := h.all r record hold hclient
      exact ⟨call, List.mem_append_left _ hcall, heq⟩
    · exact ⟨_, List.mem_append_right _ List.mem_cons_self, rfl⟩

/-- The dispatcher hears how the promise of a record has settled. -/
theorem Joined.settled (h : Joined H s) (hbooks : (H.audit s.host).Accounting) {call : SinkCall}
    {w : Write AuditEvent} {record : SinkRecord} {ok : Bool} {host : σ} (hcall : call ∈ s.calls)
    (hw : (H.audit s.host).writes[call.write]? = some w)
    (hrecord : s.network.sinks.records[call.record]? = some record)
    (hok : Settlement.result record.promise = some ok)
    (haudit : H.audit host = (H.audit s.host).settleWork call.write w ok) :
    Joined H { s with host } := by
  refine ⟨?_, h.records, fun other hother => ?_, h.all⟩
  · rw [haudit]
    exact h.writes
  · obtain ⟨w', record', hw', hrecord', hpaired⟩ := h.call other hother
    by_cases hsame : other.write = call.write
    · obtain rfl := h.write_injective hbooks hother hcall hsame
      obtain rfl := Option.some.inj (hw.symm.trans hw')
      obtain rfl := Option.some.inj (hrecord.symm.trans hrecord')
      refine ⟨w.settleWork ok, record, ?_, hrecord, ?_, hpaired.client, hpaired.line, ?_, ?_⟩
      · rw [haudit]
        exact Table.getElem?_set_of_some hw
      · cases ok <;> exact ⟨by simp [Write.settleWork, Work.ofSettled],
          by simp [Write.settleWork, Work.ofSettled]⟩
      · intro hwork
        cases hpromise : record.promise with
        | fulfilled => rfl
        | pending => simp [hpromise, Settlement.result] at hok
        | rejected =>
            rw [hpromise] at hok
            obtain rfl := Option.some.inj hok
            exact absurd hwork (by simp [Write.settleWork, Work.ofSettled])
      · intro hwork
        cases hpromise : record.promise with
        | rejected => rfl
        | pending => simp [hpromise, Settlement.result] at hok
        | fulfilled =>
            rw [hpromise] at hok
            obtain rfl := Option.some.inj hok
            exact absurd hwork (by simp [Write.settleWork, Work.ofSettled])
    · refine ⟨w', record', ?_, hrecord', hpaired⟩
      rw [haudit]
      exact (Table.getElem?_set_of_ne hsame).trans hw'

theorem Joined.effect (h : Joined H s) (hbooks : (H.audit s.host).Accounting)
    (he : Effect H setup s s') : Joined H s' := by
  cases he with
  | host label host hsink hstep =>
      rcases H.quiet _ label host hsink hstep with hsame | ⟨k, hk, hkstep⟩
      · exact h.quiet (hsame ▸ AuditDispatcher.Quiet.refl _)
          (fun j b hb => ⟨b, hsame ▸ hb, .refl b⟩)
      · exact h.quiet (AuditDispatcher.step_quiet hkstep hk)
          (fun j b hb => (AuditDispatcher.step_effect hkstep).evolves hb)
  | network label network hown hstep =>
      cases hsends : label.sends with
      | none => exact h.settles (CollectorNetwork.step_settles hstep hsends)
      | some call =>
          obtain ⟨c, event⟩ := call
          obtain ⟨promise, hrecords⟩ := CollectorNetwork.send_records hstep hsends
          refine h.network (fun r record hr => ⟨record, ?_, .refl record⟩) (fun r record hr hclient => ?_)
          · rw [hrecords]
            exact Table.getElem?_append_of_some hr
          · rw [hrecords] at hr
            rcases Table.getElem?_append_cases hr with hold | ⟨_, rfl⟩
            · exact Table.lt_of_getElem? hold
            · -- a call of the client `0` is not a step of the network alone
              obtain rfl : c = 0 := hclient
              cases label with
              | sink label =>
                  cases label with
                  | send c' event' room =>
                      obtain ⟨rfl, _⟩ := Prod.mk.inj (Option.some.inj hsends)
                      exact absurd hown (by simp [isOwn])
                  | _ => exact absurd hsends (by simp [CollectorNetwork.Label.sends])
              | _ => exact absurd hsends (by simp [CollectorNetwork.Label.sends])
  | called i room w host network hw hhost hnetwork =>
      obtain ⟨w', hw', hdeferred, haudit⟩ := AuditDispatcher.callSink_promise (H.step_label _ _ _ hhost)
      obtain rfl := Option.some.inj (hw.symm.trans hw')
      obtain ⟨promise, hrecords⟩ := CollectorNetwork.send_records hnetwork rfl
      exact h.called hw hdeferred haudit hrecords
  | settled n call record ok host hcall hrecord hok hhost =>
      obtain ⟨w, hw, _, haudit⟩ := AuditDispatcher.settle_called (H.step_label _ _ _ hhost)
      exact h.settled hbooks (List.mem_of_getElem? hcall) hw hrecord hok haudit
  | closed host network hhost hnetwork =>
      have hstep := H.step_label _ _ _ hhost
      have hclose : (H.audit s.host).callSinkClose .returned = some (H.audit host) := hstep
      obtain ⟨hhanded, hwrites⟩ := AuditDispatcher.callSinkClose_writes hclose
      have hclosed : Joined H { s with host } := h.quiet (.of_writes hhanded hwrites)
        (fun j b hb => (AuditDispatcher.step_effect hstep).evolves hb)
      exact hclosed.settles (CollectorNetwork.step_settles hnetwork rfl)

theorem joined_of_reachable (h : (machine H setup).Reachable s) : Joined H s :=
  h.invariant Joined.init (fun _ _ _ hr hs hstep =>
    hs.effect (AuditDispatcher.Accounting.of_reachable (audit_reachable hr)) (step_effect hstep))

end Deployment

end SecureMcp
