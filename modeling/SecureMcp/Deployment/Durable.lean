import SecureMcp.Deployment.Deployment

set_option autoImplicit false

/-! # From `audit.write` to the journal

The promise that `audit.write` returns is fulfilled only through a record of the sink, and a record's
promise only after the collector has synced its line. Put together: an acknowledged write is a line of
the journal that is on disk, each write is one line at most, and a line that is not there for a write
of the process is there for another process. -/

namespace SecureMcp

theorem AuditEvent.line_injective {a b : AuditEvent} (h : a.line = b.line) : a = b := by
  have hparse : Json.parse (JsString.ofUtf8 a.line) = some a.toJson := Json.parse_line a.toJson
  have hparse' : Json.parse (JsString.ofUtf8 b.line) = some b.toJson := Json.parse_line b.toJson
  rw [h, hparse'] at hparse
  exact AuditEvent.toJson_injective (Option.some.inj hparse).symm

namespace Deployment

variable {σ ℓ : Type} {H : AuditHost σ ℓ} {setup : JournalSetup} {s s' : Deployment σ}

/-- The `p`-th line that was added to the journal is the one of write `i`. -/
def LineOf (setup : JournalSetup) (s : Deployment σ) (i p : Nat) : Prop :=
  ∃ call ∈ s.calls, call.write = i ∧ s.network.Appears setup call.record p

/-- The `p`-th line that was added to the journal, once it is on disk. -/
def synced (setup : JournalSetup) (s : Deployment σ) (p : Nat) : Option Bytes :=
  (Lines.cut (s.network.collector.journal.take s.network.collector.synced)).1[
    (Lines.cut setup.journal).1.length + p]?

/-- The event of an acknowledged write is on disk. -/
def OnDisk (setup : JournalSetup) (s : Deployment σ) (i : Nat) (event : AuditEvent) : Prop :=
  ∃ p, s.synced setup p = some event.line ∧ ∀ q, s.LineOf setup i q ↔ q = p

structure EndToEnd (H : AuditHost σ ℓ) (setup : JournalSetup) (s : Deployment σ) : Prop where
  acknowledged : ∀ (i : Nat) w, (H.audit s.host).writes[i]? = some w → w.delivery = .fulfilled →
    s.OnDisk setup i w.event
  /-- A write is one line, -/
  once : ∀ i p q, s.LineOf setup i p → s.LineOf setup i q → p = q
  /-- and a line is of one write. -/
  unique : ∀ i j p, s.LineOf setup i p → s.LineOf setup j p → i = j
  /-- A line is there for a write that was handed over, with its event. -/
  line : ∀ i p, s.LineOf setup i p → ∃ w, (H.audit s.host).writes[i]? = some w ∧
    i ∈ (H.audit s.host).handed ∧
    (s.network.collector.appendedLines setup)[p]? = some w.event.line
  /-- Every other line is there for another process. -/
  others : ∀ (p : Nat) line, (s.network.collector.appendedLines setup)[p]? = some line →
    (∃ i, s.LineOf setup i p) ∨ ∃ (r : Nat) (record : SinkRecord),
      s.network.sinks.records[r]? = some record ∧ record.client ≠ 0 ∧ record.line = line

theorem LineOf.once (h : Joined H s) (hbooks : (H.audit s.host).Accounting)
    (hparts : s.network.Parts setup) {i p q : Nat} (hp : s.LineOf setup i p)
    (hq : s.LineOf setup i q) : p = q := by
  obtain ⟨call, hcall, rfl, happears⟩ := hp
  obtain ⟨call', hcall', hwrite, happears'⟩ := hq
  obtain rfl := h.write_injective hbooks hcall' hcall hwrite
  exact hparts.once happears happears'

/-- An acknowledged write: its row was handed to the sink, and its record was acknowledged. -/
theorem onDisk_of_fulfilled (h : (machine H setup).Reachable s) {i : Nat} {w : Write AuditEvent}
    (hw : (H.audit s.host).writes[i]? = some w) (hdelivery : w.delivery = .fulfilled) :
    s.OnDisk setup i w.event := by
  have hbooks := AuditDispatcher.Accounting.of_reachable (audit_reachable h)
  have hparts := CollectorNetwork.parts_of_reachable (network_reachable h)
  have hjoined := joined_of_reachable h
  have hwork := hbooks.fulfilled hw hdelivery
  have hcount := hbooks.calls i w hw
  rw [if_neg (by rw [hwork]; simp)] at hcount
  have hmem : i ∈ s.calls.map SinkCall.write := by
    rw [hjoined.writes]
    exact List.count_pos_iff.mp (by omega)
  obtain ⟨call, hcall, rfl⟩ := List.mem_map.mp hmem
  obtain ⟨w', record, hw', hrecord, hpaired⟩ := hjoined.call call hcall
  obtain rfl := Option.some.inj (hw.symm.trans hw')
  obtain ⟨p, happears, hline⟩ := hparts.acknowledged hrecord (hpaired.fulfilled hwork)
  have hlineOf : s.LineOf setup call.write p := ⟨call, hcall, rfl, happears⟩
  refine ⟨p, ?_, fun q => ⟨fun hq => hq.once hjoined hbooks hparts hlineOf, ?_⟩⟩
  · rw [synced, hline, hpaired.line]
  · rintro rfl
    exact hlineOf

/-- Every write that a reachable deployment has acknowledged is on disk, as one line of its own. -/
theorem end_to_end (h : (machine H setup).Reachable s) : EndToEnd H setup s := by
  have hbooks := AuditDispatcher.Accounting.of_reachable (audit_reachable h)
  have hparts := CollectorNetwork.parts_of_reachable (network_reachable h)
  have hjoined := joined_of_reachable h
  constructor
  case acknowledged => exact fun i w hw hdelivery => onDisk_of_fulfilled h hw hdelivery
  case once => exact fun i p q hp hq => hp.once hjoined hbooks hparts hq
  case unique =>
    rintro i j p ⟨call, hcall, rfl, happears⟩ ⟨call', hcall', rfl, happears'⟩
    rw [hjoined.record_injective hcall hcall' (happears.record_unique happears')]
  case line =>
    rintro i p ⟨call, hcall, rfl, happears⟩
    obtain ⟨w, record, hw, hrecord, hpaired⟩ := hjoined.call call hcall
    have hmem : call.write ∈ (H.audit s.host).handed := by
      rw [← hjoined.writes]
      exact List.mem_map_of_mem hcall
    refine ⟨w, hw, hmem, ?_⟩
    obtain ⟨r, record', happears', hrecord', hline⟩ := hparts.source
      (List.getElem?_eq_getElem happears.1)
    obtain rfl := happears.record_unique happears'
    obtain rfl := Option.some.inj (hrecord.symm.trans hrecord')
    rw [List.getElem?_eq_getElem happears.1, ← hline, hpaired.line]
  case others =>
    intro p line hline
    obtain ⟨r, record, happears, hrecord, hsame⟩ := hparts.source hline
    by_cases hclient : record.client = 0
    · obtain ⟨call, hcall, rfl⟩ := hjoined.all r record hrecord hclient
      exact Or.inl ⟨call.write, call, hcall, rfl, happears⟩
    · exact Or.inr ⟨r, record, hrecord, hclient, hsame⟩

/-- A dispatcher that other code writes to as it likes. -/
def dispatcherHost (capacity : Nat) : AuditHost (AuditDispatcher AuditEvent)
    (AuditDispatcher.Label AuditEvent) where
  machine := AuditDispatcher.machine AuditEvent capacity
  audit d := d
  capacity
  init := rfl
  label k := k
  step_label _ _ _ h := h
  isSink := AuditDispatcher.Label.isSink
  quiet _ k _ hk h := Or.inr ⟨k, hk, h⟩

/-- An event, written and acknowledged; the line reaches the collector in two chunks. -/
def acknowledgedWrite : List (Label (AuditDispatcher.Label AuditEvent)) :=
  [.host (.write LoggedDispatcher.noteEvent none), .callSink 0 0, .network (.accept 0),
    .network (.sink (.connect 0 2)), .network (.deliver 0 5),
    .network (.deliver 0 (LoggedDispatcher.noteEvent.line.length - 5)),
    .network (.collector (.run 0)),
    .network (.collector (.append 0 LoggedDispatcher.noteEvent.line.length)),
    .network (.collector (.appended 0 true)), .network (.collector (.synchronized 0 true [])),
    .network (.answer 0 1 0), .settle 0, .host (.resume 0)]

theorem end_to_end_acknowledgedWrite : ∃ s,
    (machine (dispatcherHost 8) Collector.emptyJournal).exec
      (machine (dispatcherHost 8) Collector.emptyJournal).init acknowledgedWrite = some s ∧
    s.host.writes.map Write.delivery = [.fulfilled] ∧
    EndToEnd (dispatcherHost 8) Collector.emptyJournal s := by
  have hrun : ((machine (dispatcherHost 8) Collector.emptyJournal).exec
      (machine (dispatcherHost 8) Collector.emptyJournal).init acknowledgedWrite).map
        (fun s => s.host.writes.map Write.delivery) = some [.fulfilled] := by
    decide +kernel
  obtain ⟨s, hexec, hdelivery⟩ := Option.map_eq_some_iff.mp hrun
  exact ⟨s, hexec, hdelivery, end_to_end (Machine.leads_of_exec hexec)⟩

end Deployment

end SecureMcp
