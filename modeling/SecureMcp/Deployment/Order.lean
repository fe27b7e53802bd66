import SecureMcp.Collector.Journal
import SecureMcp.Deployment.Durable

set_option autoImplicit false

/-! # The order of the journal

Records may take different connections, and the journal then has them in any order. But what is handed
to the sink only after a write was acknowledged comes after it in the journal, over any number of
connections: a process that awaits a record before it goes on has its records in that order. -/

namespace SecureMcp

namespace Deployment

variable {σ ℓ : Type} {H : AuditHost σ ℓ} {setup : JournalSetup} {s s' : Deployment σ}
  {l : Label ℓ}

/-- The calls of `s'` go on from those of `s`, and the new ones made new records. -/
def CallsExtend (s s' : Deployment σ) : Prop :=
  s.calls <+: s'.calls ∧ ∀ call ∈ s'.calls,
    call ∈ s.calls ∨ s.network.sinks.records.length ≤ call.record

theorem Effect.callsExtend (he : Effect H setup s s') : CallsExtend s s' := by
  cases he with
  | called i room w host network =>
      refine ⟨List.prefix_append _ _, fun call hcall => ?_⟩
      rcases List.mem_append.mp hcall with hold | hnew
      · exact Or.inl hold
      · obtain rfl := List.mem_singleton.mp hnew
        exact Or.inr (Nat.le_refl _)
  | host | network | settled | closed => exact ⟨List.prefix_rfl, fun call hcall => Or.inl hcall⟩

theorem network_leads (h : (machine H setup).Leads s s') :
    (CollectorNetwork.machine setup).Leads s.network s'.network :=
  h.rel (R := fun s s' => (CollectorNetwork.machine setup).Leads s.network s'.network)
    (fun s => Machine.Leads.refl s.network) (fun _ _ _ => Machine.Leads.trans)
    (fun _ _ _ hstep => (step_effect hstep).network_leads)

theorem callsExtend_of_leads (h : (machine H setup).Leads s s') : CallsExtend s s' := by
  have key : (machine H setup).Leads s s' ∧ CallsExtend s s' := by
    refine h.invariant (I := fun t => (machine H setup).Leads s t ∧ CallsExtend s t)
      ⟨Machine.Leads.refl s, List.prefix_rfl, fun call hcall => Or.inl hcall⟩ ?_
    rintro t l t' ⟨hlead, hprefix, hnew⟩ hstep
    obtain ⟨hprefix', hnew'⟩ := (step_effect hstep).callsExtend
    refine ⟨hlead.snoc hstep, hprefix.trans hprefix', fun call hcall => ?_⟩
    rcases hnew' call hcall with hold | hlate
    · exact hnew call hold
    · exact Or.inr (Nat.le_trans
        (CollectorNetwork.records_length_le (network_leads hlead)) hlate)
  exact key.2

/-- The line of a write keeps its place. -/
theorem LineOf.of_leads {i p : Nat} (hp : s.LineOf setup i p) (h : (machine H setup).Leads s s') :
    s'.LineOf setup i p := by
  obtain ⟨call, hcall, hwrite, happears⟩ := hp
  exact ⟨call, (callsExtend_of_leads h).1.subset hcall, hwrite,
    happears.extends (CollectorNetwork.extends_of_leads (network_leads h))⟩

/-- A line of a write was there, or comes after the lines that were. -/
theorem LineOf.old_or_later (hs : (machine H setup).Reachable s) (h : (machine H setup).Leads s s')
    {j q : Nat} (hq : s'.LineOf setup j q) :
    s.LineOf setup j q ∨ (s.network.collector.appendedLines setup).length ≤ q := by
  obtain ⟨call, hcall, hwrite, happears⟩ := hq
  have hextends := CollectorNetwork.extends_of_leads (network_leads h)
  rcases (callsExtend_of_leads h).2 call hcall with hold | hnew
  · by_cases hlt : q < (s.network.collector.appendedLines setup).length
    · obtain ⟨r, record, hplace, _⟩ := (CollectorNetwork.parts_of_reachable
        (network_reachable hs)).source (List.getElem?_eq_getElem hlt)
      obtain rfl := (hplace.extends hextends).record_unique happears
      exact Or.inl ⟨call, hold, hwrite, hplace⟩
    · exact Or.inr (Nat.le_of_not_lt hlt)
  · exact Or.inr (happears.later (network_reachable hs) hextends hnew)

/-- Write `i` is in the journal, and before write `j` wherever that one is. -/
def Before (setup : JournalSetup) (s : Deployment σ) (i j : Nat) : Prop :=
  ∃ p, s.LineOf setup i p ∧ ∀ q, s.LineOf setup j q → p < q

theorem Before.of_leads {i j : Nat} (hb : s.Before setup i j) (hs : (machine H setup).Reachable s)
    (h : (machine H setup).Leads s s') : s'.Before setup i j := by
  obtain ⟨p, hp, hfirst⟩ := hb
  refine ⟨p, hp.of_leads h, fun q hq => ?_⟩
  rcases hq.old_or_later hs h with hold | hlater
  · exact hfirst q hold
  · obtain ⟨call, _, _, happears⟩ := hp
    exact Nat.lt_of_lt_of_le happears.1 hlater

/-- A write that was not handed to the sink has no line. -/
theorem not_lineOf (hs : (machine H setup).Reachable s) {j q : Nat}
    (hj : j ∉ (H.audit s.host).handed) : ¬ s.LineOf setup j q := by
  rintro ⟨call, hcall, rfl, _⟩
  rw [← (joined_of_reachable hs).writes] at hj
  exact hj (List.mem_map_of_mem hcall)

theorem before_of_fulfilled (hs : (machine H setup).Reachable s) {i j : Nat} {w : Write AuditEvent}
    (hw : (H.audit s.host).writes[i]? = some w) (hdelivery : w.delivery = .fulfilled)
    (hj : j ∉ (H.audit s.host).handed) : s.Before setup i j := by
  obtain ⟨p, _, honly⟩ := onDisk_of_fulfilled hs hw hdelivery
  exact ⟨p, (honly p).mpr rfl, fun q hq => absurd hq (not_lineOf hs hj)⟩

/-- What is on disk stays there, in its place. -/
theorem synced_of_leads (hs : (machine H setup).Reachable s) (h : (machine H setup).Leads s s')
    {p : Nat} {line : Bytes} (hp : s.synced setup p = some line) : s'.synced setup p = some line := by
  have hextends := (CollectorNetwork.extends_of_leads (network_leads h)).collector
  have hprefix := Collector.cut_prefix (hextends.synced
    (CollectorNetwork.parts_of_reachable (network_reachable hs)).collector
    (CollectorNetwork.parts_of_reachable (network_reachable (hs.trans h))).collector)
  exact Table.getElem?_of_prefix hprefix hp

/-! ## Writes that follow others -/

/-- Write `j` was refused, or write `i` comes before it in the journal. -/
def Follows (H : AuditHost σ ℓ) (setup : JournalSetup) (s : Deployment σ) (i j : Nat) : Prop :=
  (∃ w, (H.audit s.host).writes[j]? = some w ∧ w.work = .refused) ∨ s.Before setup i j

theorem Follows.of_leads {i j : Nat} (hf : Follows H setup s i j)
    (hs : (machine H setup).Reachable s) (h : (machine H setup).Leads s s') :
    Follows H setup s' i j := by
  rcases hf with ⟨w, hw, hrefused⟩ | hbefore
  · obtain ⟨w', hw', hev⟩ := AuditDispatcher.evolves_of_leads (audit_of_leads h) hw
    exact Or.inl ⟨w', hw', by rw [hev.work (by rw [hrefused]; rfl), hrefused]⟩
  · exact Or.inr (hbefore.of_leads hs h)

/-- A refused write has no line. -/
theorem Follows.before {i j q : Nat} (hf : Follows H setup s i j)
    (hs : (machine H setup).Reachable s) (hq : s.LineOf setup j q) :
    ∃ p, p < q ∧ s.LineOf setup i p := by
  rcases hf with ⟨w, hw, hrefused⟩ | ⟨p, hp, hfirst⟩
  · obtain ⟨call, hcall, rfl, _⟩ := hq
    obtain ⟨w', record, hw', _, hpaired⟩ := (joined_of_reachable hs).call call hcall
    obtain rfl := Option.some.inj (hw.symm.trans hw')
    exact absurd hrefused hpaired.reached.1
  · exact ⟨p, hfirst q hq, hp⟩

theorem Effect.audit_step (he : Effect H setup s s') : H.audit s'.host = H.audit s.host ∨
    ∃ k, (H.audit s.host).step k = some (H.audit s'.host) := by
  cases he with
  | host label host hsink hstep =>
      exact (H.quiet _ label host hsink hstep).imp id (fun ⟨k, _, hk⟩ => ⟨k, hk⟩)
  | network => exact Or.inl rfl
  | called i room w host network _ hhost => exact Or.inr ⟨_, H.step_label _ _ _ hhost⟩
  | settled n call record ok host _ _ _ hhost => exact Or.inr ⟨_, H.step_label _ _ _ hhost⟩
  | closed host network hhost => exact Or.inr ⟨_, H.step_label _ _ _ hhost⟩

theorem Effect.host_step (he : Effect H setup s s') : s'.host = s.host ∨
    ∃ l, H.machine.step s.host l = some s'.host := by
  cases he with
  | host label host _ hstep => exact Or.inr ⟨label, hstep⟩
  | network => exact Or.inl rfl
  | called i room w host network _ hhost => exact Or.inr ⟨_, hhost⟩
  | settled n call record ok host _ _ _ hhost => exact Or.inr ⟨_, hhost⟩
  | closed host network hhost => exact Or.inr ⟨_, hhost⟩

/-- A row that a step adds was made by a `write`. -/
theorem Effect.new_row (he : Effect H setup s s') {n : Nat} {w : Write AuditEvent}
    (hw : (H.audit s'.host).writes[n]? = some w) (hnew : (H.audit s.host).writes[n]? = none) :
    n = (H.audit s.host).writes.length ∧
      ∃ event scope, H.audit s'.host = (H.audit s.host).write event scope := by
  rcases he.audit_step with hsame | ⟨k, hk⟩
  · rw [hsame, hnew] at hw
    exact absurd hw (by simp)
  · rcases AuditDispatcher.write_or_length hk with ⟨event, scope, _, hwritten⟩ | hlength
    · refine ⟨?_, event, scope, hwritten⟩
      obtain ⟨w', hwrites, _⟩ := AuditDispatcher.write_row (H.audit s.host) event scope
      rw [hwritten, hwrites] at hw
      rcases Table.getElem?_append_cases hw with hold | ⟨hlast, _⟩
      · exact absurd (hnew.symm.trans hold) (by simp)
      · exact hlast
    · rw [List.getElem?_eq_none_iff, ← hlength] at hnew
      exact absurd (Table.lt_of_getElem? hw) (Nat.not_lt.mpr hnew)

/-- A write made when another one had settled: a lost one has latched the dispatcher. -/
theorem follows_new (hs : (machine H setup).Reachable s) (hstep : (machine H setup).step s l = some s')
    {i n : Nat} {w b : Write AuditEvent} (hw : (H.audit s'.host).writes[n]? = some w)
    (hnew : (H.audit s.host).writes[n]? = none) (hb : (H.audit s.host).writes[i]? = some b)
    (hsettled : b.delivery.settled = true) : Follows H setup s' i n := by
  have hbooks := AuditDispatcher.Accounting.of_reachable (audit_reachable hs)
  obtain ⟨rfl, event, scope, hwritten⟩ := (step_effect hstep).new_row hw hnew
  cases hhealthy : (H.audit s.host).healthy with
  | true =>
      have hnot : (H.audit s.host).writes.length ∉ (H.audit s.host).handed :=
        fun hmem => absurd (hbooks.handed _ hmem) (Nat.lt_irrefl _)
      exact Or.inr ((before_of_fulfilled hs hb (hbooks.fulfilled_of_settled hhealthy hb hsettled)
        hnot).of_leads hs (Machine.Leads.single hstep))
  | false =>
      have hrow := AuditDispatcher.write_of_refuses
        (AuditDispatcher.refuses_of_unhealthy hhealthy) event scope
      rw [← hwritten] at hrow
      exact Or.inl ⟨_, hrow, rfl⟩

/-- An acknowledged write is on disk, stays there in the same place, and comes before whatever had not
    been handed to the sink when it was acknowledged. -/
theorem acknowledged_first (hs : (machine H setup).Reachable s) (h : (machine H setup).Leads s s')
    {i j : Nat} {w : Write AuditEvent} (hw : (H.audit s.host).writes[i]? = some w)
    (hdelivery : w.delivery = .fulfilled) (hj : j ∉ (H.audit s.host).handed) :
    ∃ p, s.synced setup p = some w.event.line ∧ (∀ q, s.LineOf setup i q ↔ q = p) ∧
      s'.synced setup p = some w.event.line ∧ (∀ q, s'.LineOf setup i q ↔ q = p) ∧
      ∀ q, s'.LineOf setup j q → p < q := by
  obtain ⟨p, hsynced, honly⟩ := onDisk_of_fulfilled hs hw hdelivery
  have hline : s'.LineOf setup i p := ((honly p).mpr rfl).of_leads h
  obtain ⟨p', hline', hfirst⟩ := (before_of_fulfilled hs hw hdelivery hj).of_leads hs h
  have hbooks := AuditDispatcher.Accounting.of_reachable (audit_reachable (hs.trans h))
  have hparts := CollectorNetwork.parts_of_reachable (network_reachable (hs.trans h))
  have honce : ∀ q, s'.LineOf setup i q → q = p :=
    fun q hq => hq.once (joined_of_reachable (hs.trans h)) hbooks hparts hline
  obtain rfl := honce p' hline'
  exact ⟨p', hsynced, honly, synced_of_leads hs h hsynced,
    fun q => ⟨honce q, fun hq => hq ▸ hline⟩, hfirst⟩

/-- A second write, which goes over the same connection. -/
def secondWrite : List (Label (AuditDispatcher.Label AuditEvent)) :=
  [.host (.write LoggedDispatcher.noteEvent none), .callSink 1 2,
    .network (.deliver 0 LoggedDispatcher.noteEvent.line.length), .network (.collector (.run 0)),
    .network (.collector (.append 0 LoggedDispatcher.noteEvent.line.length))]

theorem acknowledged_first_secondWrite : ∃ s s',
    (machine (dispatcherHost 8) Collector.emptyJournal).exec
      (machine (dispatcherHost 8) Collector.emptyJournal).init acknowledgedWrite = some s ∧
    (machine (dispatcherHost 8) Collector.emptyJournal).exec s secondWrite = some s' ∧
    (s'.network.collector.appendedLines Collector.emptyJournal).length = 2 ∧
    ∃ p, (∀ q, s.LineOf Collector.emptyJournal 0 q ↔ q = p) ∧
      (∀ q, s'.LineOf Collector.emptyJournal 0 q ↔ q = p) ∧
      ∀ q, s'.LineOf Collector.emptyJournal 1 q → p < q := by
  have hrun : ((machine (dispatcherHost 8) Collector.emptyJournal).exec
      (machine (dispatcherHost 8) Collector.emptyJournal).init acknowledgedWrite).bind (fun s =>
        ((machine (dispatcherHost 8) Collector.emptyJournal).exec s secondWrite).map (fun s' =>
          (s.host.writes.map Write.delivery, s.host.handed,
            (s'.network.collector.appendedLines Collector.emptyJournal).length))) =
      some ([.fulfilled], [0], 2) := by
    decide +kernel
  obtain ⟨s, hexec, hrest⟩ := Option.bind_eq_some_iff.mp hrun
  obtain ⟨s', hexec', hstate⟩ := Option.map_eq_some_iff.mp hrest
  obtain ⟨hdeliveries, hstate⟩ := Prod.mk.inj hstate
  obtain ⟨hhanded, hlength⟩ := Prod.mk.inj hstate
  have hzero : (s.host.writes.map Write.delivery)[0]? = some .fulfilled := by
    rw [hdeliveries]
    rfl
  rw [List.getElem?_map] at hzero
  obtain ⟨w, hw, hdelivery⟩ := Option.map_eq_some_iff.mp hzero
  have hnot : 1 ∉ ((dispatcherHost 8).audit s.host).handed := by
    show 1 ∉ s.host.handed
    rw [hhanded]
    decide
  obtain ⟨p, _, honly, _, honly', hfirst⟩ := acknowledged_first (Machine.leads_of_exec hexec)
    (Machine.leads_of_exec hexec') hw hdelivery hnot
  exact ⟨s, s', hexec, hexec', hlength, p, honly, honly', hfirst⟩

end Deployment

end SecureMcp
