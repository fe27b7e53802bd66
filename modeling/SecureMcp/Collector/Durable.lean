import SecureMcp.Collector.Delivery
import SecureMcp.Lib.Occurrences

set_option autoImplicit false

/-! # Acknowledged means durable

A record is known by the connection its line was written to and by how many lines were written there
before it; a line of the journal is known by the socket its frame came from and by how many frames of
that socket precede it. The two countings agree (`Appears`), and so an acknowledgement, which counts
too, can only be for a record that has been synced. -/

namespace SecureMcp

namespace Collector

variable {setup : JournalSetup} {k : Collector} {y i : Nat}

/-! ## The lines of the journal -/

/-- The complete lines that a run has added to the journal. -/
def appendedLines (setup : JournalSetup) (k : Collector) : List Bytes :=
  (Lines.cut k.journal).1.drop (Lines.cut setup.journal).1.length

theorem cut_setup (setup : JournalSetup) (more : Bytes) :
    Lines.cut (setup.journal ++ more) =
      ((Lines.cut setup.journal).1 ++ (Lines.cut more).1, (Lines.cut more).2) := by
  have hrest : (Lines.cut setup.journal).2 = [] := by
    by_contra hne
    have hflatten := Lines.cut_flatten setup.journal
    rcases setup.whole with hnil | hlast
    · exact hne (by rw [hnil]; rfl)
    · rw [← hflatten, List.getLast?_append_of_ne_nil _ hne] at hlast
      exact Lines.newline_not_mem_remainder _ (List.mem_of_getLast? hlast)
  rw [Lines.cut_append_remainder, hrest, List.nil_append]

theorem dataOf_eq (frames : List QueuedFrame) :
    dataOf frames = (frames.map QueuedFrame.data).flatten := by
  rw [dataOf, List.flatMap]

/-- Whole frames are cut into themselves. -/
theorem cut_dataOf {frames : List QueuedFrame} (h : ∀ entry ∈ frames, Lines.IsLine entry.data)
    (more : Bytes) : Lines.cut (dataOf frames ++ more) =
      (frames.map QueuedFrame.data ++ (Lines.cut more).1, (Lines.cut more).2) := by
  rw [dataOf_eq]
  refine Lines.cut_append ?_ more
  intro line hline
  obtain ⟨entry, hentry, rfl⟩ := List.mem_map.mp hline
  exact h entry hentry

theorem Framed.isLine (h : Framed k) : ∀ entry ∈ k.accepted, Lines.IsLine entry.data := by
  intro entry hentry
  have hlt := (h.frame entry hentry).2
  have hmem : entry.data ∈ k.framesOf entry.socket :=
    List.mem_map_of_mem (List.mem_filter.mpr ⟨hentry, beq_self_eq_true _⟩)
  exact Lines.cut_lines _ _
    ((h.stream entry.socket _ (List.getElem?_eq_getElem hlt)).subset hmem)

/-- The lines are those of the first frames that were given to the journal, and the synced frames
    are among them. -/
theorem appendedLines_spec (h : (machine setup).Reachable k) :
    k.appendedLines setup <+: k.handed.map QueuedFrame.data ∧
      k.durable.map QueuedFrame.data <+: k.appendedLines setup ∧
      Lines.cut (k.journal.take k.synced) =
        ((Lines.cut setup.journal).1 ++ k.durable.map QueuedFrame.data, []) := by
  have hbooks := books_of_reachable h
  have hlines := (framed_of_reachable h).isLine
  have hhanded : ∀ entry ∈ k.handed, Lines.IsLine entry.data :=
    fun entry hentry => hlines entry (hbooks.kept.2.subset hentry)
  have hdurable : ∀ entry ∈ k.durable, Lines.IsLine entry.data :=
    fun entry hentry => hhanded entry (hbooks.kept.1.subset hentry)
  obtain ⟨more, hmore⟩ := hbooks.durable
  obtain ⟨unwritten, hunwritten⟩ := hbooks.journal
  have hcut : k.appendedLines setup = (Lines.cut (dataOf k.durable ++ more)).1 := by
    rw [appendedLines, ← hmore, List.append_assoc, cut_setup, List.drop_left]
  have hall : dataOf k.durable ++ more ++ unwritten = dataOf k.handed := by
    rw [← hmore, List.append_assoc, List.append_assoc] at hunwritten
    rw [List.append_assoc]
    exact List.append_cancel_left hunwritten
  refine ⟨?_, ?_, ?_⟩
  · have hflatten := Lines.cut_flatten (dataOf k.durable ++ more)
    rw [← hcut] at hflatten
    rw [← hflatten, dataOf_eq, List.append_assoc] at hall
    have htake := (Lines.take_of_flatten (k.appendedLines setup)
      (by rw [hcut]; exact Lines.cut_lines _)
      (by
        intro line hline
        obtain ⟨entry, hentry, rfl⟩ := List.mem_map.mp hline
        exact hhanded entry hentry) hall).1
    rw [htake]
    exact List.take_prefix _ _
  · rw [hcut, cut_dataOf hdurable]
    exact List.prefix_append _ _
  · have htake : k.journal.take k.synced = setup.journal ++ (dataOf k.durable ++ []) := by
      rw [hbooks.synced, ← hmore, List.take_left, List.append_nil]
    rw [htake, cut_setup, cut_dataOf hdurable]
    simp [Lines.cut]

/-- Apart from a batch that is just being written, whole batches have been appended. -/
theorem whole_batches (h : (machine setup).Reachable k) (hfailed : k.appendFailed = false) :
    ∃ done batch written, k.handed = done ++ batch ∧
      k.journal = setup.journal ++ dataOf done ++ (dataOf batch).take written ∧
      (batch = [] ∨ ∃ i : Nat, k.loops[i]? = some (.writing batch written)) := by
  have hbooks := books_of_reachable h
  cases hhealthy : k.healthy with
  | false =>
      refine ⟨k.handed, [], 0, (List.append_nil _).symm, ?_, Or.inl rfl⟩
      rw [List.take_zero, List.append_nil]
      exact hbooks.whole hhealthy hfailed
  | true =>
      have hworking := hbooks.working hhealthy
      rcases hbooks.loops with ⟨_, hnil⟩ | ⟨_, loop, hone⟩
      · have hbatch : k.batch = [] := by rw [batch, hnil]; rfl
        refine ⟨k.durable, k.batch, k.inProgress, hworking.handed, hworking.journal, Or.inl hbatch⟩
      · have hbatch := batch_of hone
        have hprogress := inProgress_of hone
        cases loop with
        | scheduled =>
            exact ⟨k.durable, k.batch, k.inProgress, hworking.handed, hworking.journal, Or.inl hbatch⟩
        | writing batch written =>
            refine ⟨k.durable, batch, written, ?_, ?_, Or.inr ⟨0, by rw [hone]; rfl⟩⟩
            · rw [hworking.handed, hbatch]
              rfl
            · rw [hworking.journal, hbatch, hprogress]
              rfl
        | syncing batch =>
            refine ⟨k.handed, [], 0, (List.append_nil _).symm, ?_, Or.inl rfl⟩
            have htake : (dataOf batch).take (dataOf batch).length = dataOf batch := List.take_length
            rw [hworking.journal, hworking.handed, hbatch, hprogress, dataOf_append,
              List.take_zero, List.append_nil, List.append_assoc]
            exact congrArg (fun tail => setup.journal ++ (dataOf k.durable ++ tail)) htake

end Collector

namespace CollectorNetwork

variable {setup : JournalSetup} {s : CollectorNetwork}

/-! ## Where a record appears -/

/-- The frames of one socket. -/
def ofSocket (y : Nat) (entry : QueuedFrame) : Bool := entry.socket == y

/-- The `p`-th line that this run has added to the journal is the one of record `r`: this was the
    `k`-th line on its connection, and that line came from the `k`-th frame of its socket. -/
def Appears (setup : JournalSetup) (s : CollectorNetwork) (r p : Nat) : Prop :=
  p < (s.collector.appendedLines setup).length ∧
    ∃ x k y entry, s.sinks.WrittenAt r x k ∧ s.links[y]? = some x ∧
      Occurrences.IsNth s.collector.handed (ofSocket y) k p entry

/-- The `k`-th frame of a socket is the `k`-th line of its connection. -/
theorem Parts.place (h : Parts setup s) {x y k p : Nat} {entry : QueuedFrame}
    (hlink : s.links[y]? = some x)
    (hentry : Occurrences.IsNth s.collector.handed (ofSocket y) k p entry) :
    ∃ conn item, s.sinks.connections[x]? = some conn ∧ conn.sent[k]? = some item ∧
      item.line = entry.data := by
  obtain ⟨conn, hconn, hframes⟩ := h.frames hlink
  have hkept := (Collector.books_of_reachable h.collector).kept.2
  have hfilter : s.collector.handed.filter (ofSocket y) <+: s.collector.accepted.filter (ofSocket y) :=
    hkept.filter _
  have hframe : (s.collector.framesOf y)[k]? = some entry.data := by
    show ((s.collector.accepted.filter (ofSocket y)).map QueuedFrame.data)[k]? = _
    rw [List.getElem?_map, Table.getElem?_of_prefix hfilter hentry.filter]
    rfl
  have hline := Table.getElem?_of_prefix hframes hframe
  rw [List.getElem?_map] at hline
  obtain ⟨item, hitem, hsame⟩ := Option.map_eq_some_iff.mp hline
  exact ⟨conn, item, hconn, hitem, hsame⟩

/-- A record has one position. -/
theorem Parts.once (h : Parts setup s) {r p q : Nat} (hp : s.Appears setup r p)
    (hq : s.Appears setup r q) : p = q := by
  obtain ⟨_, x, k, y, entry, hwritten, hlink, hnth⟩ := hp
  obtain ⟨_, x', k', y', entry', hwritten', hlink', hnth'⟩ := hq
  obtain ⟨rfl, rfl⟩ := (Sinks.wired_of_reachable h.sinks).written_once hwritten hwritten'
  obtain rfl := h.linked.link_inj hlink hlink'
  exact hnth.unique hnth'

/-- A position is that of one record. -/
theorem Appears.record_unique {r r' p : Nat} (hr : s.Appears setup r p)
    (hr' : s.Appears setup r' p) : r = r' := by
  obtain ⟨_, x, k, y, entry, ⟨conn, item, hconn, hitem, rfl⟩, hlink, hentry, hsocket, hk⟩ := hr
  obtain ⟨_, x', k', y', entry', ⟨conn', item', hconn', hitem', rfl⟩, hlink', hentry', hsocket',
    hk'⟩ := hr'
  obtain rfl := Option.some.inj (hentry.symm.trans hentry')
  obtain rfl : y = y' := (eq_of_beq hsocket).symm.trans (eq_of_beq hsocket')
  obtain rfl := Option.some.inj (hlink.symm.trans hlink')
  obtain rfl := Option.some.inj (hconn.symm.trans hconn')
  obtain rfl := hk.symm.trans hk'
  obtain rfl := Option.some.inj (hitem.symm.trans hitem')
  rfl

/-- Every line that was added is that of a record, which appears there. -/
theorem Parts.source (h : Parts setup s) {p : Nat} {line : Bytes}
    (hline : (s.collector.appendedLines setup)[p]? = some line) :
    ∃ r record, s.Appears setup r p ∧ s.sinks.records[r]? = some record ∧ record.line = line := by
  obtain ⟨hlines, _⟩ := Collector.appendedLines_spec h.collector
  have hhanded := Table.getElem?_of_prefix hlines hline
  rw [List.getElem?_map] at hhanded
  obtain ⟨entry, hentry, rfl⟩ := Option.map_eq_some_iff.mp hhanded
  have haccepted : entry ∈ s.collector.accepted :=
    (Collector.books_of_reachable h.collector).kept.2.subset (List.mem_of_getElem? hentry)
  have hsocket := ((Collector.framed_of_reachable h.collector).frame entry haccepted).2
  rw [← h.linked.sockets] at hsocket
  have hlink := List.getElem?_eq_getElem hsocket
  have hnth : Occurrences.IsNth s.collector.handed (ofSocket entry.socket)
      ((s.collector.handed.take p).countP (ofSocket entry.socket)) p entry :=
    ⟨hentry, beq_self_eq_true _, rfl⟩
  obtain ⟨conn, item, hconn, hitem, hsame⟩ := h.place hlink hnth
  obtain ⟨record, hrecord, _, hrecordLine⟩ := (Sinks.wired_of_reachable h.sinks).item _ conn hconn item
    (List.mem_of_getElem? hitem)
  exact ⟨item.record, record, ⟨Table.lt_of_getElem? hline, _, _, _, entry,
    ⟨conn, item, hconn, hitem, rfl⟩, hlink, hnth⟩, hrecord, hrecordLine.trans hsame⟩

/-- On one connection the `k`-th line is followed by the later ones, and none of them is in the
    journal without it. -/
theorem Parts.order (h : Parts setup s) {x k k' r r' p' : Nat} (hwritten : s.sinks.WrittenAt r x k)
    (hwritten' : s.sinks.WrittenAt r' x k') (hkk : k < k') (hp' : s.Appears setup r' p') :
    ∃ p, p < p' ∧ s.Appears setup r p := by
  obtain ⟨hlt, x'', k'', y, entry, hplace, hlink, hnth⟩ := hp'
  obtain ⟨rfl, rfl⟩ := (Sinks.wired_of_reachable h.sinks).written_once hwritten' hplace
  have hcount : k < s.collector.handed.countP (ofSocket y) := by
    have hle := ((List.take_prefix p' s.collector.handed).sublist).countP_le (p := ofSocket y)
    have hk := hnth.2.2
    omega
  obtain ⟨p, entry', hnth'⟩ := Occurrences.exists_isNth _ _ _ hcount
  have hpp := hnth'.lt hnth hkk
  exact ⟨p, hpp, Nat.lt_trans hpp hlt, x, k, y, entry', hwritten, hlink, hnth'⟩

/-- A record whose promise is fulfilled is one of the lines that have been synced. -/
theorem Parts.acknowledged (h : Parts setup s) {r : Nat} {record : SinkRecord}
    (hrecord : s.sinks.records[r]? = some record) (hpromise : record.promise = .fulfilled) :
    ∃ p, s.Appears setup r p ∧
      (Lines.cut (s.collector.journal.take s.collector.synced)).1[
        (Lines.cut setup.journal).1.length + p]? = some record.line := by
  have hwired := Sinks.wired_of_reachable h.sinks
  have hbooks := Collector.books_of_reachable h.collector
  obtain ⟨_, hdurable, hsynced⟩ := Collector.appendedLines_spec h.collector
  obtain ⟨x, conn, k, item, hconn, hitem, rfl, hread⟩ := hwired.fulfilled r record hrecord hpromise
  -- The client has read more than `k` octets here, so the connection was accepted.
  have hlinked : x ∈ s.links := by
    by_contra hout
    rw [h.linked.unlinked x conn hconn hout] at hread
    exact absurd hread (Nat.not_lt_zero k)
  obtain ⟨y, hy, hlink⟩ := List.getElem_of_mem hlinked
  have hlink' : s.links[y]? = some x := by rw [List.getElem?_eq_getElem hy, hlink]
  rw [h.linked.sockets] at hy
  obtain ⟨conn', hconn', _, hanswered⟩ :=
    h.linked.streams y x _ hlink' (List.getElem?_eq_getElem hy)
  obtain rfl := Option.some.inj (hconn.symm.trans hconn')
  have hanswers := hbooks.answers y _ (List.getElem?_eq_getElem hy)
  have hle := hanswered.length_le
  obtain ⟨p, entry, hnth⟩ := Occurrences.exists_isNth s.collector.durable
    (ofSocket y) k (Nat.lt_of_lt_of_le hread (Nat.le_trans hle hanswers))
  obtain ⟨more, hmore⟩ := hbooks.kept.1
  have hnth' : Occurrences.IsNth s.collector.handed (ofSocket y) k p entry := by
    rw [← hmore]
    exact hnth.append
  obtain ⟨conn', item', hconn', hitem', hsame⟩ := h.place hlink' hnth'
  obtain rfl := Option.some.inj (hconn.symm.trans hconn')
  obtain rfl := Option.some.inj (hitem.symm.trans hitem')
  obtain ⟨record', hrecord', _, hline⟩ := hwired.item x conn hconn item (List.mem_of_getElem? hitem)
  obtain rfl := Option.some.inj (hrecord.symm.trans hrecord')
  have hdurableLine : (s.collector.durable.map QueuedFrame.data)[p]? = some record.line := by
    rw [List.getElem?_map, hnth.1, hline, hsame]
    rfl
  refine ⟨p, ⟨Table.lt_of_getElem? (Table.getElem?_of_prefix hdurable hdurableLine), x, k, y, entry,
    ⟨conn, item, hconn, hitem, rfl⟩, hlink', hnth'⟩, ?_⟩
  rw [hsynced, List.getElem?_append_right (Nat.le_add_right _ _), Nat.add_sub_cancel_left]
  exact hdurableLine

/-! ## The guarantee -/

structure Durability (setup : JournalSetup) (s : CollectorNetwork) : Prop where
  /-- A fulfilled promise: the line is a complete one of the synced part of the journal, and the
      record appears there and nowhere else. -/
  acknowledged : ∀ (r : Nat) record, s.sinks.records[r]? = some record →
    record.promise = .fulfilled →
    ∃ p, (Lines.cut (s.collector.journal.take s.collector.synced)).1[
        (Lines.cut setup.journal).1.length + p]? = some record.line ∧
      ∀ q, s.Appears setup r q ↔ q = p
  /-- Nothing appears twice. -/
  once : ∀ r p q, s.Appears setup r p → s.Appears setup r q → p = q
  /-- Every line that was added is the line of one record. -/
  source : ∀ (p : Nat) line, (s.collector.appendedLines setup)[p]? = some line →
    ∃ (r : Nat) (record : SinkRecord), s.sinks.records[r]? = some record ∧ record.line = line ∧
      ∀ r', s.Appears setup r' p ↔ r' = r
  /-- The order of one connection is that of the journal, without gaps. -/
  order : ∀ x k k' r r' p', s.sinks.WrittenAt r x k → s.sinks.WrittenAt r' x k' → k < k' →
    s.Appears setup r' p' → ∃ p, p < p' ∧ ∀ q, s.Appears setup r q ↔ q = p
  /-- Whole frames, and of a batch that is just being written the first octets. -/
  whole : s.collector.appendFailed = false → ∃ done batch written,
    s.collector.handed = done ++ batch ∧
    s.collector.journal = setup.journal ++ dataOf done ++ (dataOf batch).take written ∧
    (batch = [] ∨ ∃ i : Nat, s.collector.loops[i]? = some (.writing batch written)) ∧
    ∀ entry ∈ s.collector.handed,
      Lines.IsLine entry.data ∧ Collector.isFrame entry.data = true

/-- Sinks and the collector, with any number of clients and connections, streams cut into chunks
    anywhere and ended at any time, appends that fail after any part of their octets, and syncs that
    fail. -/
theorem acknowledged_durable (h : (machine setup).Reachable s) : Durability setup s := by
  have hparts := parts_of_reachable h
  constructor
  case acknowledged =>
    intro r record hrecord hpromise
    obtain ⟨p, happears, hline⟩ := hparts.acknowledged hrecord hpromise
    refine ⟨p, hline, fun q => ⟨fun hq => hparts.once hq happears, ?_⟩⟩
    rintro rfl
    exact happears
  case once => exact fun r p q => hparts.once
  case source =>
    intro p line hline
    obtain ⟨r, record, happears, hrecord, hsame⟩ := hparts.source hline
    refine ⟨r, record, hrecord, hsame, fun r' => ⟨fun hr' => hr'.record_unique happears, ?_⟩⟩
    rintro rfl
    exact happears
  case order =>
    intro x k k' r r' p' hwritten hwritten' hkk hp'
    obtain ⟨p, hpp, happears⟩ := hparts.order hwritten hwritten' hkk hp'
    refine ⟨p, hpp, fun q => ⟨fun hq => hparts.once hq happears, ?_⟩⟩
    rintro rfl
    exact happears
  case whole =>
    intro hfailed
    obtain ⟨done, batch, written, hhanded, hjournal, hbatch⟩ :=
      Collector.whole_batches hparts.collector hfailed
    have hframed := Collector.framed_of_reachable hparts.collector
    have hkept := (Collector.books_of_reachable hparts.collector).kept.2
    exact ⟨done, batch, written, hhanded, hjournal, hbatch, fun entry hentry =>
      ⟨hframed.isLine entry (hkept.subset hentry), (hframed.frame entry (hkept.subset hentry)).1⟩⟩

/-- Two records of one client, the first one acknowledged; the append of the second fails after three
    of its octets. -/
def oneAcknowledged : List Label :=
  [.sink .socketAuditSink, .sink (.send 0 Collector.minimalRecord 0), .accept 0,
    .sink (.connect 0 2), .deliver 0 5, .deliver 0 (Collector.minimalRecord.line.length - 5),
    .collector (.run 0), .collector (.append 0 Collector.minimalRecord.line.length),
    .collector (.appended 0 true), .collector (.synchronized 0 true []), .answer 0 1 0,
    .sink (.send 0 Collector.minimalRecord 2), .deliver 0 Collector.minimalRecord.line.length,
    .collector (.run 0), .collector (.append 0 3), .collector (.appended 0 false)]

theorem acknowledged_durable_oneAcknowledged : ∃ s,
    (machine Collector.emptyJournal).exec { collector := .start Collector.emptyJournal }
      oneAcknowledged = some s ∧
    s.sinks.records.map SinkRecord.promise = [.fulfilled, .pending] ∧
    (∃ p, ∀ q, s.Appears Collector.emptyJournal 0 q ↔ q = p) ∧
    Durability Collector.emptyJournal s := by
  have hrun : ∃ s, (machine Collector.emptyJournal).exec
      { collector := .start Collector.emptyJournal } oneAcknowledged = some s ∧
      s.sinks.records.map SinkRecord.promise = [.fulfilled, .pending] :=
    ⟨_, rfl, rfl⟩
  obtain ⟨s, hexec, hpromises⟩ := hrun
  have hdurable := acknowledged_durable (s := s)
    (Machine.leads_of_exec hexec)
  have hfirst : (s.sinks.records.map SinkRecord.promise)[0]? = some .fulfilled := by
    rw [hpromises]
    rfl
  rw [List.getElem?_map] at hfirst
  obtain ⟨record, hrecord, hpromise⟩ := Option.map_eq_some_iff.mp hfirst
  obtain ⟨p, _, hunique⟩ := hdurable.acknowledged 0 record hrecord hpromise
  exact ⟨s, hexec, hpromises, ⟨p, hunique⟩, hdurable⟩

end CollectorNetwork

end SecureMcp
