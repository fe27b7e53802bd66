import SecureMcp.Collector.Durable
import SecureMcp.Collector.Places
import SecureMcp.Collector.Records

set_option autoImplicit false

/-! # Runs without a fault

What can go wrong between a sink and the collector is listed by `faultless`: a timer expires, a
connection is lost or ended while records are pending, a record is refused or is none, it is written
to a connection that the collector has already ended, more records are out than the collector holds, the
journal has no room, the disk fails, the collector is stopped. A run in which none of this happens
loses nothing (`NothingLost`): neither end ever breaks off by itself. In particular none of the
collector's own reasons to destroy a socket applies to what a sink writes (`Parts.keeps`), and no
acknowledgement is one too many (`Parts.answer_valid`). -/

namespace SecureMcp

namespace Sinks

variable {s s' s'' : Sinks} {c x : Nat} {client : SocketAuditSink}

/-! ## What a fault is -/

/-- The client whose current connection this is. -/
def user (s : Sinks) (x : Nat) : Option SocketAuditSink :=
  (s.connections[x]?).bind (fun conn =>
    (s.clients[conn.client]?).filter (fun client => client.socket == some x))

/-- Its client waits for acknowledgements. -/
def busy (s : Sinks) (x : Nat) : Bool := (s.user x).any (fun client => !client.pending.isEmpty)

/-- The octets of all the records that there are. -/
def octets (s : Sinks) : Nat := (s.records.map (fun record => record.line.length)).sum

theorem user_eq_some : s.user x = some client ↔ ∃ conn, s.connections[x]? = some conn ∧
    s.clients[conn.client]? = some client ∧ client.socket = some x := by
  simp only [user, Option.bind_eq_some_iff, Option.filter_eq_some_iff, beq_iff_eq]

end Sinks

namespace CollectorNetwork

/-- The collector has ended this connection. -/
def ended (s : CollectorNetwork) (x : Nat) : Bool :=
  (s.links.zip s.collector.sockets).any (fun socket => socket.1 == x && socket.2.destroyed)

/-- The octets that were written to a socket and that the client has not read. What is in the buffer of
    the socket is among them. -/
def unread (s : CollectorNetwork) (y : Nat) : Nat :=
  ((s.collector.sockets[y]?).elim 0 (fun socket => socket.written.length)) -
    (((s.links[y]?).bind (fun x => s.sinks.connections[x]?)).elim 0
      (fun conn => conn.received.length))

/-- There is room in the journal for all the records. -/
def roomy (setup : JournalSetup) (s : CollectorNetwork) : Bool :=
  setup.journal.length + s.sinks.octets ≤ setup.maxBytes

def sinkFaultless (s : CollectorNetwork) : Sinks.Label → Bool
  | .send c event _ => isRecord event.line && (s.sinks.clients[c]?).all (fun client =>
      -- `ended`: the collector has ended the connection, and the client has not noticed
      !Sinks.refuses client event.line && !client.socket.any s.ended)
  | .close c | .expire c => (s.sinks.clients[c]?).all (fun client => client.pending.isEmpty)
  | .error x | .disconnected x => !s.sinks.busy x
  | .socketAuditSink | .connect _ _ | .drain _ _ | .data _ _ _ => true

def collectorFaultless (setup : JournalSetup) (s : CollectorNetwork) : Collector.Label → Bool
  -- an idle connection may be ended, as after two seconds
  | .drop y => !(s.links[y]?).any s.sinks.busy
  | .run _ => s.roomy setup
  | .appended _ ok => ok
  | .synchronized _ ok full => ok && s.roomy setup &&
      -- a buffer is found full only where it can be
      full.all (fun y => 4096 < s.unread y +
        s.collector.batch.countP (fun entry => entry.socket == y))
  | .stop => false
  | .accept | .data _ _ | .append _ _ => true

/-- The step is no fault. -/
def faultless (setup : JournalSetup) (s : CollectorNetwork) : Label → Bool
  | .accept _ | .answer _ _ _ => true
  | .deliver _ _ => s.sinks.load ≤ 1024
  | .sink label => s.sinkFaultless label
  | .collector label => s.collectorFaultless setup label

variable {setup : JournalSetup} {s s' : CollectorNetwork} {c x y : Nat}
variable {client : SocketAuditSink} {conn : Connection} {socket : CollectorSocket}

theorem ended_eq_false (h : s.ended x = false) (hlink : s.links[y]? = some x)
    (hsocket : s.collector.sockets[y]? = some socket) : socket.destroyed = false := by
  have hzip : (s.links.zip s.collector.sockets)[y]? = some (x, socket) := by
    rw [List.getElem?_zip_eq_some]
    exact ⟨hlink, hsocket⟩
  have hnone := List.any_eq_false.mp h _ (List.mem_of_getElem? hzip)
  simpa using hnone

/-! ## A chunk is never refused -/

/-- Every line that was written is a frame, where every record is one. -/
theorem Parts.isFrame_sent (h : Parts setup s)
    (hrecords : ∀ (r : Nat) record, s.sinks.records[r]? = some record → isRecord record.line = true)
    (hconn : s.sinks.connections[x]? = some conn) :
    ∀ line ∈ conn.sent.map SinkItem.line, Collector.isFrame line = true := by
  intro line hline
  obtain ⟨item, hitem, rfl⟩ := List.mem_map.mp hline
  obtain ⟨record, hrecord, _, hsame⟩ :=
    (Sinks.wired_of_reachable h.sinks).item x conn hconn item hitem
  have hshort := (Sinks.short_of_reachable h.sinks).sent x conn hconn item hitem
  rw [← hsame] at hshort ⊢
  rw [Collector.isFrame, decide_eq_true hshort, Bool.true_and]
  exact hrecords _ record hrecord

/-- What an open socket has not read of its connection is no longer than the lines that it has not
    queued, which are no longer than a frame may be. -/
theorem Parts.stream_le (h : Parts setup s)
    (hrecords : ∀ (r : Nat) record, s.sinks.records[r]? = some record → isRecord record.line = true)
    (hlink : s.links[y]? = some x) (hconn : s.sinks.connections[x]? = some conn)
    (hsocket : s.collector.sockets[y]? = some socket) (hopen : socket.destroyed = false) :
    conn.stream.length ≤ socket.received.length +
      (conn.sent.length - (s.collector.framesOf y).length) * 4096 := by
  obtain ⟨hqueued, _⟩ := (Collector.framed_of_reachable h.collector).opened y socket hsocket hopen
  have hstream : conn.stream.length = (s.collector.framesOf y).flatten.length +
      ((conn.sent.drop (s.collector.framesOf y).length).map SinkItem.line).flatten.length := by
    rw [Connection.stream, List.flatMap, ← List.length_append, ← List.flatten_append,
      ← h.split hlink hconn]
  have hreceived : (s.collector.framesOf y).flatten.length ≤ socket.received.length := by
    rw [hqueued, ← congrArg List.length (Lines.cut_flatten socket.received), List.length_append]
    exact Nat.le_add_right _ _
  have hlengths : ∀ line ∈ (conn.sent.drop (s.collector.framesOf y).length).map SinkItem.line,
      line.length ≤ 4096 := by
    intro line hline
    have hin := List.mem_of_mem_drop (by rw [← List.map_drop]; exact hline)
    have hframe := h.isFrame_sent hrecords hconn line hin
    rw [Collector.isFrame, Bool.and_eq_true, decide_eq_true_eq] at hframe
    exact hframe.1
  have hshort := List.sum_le_card_nsmul _ 4096 (List.forall_mem_map.mpr hlengths)
  rw [← List.length_flatten, List.length_map, List.length_map, List.length_drop, smul_eq_mul] at hshort
  omega

/-- A socket that reads the next octets of its connection stays open: the chunk is not too long, its
    frames are records and there is room for them, and what is left is shorter than a frame. -/
theorem Parts.keeps (h : Parts setup s) (hhealthy : s.collector.healthy = true)
    (hunfailed : s.sinks.Unfailed) (hload : s.sinks.load ≤ 1024)
    (hrecords : ∀ (r : Nat) record, s.sinks.records[r]? = some record → isRecord record.line = true)
    (hlink : s.links[y]? = some x) (hconn : s.sinks.connections[x]? = some conn) {count j : Nat}
    {collector : Collector} {socket' : CollectorSocket}
    (hfed : Collector.Fed s.collector collector y
      ((conn.stream.drop socket.received.length).take count) socket socket' j) :
    socket'.destroyed = false := by
  cases hgone : socket'.destroyed with
  | false => rfl
  | true =>
      exfalso
      have hframed := Collector.framed_of_reachable h.collector
      have hframes := h.isFrame_sent hrecords hconn
      obtain ⟨own, hown, hread, _⟩ := h.linked.streams y x socket hlink hfed.before
      obtain rfl := Option.some.inj (hconn.symm.trans hown)
      obtain ⟨hcut, hrest⟩ := hframed.cut_received hfed
      -- what has been read so far and the chunk are the start of the stream
      have hstart : socket'.received <+: conn.stream := by
        rw [hfed.received]
        obtain ⟨more, hmore⟩ := hread
        rw [← hmore, List.drop_left]
        exact (List.prefix_append_right_inj _).mpr (List.take_prefix _ _)
      have hlines := (Sinks.wired_of_reachable h.sinks).isLine_sent hconn
      -- each line that was found comes after those that are queued, and counts
      have hbound : ∀ more, (s.collector.framesOf y).length + more ≤ conn.sent.length →
          s.collector.pending + more ≤ 1024 :=
        fun more hmore => Nat.le_trans (h.pending_le_load hhealthy hunfailed hlink hconn hmore) hload
      rcases hfed.lost hgone with hunhealthy | hlong | ⟨frame, hframe, hwhy⟩ | ⟨_, hlong⟩
      · exact absurd (hhealthy.symm.trans hunhealthy) (by simp)
      · have hle := congrArg List.length (h.split hlink hconn)
        simp only [List.length_append, List.length_map, List.length_drop] at hle
        have hmany := hbound (conn.sent.length - (s.collector.framesOf y).length) (by omega)
        have hstream := h.stream_le hrecords hlink hconn hfed.before hfed.opened
        have hchunk := List.length_take_le' count (conn.stream.drop socket.received.length)
        rw [List.length_drop] at hchunk
        omega
      · have hnth : (conn.sent.map SinkItem.line)[(s.collector.framesOf y).length + j]? =
            some frame := by
          refine Table.getElem?_of_prefix (Lines.cut_of_start hlines hstart) ?_
          rw [hcut, List.getElem?_append_right (Nat.le_add_right _ _), Nat.add_sub_cancel_left]
          exact hframe
        have hlt := Table.lt_of_getElem? hnth
        rw [List.length_map] at hlt
        rcases hwhy with hbad | hfull
        · have hgood := hframes frame (List.mem_of_getElem? hnth)
          exact absurd (hgood.symm.trans hbad) (by simp)
        · have hroom := hbound (j + 1) (by omega)
          omega
      · rw [← hrest] at hlong
        rcases Lines.remainder_of_start hlines hstart with hnil | ⟨line, hline, hlt⟩
        · rw [hnil] at hlong
          exact absurd hlong (by simp)
        · have hframe := hframes line hline
          rw [Collector.isFrame, Bool.and_eq_true, decide_eq_true_eq] at hframe
          omega

/-! ## An acknowledgement is never one too many -/

/-- What a client reads from its current connection are ACKs, and no more than it has records out. -/
theorem Parts.answer_valid (h : Parts setup s) (hclient : s.sinks.clients[c]? = some client)
    (hfailed : client.failed = false) (hcurrent : client.socket = some x)
    (hlink : s.links[y]? = some x) (hsocket : s.collector.sockets[y]? = some socket)
    (hconn : s.sinks.connections[x]? = some conn) (count : Nat) :
    Sinks.invalid client ((socket.written.drop conn.received.length).take count) = false := by
  have hbooks := Collector.books_of_reachable h.collector
  have hanswers := hbooks.answers y socket hsocket
  have hdurable := ((hbooks.kept.1.trans hbooks.kept.2).filter
    (fun entry => entry.socket == y)).length_le
  have hframes := congrArg List.length (h.split hlink hconn)
  simp only [List.length_append, List.length_map, List.length_drop, Collector.framesOf] at hframes
  obtain ⟨_, hout⟩ :=
    (Sinks.wired_of_reachable h.sinks).unanswered hclient hfailed hcurrent hconn
  have hchunk := List.length_take_le' count (socket.written.drop conn.received.length)
  rw [List.length_drop] at hchunk
  rw [List.countP_eq_length_filter] at hanswers
  rw [Sinks.invalid, Bool.or_eq_false_iff, decide_eq_false_iff_not, List.any_eq_false]
  refine ⟨by omega, fun octet hoctet => ?_⟩
  have hack := (Collector.answered_of_reachable h.collector).acks y socket hsocket octet
    (List.mem_of_mem_drop (List.mem_of_mem_take hoctet))
  rw [hack]
  decide

/-- A buffer never holds as many answers as it may. -/
theorem Parts.unread_le (h : Parts setup s) (hhealthy : s.collector.healthy = true)
    (hunfailed : s.sinks.Unfailed) (y : Nat) :
    s.unread y + s.collector.batch.countP (fun entry => entry.socket == y) ≤ 1024 := by
  have hbooks := Collector.books_of_reachable h.collector
  have hsplit := congrArg List.length (hbooks.framesOf hhealthy y)
  simp only [List.length_append, Collector.length_dataFrom] at hsplit
  cases hlink : s.links[y]? with
  | none =>
      have hout : s.collector.sockets.length ≤ y := by
        rw [← h.linked.sockets]
        exact List.getElem?_eq_none_iff.mp hlink
      have hnil := (Collector.framed_of_reachable h.collector).framesOf_nil hout
      rw [hnil, List.length_nil] at hsplit
      rw [unread, List.getElem?_eq_none_iff.mpr hout, Option.elim_none, Nat.zero_sub]
      omega
  | some x =>
      have hy := Table.lt_of_getElem? hlink
      rw [h.linked.sockets] at hy
      have hget := List.getElem?_eq_getElem hy
      obtain ⟨conn, hconn, _, _⟩ := h.linked.streams y x _ hlink hget
      have hanswers := hbooks.answers y _ hget
      have hread := h.read_le hlink hconn
      have hframes := congrArg List.length (h.split hlink hconn)
      simp only [List.length_append, List.length_map, List.length_drop] at hframes
      rw [Collector.length_dataFrom] at hread
      have hwired := Sinks.wired_of_reachable h.sinks
      have hclient := List.getElem?_eq_getElem (hwired.owner x conn hconn)
      have hfailed := hunfailed _ _ hclient
      have htracked := hwired.client _ _ hclient
      have hout : conn.sent.length ≤ conn.received.length + 1024 := by
        by_cases hcurrent : (s.sinks.clients.get ⟨conn.client, hwired.owner x conn hconn⟩).socket = some x
        · obtain ⟨_, hsent⟩ := hwired.unanswered hclient hfailed hcurrent hconn
          have hle := htracked.sent
          have hbound := htracked.bound
          omega
        · exact Nat.le_add_right_of_le (hwired.drained hclient hfailed hconn rfl hcurrent)
      rw [unread, hget, hlink, Option.elim_some, Option.bind_some, hconn, Option.elim_some]
      omega

/-! ## The journal has room -/

/-- Every queued frame is the line of a record, and no two of them are the same record's. -/
theorem Parts.queued_record (h : Parts setup s) {p : Nat} {entry : QueuedFrame}
    (hentry : s.collector.accepted[p]? = some entry) :
    ∃ r record x k, s.sinks.records[r]? = some record ∧ record.line = entry.data ∧
      s.sinks.WrittenAt r x k ∧ s.links[entry.socket]? = some x ∧
      Occurrences.IsNth s.collector.accepted (ofSocket entry.socket) k p entry := by
  have hsocket := ((Collector.framed_of_reachable h.collector).frame entry
    (List.mem_of_getElem? hentry)).2
  rw [← h.linked.sockets] at hsocket
  have hlink := List.getElem?_eq_getElem hsocket
  obtain ⟨conn, hconn, hframes⟩ := h.frames hlink
  have hnth : Occurrences.IsNth s.collector.accepted (ofSocket entry.socket)
      ((s.collector.accepted.take p).countP (ofSocket entry.socket)) p entry :=
    ⟨hentry, beq_self_eq_true _, rfl⟩
  have hframe : (s.collector.framesOf entry.socket)[
      (s.collector.accepted.take p).countP (ofSocket entry.socket)]? = some entry.data := by
    show ((s.collector.accepted.filter (ofSocket entry.socket)).map QueuedFrame.data)[_]? = _
    rw [List.getElem?_map, hnth.filter]
    rfl
  have hline := Table.getElem?_of_prefix hframes hframe
  rw [List.getElem?_map] at hline
  obtain ⟨item, hitem, hsame⟩ := Option.map_eq_some_iff.mp hline
  obtain ⟨record, hrecord, _, hrecordLine⟩ := (Sinks.wired_of_reachable h.sinks).item _ conn hconn
    item (List.mem_of_getElem? hitem)
  exact ⟨item.record, record, _, _, hrecord, hrecordLine.trans hsame, ⟨conn, item, hconn, hitem, rfl⟩,
    hlink, hnth⟩

/-- What was queued is no more than the records. -/
theorem Parts.queued_le (h : Parts setup s) :
    (dataOf s.collector.accepted).length ≤ s.sinks.octets := by
  have hplace : ∀ p < s.collector.accepted.length, ∃ r record x k entry,
      s.collector.accepted[p]? = some entry ∧ s.sinks.records[r]? = some record ∧
      record.line = entry.data ∧ s.sinks.WrittenAt r x k ∧ s.links[entry.socket]? = some x ∧
      Occurrences.IsNth s.collector.accepted (ofSocket entry.socket) k p entry := by
    intro p hp
    have hentry := List.getElem?_eq_getElem hp
    obtain ⟨r, record, x, k, hrest⟩ := h.queued_record hentry
    exact ⟨r, record, x, k, _, hentry, hrest⟩
  choose! owner record x k entry hentry hrecord hline hwritten hlink hnth using hplace
  have hweight : (dataOf s.collector.accepted).length =
      (s.collector.accepted.map (fun entry => entry.data.length)).sum := by
    rw [dataOf, List.length_flatMap]
  rw [hweight, Sinks.octets, ← Tally.sum_places, ← Tally.sum_places]
  refine Tally.sum_le_of_owner _ _ owner (fun p hp _ => ?_) (fun p hp p' hp' _ _ hsame => ?_)
  · refine ⟨Table.lt_of_getElem? (hrecord p hp), ?_⟩
    rw [hentry p hp, hrecord p hp, Option.elim_some, Option.elim_some, hline p hp]
  · have hwritten' := hwritten p' hp'
    rw [← hsame] at hwritten'
    obtain ⟨hx, hk⟩ := (Sinks.wired_of_reachable h.sinks).written_once (hwritten p hp) hwritten'
    have hlink' := hlink p' hp'
    rw [← hx] at hlink'
    have hy := h.linked.link_inj (hlink p hp) hlink'
    have hnth' := hnth p' hp'
    rw [← hy, ← hk] at hnth'
    exact (hnth p hp).unique hnth'

/-- The next batch fits, also after the one that is synced. -/
theorem Parts.fits (h : Parts setup s) (hhealthy : s.collector.healthy = true)
    (hroom : s.roomy setup = true) :
    s.collector.bytes + (dataOf s.collector.batch).length +
      (dataOf (s.collector.queue.take 64)).length ≤ setup.maxBytes := by
  have hbooks := Collector.books_of_reachable h.collector
  have hworking := hbooks.working hhealthy
  have hqueued := h.queued_le
  have hsynced := hbooks.synced
  rw [← hworking.bytes, List.length_append] at hsynced
  rw [hworking.accepted, hworking.handed, Collector.dataOf_append, Collector.dataOf_append,
    List.length_append, List.length_append] at hqueued
  have hbatch := congrArg (fun frames => (dataOf frames).length)
    (List.take_append_drop 64 s.collector.queue)
  simp only [Collector.dataOf_append, List.length_append] at hbatch
  rw [roomy, decide_eq_true_eq] at hroom
  omega

end CollectorNetwork

/-! ## Steps of the sinks that reject nothing -/

namespace Sinks

variable {s s' s'' : Sinks} {c x : Nat} {client : SocketAuditSink}

/-- No client fails, no record is made and none is rejected; what is pending was pending before, on the
    same connection. -/
structure Gentle (s s' : Sinks) : Prop where
  client : ∀ (c : Nat) client', s'.clients[c]? = some client' →
    client'.failed = true ∨ client'.pending ≠ [] →
      ∃ client, s.clients[c]? = some client ∧ client'.failed = client.failed ∧
        (client'.pending ≠ [] → client.pending ≠ [] ∧ client'.socket = client.socket)
  record : ∀ (r : Nat) record', s'.records[r]? = some record' →
    ∃ record, s.records[r]? = some record ∧ record'.line = record.line ∧
      (record'.promise = .rejected → record.promise = .rejected)

theorem Gentle.refl (s : Sinks) : Gentle s s :=
  ⟨fun _ client hclient _ => ⟨client, hclient, rfl, fun hpending => ⟨hpending, rfl⟩⟩,
    fun _ record hrecord => ⟨record, hrecord, rfl, id⟩⟩

theorem Gentle.trans (h : Gentle s s') (h' : Gentle s' s'') : Gentle s s'' := by
  constructor
  case client =>
    intro c client'' hclient'' hwhy
    obtain ⟨client', hclient', hfailed', hpending'⟩ := h'.client c client'' hclient'' hwhy
    obtain ⟨client, hclient, hfailed, hpending⟩ := h.client c client' hclient'
      (hwhy.imp (fun hf => hfailed' ▸ hf) (fun hne => (hpending' hne).1))
    refine ⟨client, hclient, hfailed'.trans hfailed, fun hne => ?_⟩
    obtain ⟨hne', hsocket'⟩ := hpending' hne
    exact ⟨(hpending hne').1, hsocket'.trans (hpending hne').2⟩
  case record =>
    intro r record'' hrecord''
    obtain ⟨record', hrecord', hline', hkept'⟩ := h'.record r record'' hrecord''
    obtain ⟨record, hrecord, hline, hkept⟩ := h.record r record' hrecord'
    exact ⟨record, hrecord, hline'.trans hline, fun hrejected => hkept (hkept' hrejected)⟩

/-- One client is replaced. -/
theorem Gentle.set (client' : SocketAuditSink) (hclient : s.clients[c]? = some client)
    (hclients : s'.clients = s.clients.set c client') (hrecords : s'.records = s.records)
    (hfailed : client'.failed = client.failed)
    (hpending : client'.pending ≠ [] → client.pending ≠ [] ∧ client'.socket = client.socket) :
    Gentle s s' := by
  constructor
  case client =>
    intro d other hother hwhy
    rw [hclients] at hother
    rcases Table.getElem?_set_cases hother with ⟨rfl, rfl⟩ | ⟨_, hin⟩
    · exact ⟨client, hclient, hfailed, hpending⟩
    · exact ⟨other, hin, rfl, fun hne => ⟨hne, rfl⟩⟩
  case record =>
    intro r record hrecord
    rw [hrecords] at hrecord
    exact ⟨record, hrecord, rfl, id⟩

theorem put_gentle {client' : SocketAuditSink} (hclient : s.clients[c]? = some client)
    (hfailed : client'.failed = client.failed)
    (hpending : client'.pending ≠ [] → client.pending ≠ [] ∧ client'.socket = client.socket) :
    Gentle s (s.put c client') :=
  .set client' hclient rfl rfl hfailed hpending

theorem write_gentle {item : SinkItem} {returned : Bool} (hclient : s.clients[c]? = some client) :
    Gentle s (s.write c client x item returned) := by
  cases hconn : s.connections[x]? with
  | none =>
      rw [write, hconn]
      exact .refl s
  | some conn =>
      refine .set { client with sent := client.sent + 1, writable := returned } hclient ?_
        (write_records client item returned) rfl (fun hne => ⟨hne, rfl⟩)
      rw [write, hconn]

theorem flush_gentle (c room : Nat) (s : Sinks) : Gentle s (flush c room s) := by
  induction room generalizing s with
  | zero =>
      rw [flush]
      split
      · exact .refl s
      · next client hclient =>
          split
          · exact .refl s
          · exact write_gentle hclient
  | succ room ih =>
      rw [flush]
      split
      · exact .refl s
      · next client hclient =>
          split
          · exact .refl s
          · exact (write_gentle hclient).trans (ih _)

theorem read_gentle (s : Sinks) (x : Nat) (octets : Bytes) : Gentle s (s.read x octets) := by
  constructor
  case client =>
    intro c client hclient _
    rw [read_clients] at hclient
    exact ⟨client, hclient, rfl, fun hne => ⟨hne, rfl⟩⟩
  case record =>
    intro r record hrecord
    rw [read_records] at hrecord
    exact ⟨record, hrecord, rfl, id⟩

theorem acknowledge_gentle (hclient : s.clients[c]? = some client) (count : Nat) :
    Gentle s (s.acknowledge c client count) := by
  constructor
  case client =>
    intro d other hother _
    rcases Table.getElem?_set_cases hother with ⟨rfl, rfl⟩ | ⟨_, hin⟩
    · refine ⟨client, hclient, rfl, fun hne => ⟨fun hnil => hne ?_, rfl⟩⟩
      show client.pending.drop count = []
      rw [hnil, List.drop_nil]
    · exact ⟨other, hin, rfl, fun hne => ⟨hne, rfl⟩⟩
  case record =>
    intro r record' hrecord'
    obtain ⟨record, hrecord, ⟨_, hline, _⟩, hcases⟩ := settle_cases hrecord'
    refine ⟨record, hrecord, hline, fun hrejected => ?_⟩
    rcases hcases with rfl | ⟨_, hfulfilled, _⟩
    · exact hrejected
    · exact absurd (hrejected.symm.trans hfulfilled) (by simp)

/-- The `data` event, where what was read acknowledges something or the connection is not the current
    one. -/
theorem data_gentle {octets : Bytes} {room : Nat} (h : s.data x octets room = some s')
    (hvalid : ∀ conn client, s.connections[x]? = some conn → s.clients[conn.client]? = some client →
      client.socket = some x → invalid client octets = false) : Gentle s s' := by
  obtain ⟨conn, client, hconn, hclient, hcases⟩ := data_cases h
  rcases hcases with ⟨hsocket, hinvalid, _⟩ | ⟨_, _, rfl⟩ | ⟨_, rfl⟩
  · exact absurd ((hvalid conn client hconn hclient hsocket).symm.trans hinvalid) (by simp)
  · refine ((read_gentle s x octets).trans (acknowledge_gentle ?_ _)).trans (flush_gentle _ room _)
    rw [read_clients]
    exact hclient
  · exact read_gentle s x octets

end Sinks

namespace CollectorNetwork

variable {setup : JournalSetup} {s s' : CollectorNetwork} {c x y : Nat}
variable {client : SocketAuditSink} {conn : Connection} {socket : CollectorSocket}

/-- A step of a sink that is no fault, other than a call and reading. -/
theorem sink_gentle {l : Sinks.Label} {sinks : Sinks} (hstep : s.sinks.step l = some sinks)
    (hfaultless : s.sinkFaultless l = true) (hread : isRead l = false)
    (hsend : ∀ c event room, l ≠ .send c event room) : Sinks.Gentle s.sinks sinks := by
  have hidle : ∀ (x : Nat) conn client, s.sinks.connections[x]? = some conn →
      s.sinks.clients[conn.client]? = some client → client.socket = some x →
      s.sinks.busy x = false → client.pending.isEmpty = true := by
    intro x conn client hconn hclient hsocket hbusy
    rw [Sinks.busy, Sinks.user_eq_some.mpr ⟨conn, hconn, hclient, hsocket⟩] at hbusy
    simpa using hbusy
  cases l with
  | socketAuditSink =>
      obtain rfl := Option.some.inj hstep
      constructor
      case client =>
        intro c client hclient hwhy
        rcases Table.getElem?_append_cases hclient with hin | ⟨_, rfl⟩
        · exact ⟨client, hin, rfl, fun hne => ⟨hne, rfl⟩⟩
        · exact absurd hwhy (by simp)
      case record => exact fun r record hrecord => ⟨record, hrecord, rfl, id⟩
  | send c event room => exact absurd rfl (hsend c event room)
  | close c =>
      replace hstep : s.sinks.close c = some sinks := hstep
      unfold Sinks.close at hstep
      split at hstep
      · exact absurd hstep (by simp)
      · next client hclient =>
          rw [sinkFaultless, hclient, Option.all_some] at hfaultless
          rw [if_pos hfaultless] at hstep
          obtain rfl := Option.some.inj hstep
          exact Sinks.put_gentle hclient rfl (fun hne => ⟨hne, rfl⟩)
  | expire c =>
      replace hstep : s.sinks.expire c = some sinks := hstep
      unfold Sinks.expire at hstep
      split at hstep
      · exact absurd hstep (by simp)
      · next client hclient =>
          rw [sinkFaultless, hclient, Option.all_some] at hfaultless
          rw [if_pos hfaultless] at hstep
          exact absurd hstep (by simp)
  | connect x room =>
      replace hstep : s.sinks.connect x room = some sinks := hstep
      obtain ⟨conn, client, _, hclient, ⟨_, rfl⟩ | ⟨_, rfl⟩⟩ := Sinks.onSocket_cases hstep
      · have hput : Sinks.Gentle s.sinks (s.sinks.put conn.client
            { client with connected := true, writable := true }) :=
          Sinks.put_gentle hclient rfl (fun hne => ⟨hne, rfl⟩)
        exact hput.trans (Sinks.flush_gentle _ room _)
      · exact .refl _
  | drain x room =>
      replace hstep : s.sinks.drain x room = some sinks := hstep
      obtain ⟨conn, client, _, hclient, ⟨_, rfl⟩ | ⟨_, rfl⟩⟩ := Sinks.onSocket_cases hstep
      · have hput : Sinks.Gentle s.sinks (s.sinks.put conn.client
            { client with writable := true }) :=
          Sinks.put_gentle hclient rfl (fun hne => ⟨hne, rfl⟩)
        exact hput.trans (Sinks.flush_gentle _ room _)
      · exact .refl _
  | data x octets room => exact absurd hread (by simp [isRead])
  | error x =>
      replace hstep : s.sinks.error x = some sinks := hstep
      obtain ⟨conn, client, hconn, hclient, ⟨hsocket, rfl⟩ | ⟨_, rfl⟩⟩ := Sinks.onSocket_cases hstep
      · rw [if_pos (hidle x conn client hconn hclient hsocket (by simpa [sinkFaultless] using hfaultless))]
        exact .refl _
      · exact .refl _
  | disconnected x =>
      replace hstep : s.sinks.disconnected x = some sinks := hstep
      obtain ⟨conn, client, hconn, hclient, ⟨hsocket, rfl⟩ | ⟨_, rfl⟩⟩ := Sinks.onSocket_cases hstep
      · have hempty := hidle x conn client hconn hclient hsocket
          (by simpa [sinkFaultless] using hfaultless)
        rw [if_pos hempty]
        refine Sinks.put_gentle hclient rfl (fun hne => absurd ?_ hne)
        exact List.isEmpty_iff.mp hempty
      · exact .refl _

/-! ## What a run without a fault keeps -/

/-- Both ends work, no promise was rejected, and a connection on which something is pending is open. -/
structure Lossless (s : CollectorNetwork) : Prop where
  healthy : s.collector.healthy = true
  running : s.collector.stopping = false
  unfailed : s.sinks.Unfailed
  records : ∀ (r : Nat) record, s.sinks.records[r]? = some record →
    isRecord record.line = true ∧ record.promise ≠ .rejected
  opened : ∀ (c : Nat) client, s.sinks.clients[c]? = some client → client.pending ≠ [] →
    ∀ (x y : Nat) socket, client.socket = some x → s.links[y]? = some x →
      s.collector.sockets[y]? = some socket → socket.destroyed = false

theorem Lossless.gentle (h : Lossless s) {sinks : Sinks} (hgentle : Sinks.Gentle s.sinks sinks) :
    Lossless { s with sinks } := by
  constructor
  case healthy => exact h.healthy
  case running => exact h.running
  case unfailed =>
    intro c client' hclient'
    cases hfailed : client'.failed with
    | false => rfl
    | true =>
        obtain ⟨client, hclient, hsame, _⟩ := hgentle.client c client' hclient' (Or.inl hfailed)
        exact absurd ((h.unfailed c client hclient).symm.trans (hsame.symm.trans hfailed)) (by simp)
  case records =>
    intro r record' hrecord'
    obtain ⟨record, hrecord, hline, hkept⟩ := hgentle.record r record' hrecord'
    obtain ⟨hframe, hpromise⟩ := h.records r record hrecord
    exact ⟨by rw [hline]; exact hframe, fun hrejected => hpromise (hkept hrejected)⟩
  case opened =>
    intro c client' hclient' hne x y socket hcurrent hlink hsocket
    obtain ⟨client, hclient, _, hpending⟩ := hgentle.client c client' hclient' (Or.inr hne)
    obtain ⟨hne', hsame⟩ := hpending hne
    exact h.opened c client hclient hne' x y socket (hsame.symm.trans hcurrent) hlink hsocket

/-- A record is made and will be written to an open connection or to a new one. -/
theorem Lossless.called (h : Lossless s) (hparts : Parts setup s) {event : Json}
    (hclient : s.sinks.clients[c]? = some client) (hframe : isRecord event.line = true)
    (hopen : client.socket.any s.ended = false) :
    Lossless { s with sinks := s.sinks.call c client event.line } := by
  constructor
  case healthy => exact h.healthy
  case running => exact h.running
  case unfailed =>
    intro d other hother
    rw [Sinks.call_clients] at hother
    rcases Table.getElem?_set_cases hother with ⟨rfl, rfl⟩ | ⟨_, hin⟩
    · exact h.unfailed d client hclient
    · exact h.unfailed d other hin
  case records =>
    intro r record hrecord
    rw [Sinks.call_records] at hrecord
    rcases Table.getElem?_append_cases hrecord with hin | ⟨_, rfl⟩
    · exact h.records r record hin
    · exact ⟨hframe, by simp⟩
  case opened =>
    intro d other hother hne x y socket hcurrent hlink hsocket
    rw [Sinks.call_clients] at hother
    rcases Table.getElem?_set_cases hother with ⟨rfl, rfl⟩ | ⟨_, hin⟩
    · replace hcurrent : (if client.socket.isNone then some s.sinks.connections.length
        else client.socket) = some x := hcurrent
      split at hcurrent
      · -- the new connection is not accepted yet
        obtain rfl := Option.some.inj hcurrent
        obtain ⟨conn, hconn, _⟩ := hparts.linked.streams y _ socket hlink hsocket
        exact absurd (Table.lt_of_getElem? hconn) (Nat.lt_irrefl _)
      · rw [hcurrent] at hopen
        exact ended_eq_false (s := s) (by simpa using hopen) hlink hsocket
    · exact h.opened d other hin hne x y socket hcurrent hlink hsocket

/-- The collector goes on, and ends only connections on which nothing is pending. -/
theorem Lossless.collector (h : Lossless s) (hparts : Parts setup s) {collector : Collector}
    {links : List Nat} (hhealthy : collector.healthy = true) (hrunning : collector.stopping = false)
    (hsockets : ∀ (y : Nat) socket', collector.sockets[y]? = some socket' →
      socket'.destroyed = false ∨ (links[y]? = s.links[y]? ∧
        ((∃ socket, s.collector.sockets[y]? = some socket ∧ socket'.destroyed = socket.destroyed) ∨
          ∀ x, s.links[y]? = some x → s.sinks.busy x = false))) :
    Lossless { s with collector, links } := by
  refine ⟨hhealthy, hrunning, h.unfailed, h.records, ?_⟩
  intro c client hclient hne x y socket' hcurrent hlink hsocket'
  rcases hsockets y socket' hsocket' with hopen | ⟨hsame, ⟨socket, hsocket, hdestroyed⟩ | hidle⟩
  · exact hopen
  · rw [hdestroyed]
    exact h.opened c client hclient hne x y socket hcurrent (hsame ▸ hlink) hsocket
  · have hbusy := hidle x (hsame ▸ hlink)
    obtain ⟨conn, hconn, rfl, _⟩ :=
      ((Sinks.wired_of_reachable hparts.sinks).client c client hclient).socket x hcurrent
    rw [Sinks.busy, Sinks.user_eq_some.mpr ⟨conn, hconn, hclient, hcurrent⟩] at hbusy
    exact absurd (by simpa using hbusy) hne

end CollectorNetwork

namespace Collector

variable {setup : JournalSetup} {k k' : Collector} {y i : Nat}

theorem offer_flags (k : Collector) (y : Nat) (frames : List Bytes) :
    (k.offer y frames).1.healthy = k.healthy ∧ (k.offer y frames).1.stopping = k.stopping := by
  fun_induction offer y k frames with
  | case1 | case2 | case3 => exact ⟨rfl, rfl⟩
  | case4 k frame later _ _ ih =>
      refine ⟨ih.1.trans (push_healthy k y frame), ih.2.trans ?_⟩
      unfold push flush
      split <;> rfl

theorem data_flags {chunk : Bytes} (h : k.data y chunk = some k') :
    k'.healthy = k.healthy ∧ k'.stopping = k.stopping := by
  unfold data at h
  split at h
  · exact absurd h (by simp)
  · split at h
    · exact absurd h (by simp)
    · obtain rfl := Option.some.inj h
      unfold handle
      split
      · exact ⟨rfl, rfl⟩
      · split
        · exact offer_flags k y _
        · exact offer_flags k y _

/-- The loop goes on where the next batch fits. -/
theorem next_flags (i : Nat) (hhealthy : k.healthy = true)
    (hfits : k.bytes + (dataOf (k.queue.take 64)).length ≤ setup.maxBytes) :
    (k.next setup i).healthy = true ∧ (k.next setup i).stopping = k.stopping := by
  unfold next
  split
  · exact ⟨hhealthy, rfl⟩
  · split
    · next hbad =>
        rw [hhealthy, Bool.not_true, Bool.false_or, decide_eq_true_eq] at hbad
        omega
    · exact ⟨hhealthy, rfl⟩

end Collector

namespace CollectorNetwork

variable {setup : JournalSetup} {s s' : CollectorNetwork} {c x y : Nat}
variable {client : SocketAuditSink} {conn : Connection} {socket : CollectorSocket}

theorem deliver_cases {count : Nat} (h : s.deliver y count = some s') :
    ∃ x socket conn collector, s.links[y]? = some x ∧ s.collector.sockets[y]? = some socket ∧
      s.sinks.connections[x]? = some conn ∧
      s.collector.data y ((conn.stream.drop socket.received.length).take count) = some collector ∧
      s' = { s with collector } := by
  unfold deliver at h
  split at h
  · next x socket hlink hsocket =>
      split at h
      · exact absurd h (by simp)
      · next conn hconn =>
          split at h
          · exact absurd h (by simp)
          · obtain ⟨collector, hdata, rfl⟩ := Option.map_eq_some_iff.mp h
            exact ⟨x, socket, conn, collector, hlink, hsocket, hconn, hdata, rfl⟩
  · exact absurd h (by simp)

theorem answer_cases {count room : Nat} (h : s.answer y count room = some s') :
    ∃ x socket conn sinks, s.links[y]? = some x ∧ s.collector.sockets[y]? = some socket ∧
      s.sinks.connections[x]? = some conn ∧
      s.sinks.data x ((socket.written.drop conn.received.length).take count) room = some sinks ∧
      s' = { s with sinks } := by
  unfold answer at h
  split at h
  · next x socket hlink hsocket =>
      split at h
      · exact absurd h (by simp)
      · next conn hconn =>
          split at h
          · exact absurd h (by simp)
          · obtain ⟨sinks, hdata, rfl⟩ := Option.map_eq_some_iff.mp h
            exact ⟨x, socket, conn, sinks, hlink, hsocket, hconn, hdata, rfl⟩
  · exact absurd h (by simp)

theorem Lossless.accepted (h : Lossless s) (hparts : Parts setup s)
    (hstep : s.accept x = some s') : Lossless s' := by
  unfold accept at hstep
  split at hstep
  · obtain ⟨collector, haccept, rfl⟩ := Option.map_eq_some_iff.mp hstep
    unfold Collector.accept at haccept
    split at haccept
    · obtain rfl := Option.some.inj haccept
      refine h.collector hparts h.healthy h.running (fun y socket' hsocket' => ?_)
      rcases Table.getElem?_append_cases hsocket' with hin | ⟨_, rfl⟩
      · have hlt := Table.lt_of_getElem? hin
        rw [← hparts.linked.sockets] at hlt
        exact Or.inr ⟨List.getElem?_append_left hlt, Or.inl ⟨socket', hin, rfl⟩⟩
      · exact Or.inl rfl
    · exact absurd haccept (by simp)
  · exact absurd hstep (by simp)

theorem Lossless.delivered (h : Lossless s) (hparts : Parts setup s) {count : Nat}
    (hload : s.sinks.load ≤ 1024) (hstep : s.deliver y count = some s') : Lossless s' := by
  obtain ⟨x, socket, conn, collector, hlink, hsocket, hconn, hdata, rfl⟩ := deliver_cases hstep
  obtain ⟨hhealthy, hrunning⟩ := Collector.data_flags hdata
  obtain ⟨socket₀, socket', j, hfed⟩ := Collector.data_fed hdata
  obtain rfl := Option.some.inj (hsocket.symm.trans hfed.before)
  have hopen := hparts.keeps h.healthy h.unfailed hload (fun r record hr => (h.records r record hr).1)
    hlink hconn hfed
  refine h.collector hparts (hhealthy.trans h.healthy) (hrunning.trans h.running)
    (fun z other hother => ?_)
  rw [hfed.sockets] at hother
  rcases Table.getElem?_set_cases hother with ⟨rfl, rfl⟩ | ⟨_, hin⟩
  · exact Or.inl hopen
  · exact Or.inr ⟨rfl, Or.inl ⟨other, hin, rfl⟩⟩

theorem Lossless.answered (h : Lossless s) (hparts : Parts setup s) {count room : Nat}
    (hstep : s.answer y count room = some s') : Lossless s' := by
  obtain ⟨x, socket, conn, sinks, hlink, hsocket, hconn, hdata, rfl⟩ := answer_cases hstep
  refine h.gentle (Sinks.data_gentle hdata (fun conn' client hconn' hclient hcurrent => ?_))
  obtain rfl := Option.some.inj (hconn.symm.trans hconn')
  exact hparts.answer_valid hclient (h.unfailed _ client hclient) hcurrent hlink hsocket hconn count

theorem Lossless.sent (h : Lossless s) (hparts : Parts setup s) {event : Json} {room : Nat}
    {sinks : Sinks} (hfaultless : s.sinkFaultless (.send c event room) = true)
    (hstep : s.sinks.send c event room = some sinks) : Lossless { s with sinks } := by
  unfold Sinks.send at hstep
  split at hstep
  · exact absurd hstep (by simp)
  · next client hclient =>
      simp only [sinkFaultless, hclient, Option.all_some, Bool.and_eq_true, Bool.not_eq_true'] at hfaultless
      obtain ⟨hframe, hrefuses, hopen⟩ := hfaultless
      rw [if_neg (by rw [hrefuses]; simp)] at hstep
      obtain rfl := Option.some.inj hstep
      exact (h.called hparts hclient hframe hopen).gentle (Sinks.flush_gentle _ room _)

theorem Lossless.worked (h : Lossless s) (hparts : Parts setup s) {l : Collector.Label}
    {collector : Collector} (hown : isOwn l = true) (hfaultless : s.collectorFaultless setup l = true)
    (hstep : s.collector.step setup l = some collector) : Lossless { s with collector } := by
  have hbooks := Collector.books_of_reachable hparts.collector
  -- unless it drops a socket, a step destroys none
  have hquiet : ∀ hhealthy : collector.healthy = true, ∀ hrunning : collector.stopping = false,
      (∀ y, l.disturbs y → ∀ x, s.links[y]? = some x → s.sinks.busy x = false) →
      Lossless { s with collector } := by
    intro hhealthy hrunning hdisturbs
    have hsame := Collector.step_sameStreams hstep (by
      rintro y chunk rfl
      exact absurd hown (by simp [isOwn]))
    refine h.collector hparts hhealthy hrunning (fun y socket' hsocket' => ?_)
    by_cases hlt : y < s.collector.sockets.length
    · obtain ⟨socket, hsocket, _, _, _, hdestroyed | ⟨_, hunhealthy | hlost⟩⟩ :=
        hsame.old y socket' hsocket' hlt
      · exact Or.inr ⟨rfl, Or.inl ⟨socket, hsocket, hdestroyed⟩⟩
      · exact absurd (hhealthy.symm.trans hunhealthy) (by simp)
      · exact Or.inr ⟨rfl, Or.inr (hdisturbs y hlost)⟩
    · exact Or.inl (hsame.new y socket' hsocket' (Nat.le_of_not_lt hlt)).2.2
  cases l with
  | accept | data => exact absurd hown (by simp [isOwn])
  | stop => exact absurd hfaultless (by simp [collectorFaultless])
  | drop y =>
      have hflags : collector.healthy = s.collector.healthy ∧
          collector.stopping = s.collector.stopping := by
        replace hstep : s.collector.drop y = some collector := hstep
        unfold Collector.drop at hstep
        split at hstep
        · exact absurd hstep (by simp)
        · split at hstep
          · exact absurd hstep (by simp)
          · obtain rfl := Option.some.inj hstep
            exact ⟨rfl, rfl⟩
      refine hquiet (hflags.1.trans h.healthy) (hflags.2.trans h.running) (fun z hz x hx => ?_)
      obtain rfl : y = z := hz
      rw [collectorFaultless, hx, Option.any_some] at hfaultless
      simpa using hfaultless
  | run i =>
      replace hstep : s.collector.run setup i = some collector := hstep
      unfold Collector.run at hstep
      split at hstep
      · have hfits := hparts.fits h.healthy hfaultless
        have hnext : s.collector.bytes + (dataOf (s.collector.queue.take 64)).length ≤
            setup.maxBytes := by omega
        obtain rfl := Option.some.inj hstep
        obtain ⟨hhealthy, hrunning⟩ := Collector.next_flags i h.healthy hnext
        exact hquiet hhealthy (hrunning.trans h.running) (fun _ hno => absurd hno id)
      · exact absurd hstep (by simp)
  | append i count =>
      replace hstep : s.collector.append i count = some collector := hstep
      unfold Collector.append at hstep
      split at hstep
      · split at hstep
        · exact absurd hstep (by simp)
        · obtain rfl := Option.some.inj hstep
          exact hquiet h.healthy h.running (fun _ hno => absurd hno id)
      · exact absurd hstep (by simp)
  | appended i ok =>
      replace hstep : s.collector.appended i ok = some collector := hstep
      obtain rfl : ok = true := hfaultless
      unfold Collector.appended at hstep
      split at hstep
      · split at hstep
        · split at hstep
          · obtain rfl := Option.some.inj hstep
            exact hquiet h.healthy h.running (fun _ hno => absurd hno id)
          · exact absurd hstep (by simp)
        · next hno => exact absurd rfl hno
      · exact absurd hstep (by simp)
  | synchronized i ok full =>
      replace hstep : s.collector.synchronized setup i ok full = some collector := hstep
      simp only [collectorFaultless, Bool.and_eq_true, List.all_eq_true, decide_eq_true_eq] at hfaultless
      obtain ⟨⟨rfl, hroom⟩, hfull⟩ := hfaultless
      unfold Collector.synchronized at hstep
      split at hstep
      · next batch hloop =>
          rw [if_pos rfl] at hstep
          have hfits := hparts.fits h.healthy hroom
          rw [Collector.batch_of (hbooks.only hloop).2.1] at hfits
          obtain rfl := Option.some.inj hstep
          obtain ⟨hhealthy, hrunning⟩ := Collector.next_flags (k := s.collector.settled batch full)
            i h.healthy hfits
          refine hquiet hhealthy (hrunning.trans h.running) (fun y hy => ?_)
          -- no buffer can be that full
          have hmany := hfull y hy
          have hfew := hparts.unread_le h.healthy h.unfailed y
          omega
      · exact absurd hstep (by simp)

theorem Lossless.step {l : Label} (h : Lossless s) (hparts : Parts setup s)
    (hfaultless : s.faultless setup l = true) (hstep : s.step setup l = some s') : Lossless s' := by
  cases l with
  | accept x => exact h.accepted hparts hstep
  | deliver y count => exact h.delivered hparts (by simpa [faultless] using hfaultless) hstep
  | answer y count room => exact h.answered hparts hstep
  | sink l =>
      replace hstep : (if isRead l then none else (s.sinks.step l).map _) = some s' := hstep
      split at hstep
      · exact absurd hstep (by simp)
      · next hread =>
          obtain ⟨sinks, hsinks, rfl⟩ := Option.map_eq_some_iff.mp hstep
          by_cases hsend : ∃ c event room, l = .send c event room
          · obtain ⟨c, event, room, rfl⟩ := hsend
            exact h.sent hparts hfaultless hsinks
          · exact h.gentle (sink_gentle hsinks hfaultless (by simpa using hread)
              (fun c event room hl => hsend ⟨c, event, room, hl⟩))
  | collector l =>
      replace hstep : (if isOwn l then (s.collector.step setup l).map _ else none) = some s' := hstep
      split at hstep
      · next hown =>
          obtain ⟨collector, hcollector, rfl⟩ := Option.map_eq_some_iff.mp hstep
          exact h.worked hparts hown hfaultless hcollector
      · exact absurd hstep (by simp)

theorem lossless_init (setup : JournalSetup) : Lossless (machine setup).init := by
  refine ⟨rfl, rfl, ?_, ?_, ?_⟩
  · exact fun c client hclient => absurd hclient (by simp [machine])
  · exact fun r record hrecord => absurd hrecord (by simp [machine])
  · exact fun c client hclient => absurd hclient (by simp [machine])

theorem lossless_of_reachableIn
    (h : (machine setup).ReachableIn (fun s l => s.faultless setup l = true) s) : Lossless s :=
  h.invariant (lossless_init setup) (fun _ _ _ hr hs hfaultless hstep =>
    hs.step (parts_of_reachable hr.reachable) hfaultless hstep)

/-! ## The guarantee -/

open Collector (dataFrom)

/-- Where the pending records of a client are, which has this as its current connection. -/
inductive Placed (s : CollectorNetwork) (client : SocketAuditSink) (x : Nat) (conn : Connection) : Prop
  /-- The collector has not accepted the connection: they wait there, or are not written. -/
  | waiting (hlinks : x ∉ s.links)
      (hlines : client.pending.map SinkItem.line =
        conn.sent.map SinkItem.line ++ (client.pending.drop client.sent).map SinkItem.line)
  /-- From the first to the last: synced, with one ACK each on the way; in the batch; in the queue; on
      the way to the collector; not written. -/
  | accepted (y : Nat) (socket : CollectorSocket) (hlink : s.links[y]? = some x)
      (hsocket : s.collector.sockets[y]? = some socket) (hopen : socket.destroyed = false)
      (hacks : socket.written.length = (dataFrom y s.collector.durable).length)
      (hlines : client.pending.map SinkItem.line =
        (dataFrom y s.collector.durable).drop conn.received.length ++
        (dataFrom y s.collector.batch ++ dataFrom y s.collector.queue) ++
        (conn.sent.drop (s.collector.framesOf y).length).map SinkItem.line ++
        (client.pending.drop client.sent).map SinkItem.line)

structure NothingLost (setup : JournalSetup) (s : CollectorNetwork) : Prop where
  healthy : s.collector.healthy = true
  unfailed : s.sinks.Unfailed
  /-- A promise is fulfilled, or its client still waits for it. -/
  promises : ∀ (r : Nat) record, s.sinks.records[r]? = some record →
    record.promise = .fulfilled ∨ (record.promise = .pending ∧
      ∃ client, s.sinks.clients[record.client]? = some client ∧
        ∃ item ∈ client.pending, item.record = r)
  /-- Every record that is waited for is in exactly one place. -/
  placed : ∀ (c : Nat) client, s.sinks.clients[c]? = some client → client.pending ≠ [] →
    ∃ x conn, client.socket = some x ∧ s.sinks.connections[x]? = some conn ∧
      Placed s client x conn
  /-- Whatever a socket reads next, the collector takes it. -/
  reads : s.sinks.load ≤ 1024 → ∀ y count s', s.step setup (.deliver y count) = some s' →
    ∃ socket, s'.collector.sockets[y]? = some socket ∧ socket.destroyed = false
  /-- One process alone never has more records out than the collector holds. -/
  alone : s.sinks.clients.length ≤ 1 → s.sinks.load ≤ 1024

theorem Lossless.promises (h : Lossless s) (hparts : Parts setup s) {r : Nat} {record : SinkRecord}
    (hrecord : s.sinks.records[r]? = some record) :
    record.promise = .fulfilled ∨ (record.promise = .pending ∧
      ∃ client, s.sinks.clients[record.client]? = some client ∧
        ∃ item ∈ client.pending, item.record = r) := by
  cases hpromise : record.promise with
  | fulfilled => exact Or.inl rfl
  | pending =>
      exact Or.inr ⟨rfl, (Sinks.wired_of_reachable hparts.sinks).pending r record hrecord hpromise⟩
  | rejected => exact absurd hpromise (h.records r record hrecord).2

theorem Lossless.placed (h : Lossless s) (hparts : Parts setup s)
    (hclient : s.sinks.clients[c]? = some client) (hne : client.pending ≠ []) :
    ∃ x conn, client.socket = some x ∧ s.sinks.connections[x]? = some conn ∧
      Placed s client x conn := by
  have hfailed := h.unfailed c client hclient
  cases hcurrent : client.socket with
  | none => exact absurd (Sinks.idle_of_reachable hparts.sinks c client hclient hcurrent) hne
  | some x =>
      obtain ⟨conn, hconn, _⟩ :=
        ((Sinks.wired_of_reachable hparts.sinks).client c client hclient).socket x hcurrent
      refine ⟨x, conn, rfl, hconn, ?_⟩
      by_cases hlinks : x ∈ s.links
      · obtain ⟨y, hy, hget⟩ := List.getElem_of_mem hlinks
        have hlink : s.links[y]? = some x := by rw [List.getElem?_eq_getElem hy, hget]
        rw [hparts.linked.sockets] at hy
        have hsocket := List.getElem?_eq_getElem hy
        have hopen := h.opened c client hclient hne x y _ hcurrent hlink hsocket
        exact .accepted y _ hlink hsocket hopen
          ((Collector.answered_of_reachable hparts.collector).opened y _ hsocket hopen)
          (hparts.placed h.healthy hclient hfailed hcurrent hlink hconn)
      · exact .waiting hlinks (hparts.unplaced hclient hfailed hcurrent hlinks hconn)

theorem Lossless.reads (h : Lossless s) (hparts : Parts setup s) (hload : s.sinks.load ≤ 1024)
    {count : Nat} (hstep : s.deliver y count = some s') :
    ∃ socket, s'.collector.sockets[y]? = some socket ∧ socket.destroyed = false := by
  obtain ⟨x, socket, conn, collector, hlink, hsocket, hconn, hdata, rfl⟩ := deliver_cases hstep
  obtain ⟨socket₀, socket', j, hfed⟩ := Collector.data_fed hdata
  obtain rfl := Option.some.inj (hsocket.symm.trans hfed.before)
  refine ⟨socket', ?_, hparts.keeps h.healthy h.unfailed hload
    (fun r record hr => (h.records r record hr).1) hlink hconn hfed⟩
  rw [hfed.sockets]
  exact Table.getElem?_set_of_some hsocket

theorem Parts.load_alone (h : Parts setup s) (halone : s.sinks.clients.length ≤ 1) :
    s.sinks.load ≤ 1024 := by
  have hwired := Sinks.wired_of_reachable h.sinks
  rw [Sinks.load]
  cases hclients : s.sinks.clients with
  | nil => exact Nat.zero_le _
  | cons client others =>
      rw [hclients, List.length_cons] at halone
      obtain rfl : others = [] := List.eq_nil_of_length_eq_zero (by omega)
      have hbound := (hwired.client 0 client (by rw [hclients]; rfl)).bound
      simpa using hbound

/-- A run of sinks and the collector in which nothing from outside goes wrong loses nothing: neither end
    breaks off, no promise is rejected, and every record is acknowledged or in one known place. -/
theorem nothing_lost
    (h : (machine setup).ReachableIn (fun s l => s.faultless setup l = true) s) :
    NothingLost setup s := by
  have hlossless := lossless_of_reachableIn h
  have hparts := parts_of_reachable h.reachable
  constructor
  case healthy => exact hlossless.healthy
  case unfailed => exact hlossless.unfailed
  case promises => exact fun r record hrecord => hlossless.promises hparts hrecord
  case placed => exact fun c client hclient hne => hlossless.placed hparts hclient hne
  case reads => exact fun hload y count s' hstep => hlossless.reads hparts hload hstep
  case alone => exact hparts.load_alone

/-- Four records of one client: one is acknowledged, one is in the batch, one in the queue, and of the
    last one some octets are read. -/
def inEveryPlace : List Label :=
  [.sink .socketAuditSink, .sink (.send 0 Collector.minimalRecord 0), .accept 0,
    .sink (.connect 0 9), .deliver 0 5, .deliver 0 (Collector.minimalRecord.line.length - 5),
    .collector (.run 0), .collector (.append 0 Collector.minimalRecord.line.length),
    .collector (.appended 0 true), .collector (.synchronized 0 true []), .answer 0 1 9,
    .sink (.send 0 Collector.minimalRecord 9), .deliver 0 Collector.minimalRecord.line.length,
    .collector (.run 0), .sink (.send 0 Collector.minimalRecord 9),
    .deliver 0 Collector.minimalRecord.line.length, .sink (.send 0 Collector.minimalRecord 9),
    .deliver 0 7]

theorem nothing_lost_inEveryPlace : ∃ s,
    (machine Collector.emptyJournal).execIn (fun s l => s.faultless Collector.emptyJournal l)
      { collector := .start Collector.emptyJournal } inEveryPlace = some s ∧
    s.sinks.records.map SinkRecord.promise = [.fulfilled, .pending, .pending, .pending] ∧
    NothingLost Collector.emptyJournal s := by
  have hrun : ((machine Collector.emptyJournal).execIn
      (fun s l => s.faultless Collector.emptyJournal l)
      { collector := .start Collector.emptyJournal } inEveryPlace).map
        (fun s => s.sinks.records.map SinkRecord.promise) =
      some [.fulfilled, .pending, .pending, .pending] := by
    decide +kernel
  obtain ⟨s, hexec, hpromises⟩ := Option.map_eq_some_iff.mp hrun
  exact ⟨s, hexec, hpromises, nothing_lost (Machine.leadsIn_of_execIn hexec)⟩

end CollectorNetwork

end SecureMcp
