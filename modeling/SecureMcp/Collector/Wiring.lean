import SecureMcp.Collector.SinkSteps

set_option autoImplicit false

/-! # Which record an acknowledgement is for

An acknowledgement names no record. A client takes the oldest one it has sent over its current
connection, and the count of octets it has read from that connection tells which one this is
(`Tracked.socket`). So a fulfilled promise belongs to a record whose line was written to some
connection, among the first that were acknowledged there (`Wired.fulfilled`). -/

namespace SecureMcp

namespace Sinks

variable {s s' : Sinks} {c x : Nat} {client client' : SocketAuditSink} {conn conn' : Connection}
variable {records records' : List SinkRecord} {connections connections' : List Connection}

/-! ## The invariant -/

/-- What a client knows about its pending records and its connections is right. -/
structure Tracked (records : List SinkRecord) (connections : List Connection) (c : Nat)
    (client : SocketAuditSink) : Prop where
  item : ∀ item ∈ client.pending, ∃ record, records[item.record]? = some record ∧
    record.client = c ∧ record.line = item.line ∧ record.promise = .pending
  sorted : (client.pending.map SinkItem.record).Pairwise (· < ·)
  sent : client.sent ≤ client.pending.length
  bound : client.pending.length ≤ 1024
  socket : ∀ x, client.socket = some x → ∃ conn, connections[x]? = some conn ∧ conn.client = c ∧
    (client.failed = false → conn.received.length ≤ conn.sent.length ∧
      client.pending.take client.sent = conn.sent.drop conn.received.length)
  latest : ∀ x, client.socket = some x → ∀ (y : Nat) conn, connections[y]? = some conn →
    conn.client = c → y ≤ x
  idle : client.socket = none → client.connected = false
  unconnected : client.connected = false → client.sent = 0
  failed : client.failed = true → client.pending = []
  closed : client.closed = true → client.pending = []
  settled : client.failed = false → ∀ (y : Nat) conn, connections[y]? = some conn →
    conn.client = c → ∀ (k : Nat) item, conn.sent[k]? = some item →
      (client.socket = some y → k < conn.received.length) →
      ∃ record, records[item.record]? = some record ∧ record.promise = .fulfilled
  later : ∀ (y : Nat) conn, connections[y]? = some conn → conn.client = c →
    ∀ item ∈ conn.sent, ∀ item' ∈ client.pending.drop client.sent, item.record < item'.record

structure Wired (s : Sinks) : Prop where
  client : ∀ (c : Nat) client, s.clients[c]? = some client →
    Tracked s.records s.connections c client
  item : ∀ (x : Nat) conn, s.connections[x]? = some conn → ∀ item ∈ conn.sent,
    ∃ record, s.records[item.record]? = some record ∧ record.client = conn.client ∧
      record.line = item.line
  /-- Writes of one client, in the order of its connections and of the writes to each. -/
  order : ∀ (x x' : Nat) conn conn', s.connections[x]? = some conn →
    s.connections[x']? = some conn' → conn.client = conn'.client →
    ∀ (k k' : Nat) item item', conn.sent[k]? = some item → conn'.sent[k']? = some item' →
      (x < x' ∨ (x = x' ∧ k < k')) → item.record < item'.record
  fulfilled : ∀ (r : Nat) record, s.records[r]? = some record → record.promise = .fulfilled →
    ∃ (x : Nat) (conn : Connection) (k : Nat) (item : SinkItem),
      s.connections[x]? = some conn ∧ conn.sent[k]? = some item ∧ item.record = r ∧
        k < conn.received.length
  owner : ∀ (x : Nat) conn, s.connections[x]? = some conn → conn.client < s.clients.length
  pending : ∀ (r : Nat) record, s.records[r]? = some record → record.promise = .pending →
    ∃ client, s.clients[record.client]? = some client ∧ ∃ item ∈ client.pending, item.record = r
  line : ∀ (r : Nat) record, s.records[r]? = some record → Lines.IsLine record.line

theorem wired_init : Wired machine.init := by
  constructor
  case order =>
    intro x x' conn conn' h
    exact absurd h (by simp [machine])
  all_goals
    intro i row h
    exact absurd h (by simp [machine])

/-! ## What a client relies on -/

/-- The rest of a record stays, and a promise that has settled stays settled. -/
def SameRecord (record record' : SinkRecord) : Prop :=
  record'.client = record.client ∧ record'.line = record.line ∧
    (record.promise ≠ .pending → record'.promise = record.promise)

theorem SameRecord.refl (record : SinkRecord) : SameRecord record record :=
  ⟨rfl, rfl, fun _ => rfl⟩

theorem Tracked.of_records (h : Tracked records connections c client)
    (hkeep : ∀ (r : Nat) record, records[r]? = some record → ∃ record',
      records'[r]? = some record' ∧ SameRecord record record' ∧
        ((∃ item ∈ client.pending, item.record = r) → record'.promise = record.promise)) :
    Tracked records' connections c client := by
  refine { h with item := ?_, settled := ?_ }
  · intro item hitem
    obtain ⟨record, hrecord, hclient, hline, hpromise⟩ := h.item item hitem
    obtain ⟨record', hrecord', ⟨h1, h2, _⟩, hsame⟩ := hkeep item.record record hrecord
    exact ⟨record', hrecord', h1.trans hclient, h2.trans hline,
      (hsame ⟨item, hitem, rfl⟩).trans hpromise⟩
  · intro hfailed y conn hconn hclient k item hitem hgot
    obtain ⟨record, hrecord, hpromise⟩ := h.settled hfailed y conn hconn hclient k item hitem hgot
    obtain ⟨record', hrecord', ⟨_, _, h3⟩, _⟩ := hkeep item.record record hrecord
    exact ⟨record', hrecord', (h3 (by rw [hpromise]; decide)).trans hpromise⟩

/-- A client whose connections are the same. -/
theorem Tracked.of_connections (h : Tracked records connections c client)
    (hsame : ∀ (y : Nat) conn, conn.client = c →
      (connections'[y]? = some conn ↔ connections[y]? = some conn)) :
    Tracked records connections' c client := by
  refine { h with socket := ?_, latest := ?_, settled := ?_, later := ?_ }
  · intro x hsocket
    obtain ⟨conn, hconn, hclient, hopen⟩ := h.socket x hsocket
    exact ⟨conn, (hsame x conn hclient).mpr hconn, hclient, hopen⟩
  · intro x hsocket y conn hconn hclient
    exact h.latest x hsocket y conn ((hsame y conn hclient).mp hconn) hclient
  · intro hfailed y conn hconn hclient
    exact h.settled hfailed y conn ((hsame y conn hclient).mp hconn) hclient
  · intro y conn hconn hclient
    exact h.later y conn ((hsame y conn hclient).mp hconn) hclient

theorem same_of_append (hne : conn.client ≠ c) (y : Nat) (other : Connection)
    (hother : other.client = c) :
    (connections ++ [conn])[y]? = some other ↔ connections[y]? = some other := by
  constructor
  · intro h
    rcases Table.getElem?_append_cases h with hold | ⟨_, rfl⟩
    · exact hold
    · exact absurd hother hne
  · exact Table.getElem?_append_of_some

theorem same_of_set (hconn : connections[x]? = some conn) (hsame : conn'.client = conn.client)
    (hne : conn.client ≠ c) (y : Nat) (other : Connection) (hother : other.client = c) :
    (connections.set x conn')[y]? = some other ↔ connections[y]? = some other := by
  by_cases hyx : y = x
  · subst hyx
    rw [Table.getElem?_set_of_some hconn, hconn]
    constructor
    · intro h
      obtain rfl := Option.some.inj h
      exact absurd (hsame.symm.trans hother) hne
    · intro h
      obtain rfl := Option.some.inj h
      exact absurd hother hne
  · rw [Table.getElem?_set_of_ne hyx]

/-! ## Settling promises -/

theorem settle_getElem? (items : List SinkItem) (promise : Settlement) (r : Nat)
    (record : SinkRecord) (h : s.records[r]? = some record) :
    (s.settle items promise).records[r]? = some
      (if record.promise = .pending && items.any (fun item => item.record == r) then
        { record with promise }
      else record) := by
  rw [settle, List.getElem?_mapIdx, h]
  rfl

theorem settle_same (items : List SinkItem) (promise : Settlement) (r : Nat) (record : SinkRecord)
    (h : s.records[r]? = some record) :
    ∃ record', (s.settle items promise).records[r]? = some record' ∧ SameRecord record record' ∧
      ((∀ item ∈ items, item.record ≠ r) → record'.promise = record.promise) := by
  refine ⟨_, settle_getElem? items promise r record h, ?_⟩
  split
  · next hsettled =>
      simp only [Bool.and_eq_true, decide_eq_true_eq, List.any_eq_true, beq_iff_eq] at hsettled
      obtain ⟨hpending, item, hitem, heq⟩ := hsettled
      exact ⟨⟨rfl, rfl, fun hother => absurd hpending hother⟩,
        fun hnone => absurd heq (hnone item hitem)⟩
  · exact ⟨SameRecord.refl record, fun _ => rfl⟩

/-- A pending promise of one of the items is settled. -/
theorem settle_of_mem {items : List SinkItem} (promise : Settlement) {item : SinkItem}
    {record : SinkRecord} (hitem : item ∈ items) (h : s.records[item.record]? = some record)
    (hpending : record.promise = .pending) :
    (s.settle items promise).records[item.record]? = some { record with promise } := by
  rw [settle_getElem? items promise item.record record h, if_pos]
  simp only [Bool.and_eq_true, decide_eq_true_eq, List.any_eq_true, beq_iff_eq]
  exact ⟨hpending, item, hitem, rfl⟩

/-- A promise that `settle` changes is of one of the items. -/
theorem settle_cases {items : List SinkItem} {promise : Settlement} {r : Nat} {record' : SinkRecord}
    (h : (s.settle items promise).records[r]? = some record') :
    ∃ record, s.records[r]? = some record ∧ SameRecord record record' ∧
      (record' = record ∨
        (record.promise = .pending ∧ record'.promise = promise ∧
          ∃ item ∈ items, item.record = r)) := by
  unfold settle at h
  rw [List.getElem?_mapIdx] at h
  obtain ⟨record, hrecord, rfl⟩ := Option.map_eq_some_iff.mp h
  refine ⟨record, hrecord, ?_⟩
  split
  · next hsettled =>
      simp only [Bool.and_eq_true, decide_eq_true_eq, List.any_eq_true, beq_iff_eq] at hsettled
      exact ⟨⟨rfl, rfl, fun hother => absurd hsettled.1 hother⟩,
        Or.inr ⟨hsettled.1, rfl, hsettled.2⟩⟩
  · exact ⟨SameRecord.refl record, Or.inl rfl⟩

/-- Records that two clients have pending are different. -/
theorem Wired.disjoint (h : Wired s) {c' : Nat} (hclient : s.clients[c]? = some client)
    (hclient' : s.clients[c']? = some client') (hne : c' ≠ c) {item item' : SinkItem}
    (hitem : item ∈ client.pending) (hitem' : item' ∈ client'.pending) :
    item.record ≠ item'.record := by
  intro heq
  obtain ⟨record, hrecord, hc, _⟩ := (h.client c client hclient).item item hitem
  obtain ⟨record', hrecord', hc', _⟩ := (h.client c' client' hclient').item item' hitem'
  rw [heq] at hrecord
  obtain rfl := Option.some.inj (hrecord.symm.trans hrecord')
  exact hne (hc'.symm.trans hc)

/-! ## Moves that change no connection -/

/-- A client is replaced, and of the records only promises change: settled ones stay, and none of
    another client's pending records is touched. -/
theorem Wired.update (h : Wired s) (hclient : s.clients[c]? = some client)
    (hkeep : ∀ (r : Nat) record, s.records[r]? = some record → ∃ record', records'[r]? = some record' ∧
      SameRecord record record' ∧ (record.client ≠ c → record'.promise = record.promise))
    (hnew : ∀ (r : Nat) record', records'[r]? = some record' →
      (∃ record, s.records[r]? = some record ∧ SameRecord record record') ∨
        (r = s.records.length ∧ Lines.IsLine record'.line))
    (hfulfilled : ∀ (r : Nat) record', records'[r]? = some record' → record'.promise = .fulfilled →
      ∃ record, s.records[r]? = some record ∧ record.promise = .fulfilled)
    (hpending : ∀ (r : Nat) record', records'[r]? = some record' → record'.promise = .pending →
      (record'.client = c → ∃ item ∈ client'.pending, item.record = r) ∧
        (record'.client ≠ c → ∃ record, s.records[r]? = some record ∧
          record.client = record'.client ∧ record.promise = .pending))
    (htracked : Tracked records' s.connections c client') :
    Wired { s with records := records', clients := s.clients.set c client' } := by
  refine ⟨?_, ?_, h.order, ?_, ?_, ?_, ?_⟩
  · refine Table.forall_set_of_ne ?_ htracked
    intro c' other hne hother
    refine (h.client c' other hother).of_records ?_
    intro r record hrecord
    obtain ⟨record', hrecord', hsame, hpromise⟩ := hkeep r record hrecord
    refine ⟨record', hrecord', hsame, ?_⟩
    rintro ⟨item, hitem, rfl⟩
    obtain ⟨own, hown, howner, _⟩ := (h.client c' other hother).item item hitem
    obtain rfl := Option.some.inj (hrecord.symm.trans hown)
    exact hpromise (fun heq => hne (howner.symm.trans heq))
  · intro x conn hconn item hitem
    obtain ⟨record, hrecord, hc, hline⟩ := h.item x conn hconn item hitem
    obtain ⟨record', hrecord', ⟨h1, h2, _⟩, _⟩ := hkeep item.record record hrecord
    exact ⟨record', hrecord', h1.trans hc, h2.trans hline⟩
  · intro r record' hrecord' hpromise
    obtain ⟨record, hrecord, hold⟩ := hfulfilled r record' hrecord' hpromise
    exact h.fulfilled r record hrecord hold
  · intro x conn hconn
    have hlt := h.owner x conn hconn
    simpa using hlt
  · intro r record' hrecord' hpromise
    obtain ⟨hown, hother⟩ := hpending r record' hrecord' hpromise
    by_cases hc : record'.client = c
    · exact ⟨client', by rw [hc]; exact Table.getElem?_set_of_some hclient, hown hc⟩
    · obtain ⟨record, hrecord, hsame, hold⟩ := hother hc
      obtain ⟨other, hfound, hitem⟩ := h.pending r record hrecord hold
      refine ⟨other, ?_, hitem⟩
      rw [← hsame, Table.getElem?_set_of_ne (fun heq => hc (hsame.symm.trans heq))]
      exact hfound
  · intro r record' hrecord'
    rcases hnew r record' hrecord' with ⟨record, hrecord, _, h2, _⟩ | ⟨_, hline⟩
    · rw [h2]
      exact h.line r record hrecord
    · exact hline

theorem Wired.created (h : Wired s) : Wired { s with clients := s.clients ++ [{}] } := by
  refine ⟨?_, h.item, h.order, h.fulfilled, ?_, ?_, h.line⟩
  · refine Table.forall_append h.client ?_
    refine ⟨by simp, by simp, by simp, by simp, by simp, by simp, fun _ => rfl, fun _ => rfl,
      fun _ => rfl, fun _ => rfl, ?_, by simp⟩
    intro _ y conn hconn hclient
    exact absurd hclient (Nat.ne_of_lt (h.owner y conn hconn))
  · intro x conn hconn
    have hlt := h.owner x conn hconn
    rw [List.length_append]
    omega
  · intro r record hrecord hpromise
    obtain ⟨client, hclient, hitem⟩ := h.pending r record hrecord hpromise
    exact ⟨client, Table.getElem?_append_of_some hclient, hitem⟩

theorem Wired.refused (h : Wired s) (event : Json) : Wired { s with
    records := s.records ++ [{ client := c, line := event.line, promise := .rejected }] } := by
  have hkeep : ∀ (r : Nat) (record : SinkRecord), s.records[r]? = some record →
      (s.records ++ [({ client := c, line := event.line, promise := .rejected } : SinkRecord)])[r]? =
        some record := fun r record hrecord => Table.getElem?_append_of_some hrecord
  refine ⟨?_, ?_, h.order, ?_, h.owner, ?_, ?_⟩
  · intro c' other hother
    exact (h.client c' other hother).of_records
      (fun r record hrecord => ⟨record, hkeep r record hrecord, SameRecord.refl record, fun _ => rfl⟩)
  · intro x conn hconn item hitem
    obtain ⟨record, hrecord, hsame⟩ := h.item x conn hconn item hitem
    exact ⟨record, hkeep item.record record hrecord, hsame⟩
  · refine Table.forall_append h.fulfilled ?_
    intro hpromise
    exact absurd hpromise (by simp)
  · refine Table.forall_append h.pending ?_
    intro hpromise
    exact absurd hpromise (by simp)
  · exact Table.forall_append h.line event.isLine_line

theorem refuses_eq_false {line : Bytes} (h : refuses client line = false) :
    client.failed = false ∧ client.closed = false ∧ client.pending.length < 1024 ∧
      line.length ≤ 4096 := by
  unfold refuses at h
  simp only [Bool.or_eq_false_iff, decide_eq_false_iff_not] at h
  obtain ⟨⟨⟨hfailed, hclosed⟩, hpending⟩, hline⟩ := h
  exact ⟨hfailed, hclosed, by omega, by omega⟩

theorem Wired.lt_records (h : Wired s) (hconn : s.connections[x]? = some conn) {item : SinkItem}
    (hitem : item ∈ conn.sent) : item.record < s.records.length := by
  obtain ⟨record, hrecord, _⟩ := h.item x conn hconn item hitem
  exact Table.lt_of_getElem? hrecord

theorem Wired.enqueued (h : Wired s) (event : Json) (hclient : s.clients[c]? = some client)
    (hrefuses : refuses client event.line = false) : Wired (s.enqueue c client event.line) := by
  obtain ⟨hfailed, hclosed, hbound, _⟩ := refuses_eq_false hrefuses
  have hold := h.client c client hclient
  have hlt : ∀ item ∈ client.pending, item.record < s.records.length := by
    intro item hitem
    obtain ⟨record, hrecord, _⟩ := hold.item item hitem
    exact Table.lt_of_getElem? hrecord
  have hkeep : ∀ (r : Nat) (record : SinkRecord), s.records[r]? = some record →
      (s.records ++ [({ client := c, line := event.line, promise := .pending } : SinkRecord)])[r]? =
        some record := fun r record hrecord => Table.getElem?_append_of_some hrecord
  unfold enqueue
  refine h.update hclient ?_ ?_ ?_ ?_ ?_
  · exact fun r record hrecord =>
      ⟨record, hkeep r record hrecord, SameRecord.refl record, fun _ => rfl⟩
  · intro r record' hrecord'
    rcases Table.getElem?_append_cases hrecord' with hfound | ⟨rfl, rfl⟩
    · exact Or.inl ⟨record', hfound, SameRecord.refl record'⟩
    · exact Or.inr ⟨rfl, event.isLine_line⟩
  · intro r record' hrecord' hpromise
    rcases Table.getElem?_append_cases hrecord' with hfound | ⟨_, rfl⟩
    · exact ⟨record', hfound, hpromise⟩
    · exact absurd hpromise (by simp)
  · intro r record' hrecord' hpromise
    rcases Table.getElem?_append_cases hrecord' with hfound | ⟨rfl, rfl⟩
    · refine ⟨fun hc => ?_, fun _ => ⟨record', hfound, rfl, hpromise⟩⟩
      obtain ⟨other, hother, item, hitem, hr⟩ := h.pending r record' hfound hpromise
      rw [hc, hclient] at hother
      obtain rfl := Option.some.inj hother
      exact ⟨item, List.mem_append_left _ hitem, hr⟩
    · exact ⟨fun _ => ⟨⟨s.records.length, event.line⟩, by simp, rfl⟩, fun hc => absurd rfl hc⟩
  · refine ⟨?_, ?_, ?_, ?_, ?_, hold.latest, hold.idle, hold.unconnected, ?_, ?_, ?_, ?_⟩
    · intro item hitem
      rcases List.mem_append.mp hitem with hin | hin
      · obtain ⟨record, hrecord, hsame⟩ := hold.item item hin
        exact ⟨record, hkeep item.record record hrecord, hsame⟩
      · obtain rfl := List.mem_singleton.mp hin
        exact ⟨_, List.getElem?_concat_length, rfl, rfl, rfl⟩
    · rw [List.map_append, List.pairwise_append]
      refine ⟨hold.sorted, by simp, ?_⟩
      intro r hr r' hr'
      obtain ⟨item, hitem, rfl⟩ := List.mem_map.mp hr
      obtain rfl : r' = s.records.length := by simpa using hr'
      exact hlt item hitem
    · have hsent := hold.sent
      simp only [List.length_append, List.length_singleton]
      omega
    · simp only [List.length_append, List.length_singleton]
      omega
    · intro x hsocket
      obtain ⟨conn, hconn, hc, hopen⟩ := hold.socket x hsocket
      refine ⟨conn, hconn, hc, fun hf => ⟨(hopen hf).1, ?_⟩⟩
      rw [List.take_append_of_le_length hold.sent]
      exact (hopen hf).2
    · intro hf
      exact absurd (hfailed.symm.trans hf) (by simp)
    · intro hf
      exact absurd (hclosed.symm.trans hf) (by simp)
    · intro hf y conn hconn hc k item hitem hgot
      obtain ⟨record, hrecord, hpromise⟩ := hold.settled hf y conn hconn hc k item hitem hgot
      exact ⟨record, hkeep item.record record hrecord, hpromise⟩
    · intro y conn hconn hc item hitem item' hitem'
      rw [List.drop_append_of_le_length hold.sent] at hitem'
      rcases List.mem_append.mp hitem' with hin | hin
      · exact hold.later y conn hconn hc item hitem item' hin
      · obtain rfl := List.mem_singleton.mp hin
        exact h.lt_records hconn hitem

/-- Only the client is replaced. -/
theorem Wired.put (h : Wired s) (hclient : s.clients[c]? = some client)
    (hpending : client'.pending = client.pending)
    (htracked : Tracked s.records s.connections c client') : Wired (s.put c client') := by
  refine h.update hclient ?_ ?_ ?_ ?_ htracked
  · exact fun r record hrecord => ⟨record, hrecord, SameRecord.refl record, fun _ => rfl⟩
  · exact fun r record hrecord => Or.inl ⟨record, hrecord, SameRecord.refl record⟩
  · exact fun r record hrecord hpromise => ⟨record, hrecord, hpromise⟩
  · intro r record hrecord hpromise
    refine ⟨fun hc => ?_, fun _ => ⟨record, hrecord, rfl, hpromise⟩⟩
    obtain ⟨other, hother, hitem⟩ := h.pending r record hrecord hpromise
    rw [hc, hclient] at hother
    obtain rfl := Option.some.inj hother
    rw [hpending]
    exact hitem

theorem Wired.flagged (h : Wired s) (hclient : s.clients[c]? = some client)
    (hpending : client'.pending = client.pending) (hsent : client'.sent = client.sent)
    (hsocket : client'.socket = client.socket) (hfailed : client'.failed = client.failed)
    (hconnected : client.connected = true → client'.connected = true)
    (hlinked : client'.connected = true → client'.connected = client.connected ∨
      client.socket ≠ none)
    (hclosing : client'.closed = true → client.closed = true ∨ client.pending = []) :
    Wired (s.put c client') := by
  have hold := h.client c client hclient
  refine h.put hclient hpending ?_
  constructor <;> simp only [hpending, hsent, hsocket, hfailed]
  case idle =>
    intro hnone
    cases hc : client'.connected with
    | false => rfl
    | true =>
        rcases hlinked hc with heq | hne
        · rw [hc] at heq
          exact heq.trans (hold.idle hnone)
        · exact absurd hnone hne
  case unconnected =>
    intro hc
    refine hold.unconnected ?_
    cases ho : client.connected with
    | false => rfl
    | true => exact absurd ((hconnected ho).symm.trans hc) (by simp)
  case closed =>
    intro hc
    rcases hclosing hc with ho | hnil
    · exact hold.closed ho
    · exact hnil
  exacts [hold.item, hold.sorted, hold.sent, hold.bound, hold.socket, hold.latest, hold.failed,
    hold.settled, hold.later]

theorem Wired.detached (h : Wired s) (hclient : s.clients[c]? = some client)
    (hpending : client.pending = []) :
    Wired (s.put c { client with socket := none, connected := false, writable := false }) := by
  have hold := h.client c client hclient
  have hzero : client.sent = 0 := by
    have hsent := hold.sent
    rw [hpending] at hsent
    simpa using hsent
  refine h.put hclient rfl ⟨hold.item, hold.sorted, hold.sent, hold.bound, by simp, by simp,
    fun _ => rfl, fun _ => hzero, hold.failed, hold.closed, ?_, hold.later⟩
  intro hfailed y conn hconn hc k item hitem _
  refine hold.settled hfailed y conn hconn hc k item hitem (fun hsocket => ?_)
  -- nothing is outstanding: all that was sent over this connection is acknowledged
  obtain ⟨current, hcurrent, _, hopen⟩ := hold.socket y hsocket
  obtain rfl := Option.some.inj (hconn.symm.trans hcurrent)
  have hdrop := (hopen hfailed).2
  rw [hzero, List.take_zero] at hdrop
  have hle := List.drop_eq_nil_iff.mp hdrop.symm
  have hk := Table.lt_of_getElem? hitem
  omega

/-- Promises of the client's own items are settled, and these items leave `pending`. -/
theorem Wired.settled (h : Wired s) (hclient : s.clients[c]? = some client) {items : List SinkItem}
    (hsub : ∀ item ∈ items, item ∈ client.pending)
    (hrest : ∀ item ∈ client.pending, item ∈ items ∨ item ∈ client'.pending)
    (htracked : Tracked (s.settle items .rejected).records s.connections c client') :
    Wired ((s.settle items .rejected).put c client') := by
  have hold := h.client c client hclient
  refine h.update hclient ?_ ?_ ?_ ?_ htracked
  · intro r record hrecord
    obtain ⟨record', hrecord', hsame, hpromise⟩ := settle_same items .rejected r record hrecord
    refine ⟨record', hrecord', hsame, fun hother => hpromise ?_⟩
    rintro item hitem rfl
    obtain ⟨own, hown, howner, _⟩ := hold.item item (hsub item hitem)
    obtain rfl := Option.some.inj (hrecord.symm.trans hown)
    exact hother howner
  · intro r record' hrecord'
    obtain ⟨record, hrecord, hsame, _⟩ := settle_cases hrecord'
    exact Or.inl ⟨record, hrecord, hsame⟩
  · intro r record' hrecord' hpromise
    obtain ⟨record, hrecord, _, rfl | ⟨_, hrejected, _⟩⟩ := settle_cases hrecord'
    · exact ⟨record', hrecord, hpromise⟩
    · exact absurd (hrejected.symm.trans hpromise) (by decide)
  · intro r record' hrecord' hpromise
    obtain ⟨record, hrecord, _, rfl | ⟨_, hrejected, _⟩⟩ := settle_cases hrecord'
    · refine ⟨fun hc => ?_, fun _ => ⟨record', hrecord, rfl, hpromise⟩⟩
      obtain ⟨other, hother, item, hitem, rfl⟩ := h.pending r record' hrecord hpromise
      rw [hc, hclient] at hother
      obtain rfl := Option.some.inj hother
      rcases hrest item hitem with hin | hin
      · have hset := settle_of_mem .rejected hin hrecord hpromise
        obtain heq := Option.some.inj (hset.symm.trans hrecord')
        rw [← heq] at hpromise
        exact absurd hpromise (by simp)
      · exact ⟨item, hin, rfl⟩
    · exact absurd (hrejected.symm.trans hpromise) (by decide)

theorem Wired.failed (h : Wired s) (hclient : s.clients[c]? = some client)
    (hpending : client'.pending = []) (hsent : client'.sent = 0)
    (hsocket : (client'.socket = client.socket ∧ client'.connected = client.connected) ∨
      (client'.socket = none ∧ client'.connected = false))
    (hfailed : client'.failed = true) :
    Wired ((s.settle client.pending .rejected).put c client') := by
  have hold := h.client c client hclient
  refine h.settled hclient (fun _ hitem => hitem) (fun _ hitem => Or.inl hitem) ?_
  constructor
  case item => simp [hpending]
  case sorted => simp [hpending]
  case sent => simp [hsent]
  case bound => simp [hpending]
  case socket =>
    intro x hx
    rcases hsocket with ⟨heq, _⟩ | ⟨hnone, _⟩
    · obtain ⟨conn, hconn, hc, _⟩ := hold.socket x (heq.symm.trans hx)
      exact ⟨conn, hconn, hc, fun hf => absurd (hfailed.symm.trans hf) (by simp)⟩
    · exact absurd (hnone.symm.trans hx) (by simp)
  case latest =>
    intro x hx
    rcases hsocket with ⟨heq, _⟩ | ⟨hnone, _⟩
    · exact hold.latest x (heq.symm.trans hx)
    · exact absurd (hnone.symm.trans hx) (by simp)
  case idle =>
    intro hx
    rcases hsocket with ⟨heq, hc⟩ | ⟨_, hc⟩
    · exact hc.trans (hold.idle (heq.symm.trans hx))
    · exact hc
  case unconnected => exact fun _ => hsent
  case failed => exact fun _ => hpending
  case closed => exact fun _ => hpending
  case settled =>
    intro hf
    exact absurd (hfailed.symm.trans hf) (by simp)
  case later => simp [hpending]

/-! ## Moves that change a connection -/

/-- The pending records of a client that is replaced by one with the same `pending`. -/
theorem Wired.pending_set (h : Wired s) (hclient : s.clients[c]? = some client)
    (hpending : client'.pending = client.pending) (r : Nat) (record : SinkRecord)
    (hrecord : s.records[r]? = some record) (hpromise : record.promise = .pending) :
    ∃ other, (s.clients.set c client')[record.client]? = some other ∧
      ∃ item ∈ other.pending, item.record = r := by
  obtain ⟨other, hother, hitem⟩ := h.pending r record hrecord hpromise
  by_cases hc : record.client = c
  · rw [hc, hclient] at hother
    obtain rfl := Option.some.inj hother
    exact ⟨client', by rw [hc]; exact Table.getElem?_set_of_some hclient, by rw [hpending]; exact hitem⟩
  · exact ⟨other, (Table.getElem?_set_of_ne hc).trans hother, hitem⟩

theorem Wired.opened (h : Wired s) (hclient : s.clients[c]? = some client)
    (hsocket : client.socket = none) : Wired (s.openSocket c client) := by
  have hold := h.client c client hclient
  have hzero : client.sent = 0 := hold.unconnected (hold.idle hsocket)
  have hlt : c < s.clients.length := Table.lt_of_getElem? hclient
  unfold openSocket
  constructor
  case client =>
    refine Table.forall_set_of_ne ?_ ?_
    · intro c' other hne hother
      exact (h.client c' other hother).of_connections (same_of_append (fun heq => hne heq.symm))
    · refine { hold with socket := ?_, latest := ?_, idle := ?_, settled := ?_, later := ?_ }
      · intro x hx
        obtain rfl := Option.some.inj hx
        exact ⟨_, List.getElem?_concat_length, rfl, fun _ => ⟨Nat.le_refl _, by simp [hzero]⟩⟩
      · intro x hx y conn hconn _
        obtain rfl := Option.some.inj hx
        have hy := Table.lt_of_getElem? hconn
        rw [List.length_append, List.length_singleton] at hy
        omega
      · intro hx
        exact absurd hx (by simp)
      · intro hf y conn hconn hc k item hitem hgot
        rcases Table.getElem?_append_cases hconn with hin | ⟨_, rfl⟩
        · refine hold.settled hf y conn hin hc k item hitem (fun hy => ?_)
          exact absurd (hsocket.symm.trans hy) (by simp)
        · exact absurd hitem (by simp)
      · intro y conn hconn hc item hitem
        rcases Table.getElem?_append_cases hconn with hin | ⟨_, rfl⟩
        · exact hold.later y conn hin hc item hitem
        · exact absurd hitem (by simp)
  case item =>
    exact Table.forall_append h.item (by simp)
  case order =>
    intro x x' conn conn' hconn hconn' hsame k k' item item' hitem hitem' hbefore
    rcases Table.getElem?_append_cases hconn with hin | ⟨_, rfl⟩
    · rcases Table.getElem?_append_cases hconn' with hin' | ⟨_, rfl⟩
      · exact h.order x x' conn conn' hin hin' hsame k k' item item' hitem hitem' hbefore
      · exact absurd hitem' (by simp)
    · exact absurd hitem (by simp)
  case fulfilled =>
    intro r record hrecord hpromise
    obtain ⟨x, conn, k, item, hconn, hrest⟩ := h.fulfilled r record hrecord hpromise
    exact ⟨x, conn, k, item, Table.getElem?_append_of_some hconn, hrest⟩
  case owner =>
    refine Table.forall_append ?_ (by simpa using hlt)
    intro x conn hconn
    simpa using h.owner x conn hconn
  case pending => exact h.pending_set hclient rfl
  case line => exact h.line

theorem Wired.wrote (h : Wired s) {item : SinkItem} {returned : Bool}
    (hclient : s.clients[c]? = some client) (hsocket : client.socket = some x)
    (hconnected : client.connected = true) (hitem : client.pending[client.sent]? = some item)
    (hconn : s.connections[x]? = some conn) : Wired (s.write c client x item returned) := by
  have hold := h.client c client hclient
  obtain ⟨conn', hconn', hc, hopen⟩ := hold.socket x hsocket
  obtain rfl := Option.some.inj (hconn.symm.trans hconn')
  have hmem : item ∈ client.pending := List.mem_of_getElem? hitem
  have hlt : client.sent < client.pending.length := Table.lt_of_getElem? hitem
  have hfirst : item ∈ client.pending.drop client.sent :=
    List.mem_of_getElem? (by rw [List.getElem?_drop, Nat.add_zero]; exact hitem)
  have hdrop : client.pending.drop client.sent = item :: client.pending.drop (client.sent + 1) := by
    obtain ⟨hl, heq⟩ := List.getElem?_eq_some_iff.mp hitem
    rw [List.drop_eq_getElem_cons hl, heq]
  -- the sorted list of pending records, from the item that is written
  have hafter : ∀ item' ∈ client.pending.drop (client.sent + 1), item.record < item'.record := by
    have hsorted := (hold.sorted.sublist ((List.drop_sublist client.sent _).map SinkItem.record))
    rw [hdrop, List.map_cons, List.pairwise_cons] at hsorted
    exact fun item' hitem' => hsorted.1 item'.record (List.mem_map_of_mem hitem')
  have hfailed : client.failed = false := by
    cases hf : client.failed with
    | false => rfl
    | true =>
        rw [hold.failed hf] at hlt
        exact absurd hlt (by simp)
  rw [write, hconn]
  constructor
  case client =>
    refine Table.forall_set_of_ne ?_ ?_
    · intro c' other hne hother
      exact (h.client c' other hother).of_connections
        (same_of_set hconn rfl (fun heq => hne (heq.symm.trans hc)))
    · refine { hold with
        sent := hlt, socket := ?_, latest := ?_, unconnected := ?_, settled := ?_, later := ?_ }
      · intro y hy
        obtain rfl := Option.some.inj (hsocket.symm.trans hy)
        refine ⟨_, Table.getElem?_set_of_some hconn, hc, fun hf => ⟨?_, ?_⟩⟩
        · have hle := (hopen hf).1
          simp only [List.length_append]
          omega
        · rw [List.take_add_one, hitem, (hopen hf).2,
            List.drop_append_of_le_length (hopen hf).1]
          rfl
      · intro y hy z other hother hcz
        rcases Table.getElem?_set_cases hother with ⟨rfl, rfl⟩ | ⟨_, hin⟩
        · exact hold.latest y hy z conn hconn hc
        · exact hold.latest y hy z other hin hcz
      · intro hnot
        exact absurd (hconnected.symm.trans hnot) (by simp)
      · intro hf y other hother hcy k item' hitem' hgot
        rcases Table.getElem?_set_cases hother with ⟨rfl, rfl⟩ | ⟨_, hin⟩
        · have hk := hgot hsocket
          have hle := (hopen hf).1
          rw [List.getElem?_append_left (Nat.lt_of_lt_of_le hk hle)] at hitem'
          exact hold.settled hf y conn hconn hc k item' hitem' (fun _ => hk)
        · exact hold.settled hf y other hin hcy k item' hitem' hgot
      · intro y other hother hcy item₁ hitem₁ item₂ hitem₂
        have hlater : item₂ ∈ client.pending.drop client.sent := by
          rw [hdrop]
          exact List.mem_cons_of_mem _ hitem₂
        rcases Table.getElem?_set_cases hother with ⟨rfl, rfl⟩ | ⟨_, hin⟩
        · rcases List.mem_append.mp hitem₁ with hin | hin
          · exact hold.later y conn hconn hc item₁ hin item₂ hlater
          · obtain rfl := List.mem_singleton.mp hin
            exact hafter item₂ hitem₂
        · exact hold.later y other hin hcy item₁ hitem₁ item₂ hlater
  case item =>
    refine Table.forall_set h.item ?_
    intro item' hitem'
    rcases List.mem_append.mp hitem' with hin | hin
    · exact h.item x conn hconn item' hin
    · obtain rfl := List.mem_singleton.mp hin
      obtain ⟨record, hrecord, h1, h2, _⟩ := hold.item item' hmem
      exact ⟨record, hrecord, h1.trans hc.symm, h2⟩
  case order =>
    intro y y' other other' hother hother' hsame k k' item₁ item₂ hitem₁ hitem₂ hbefore
    -- the item that is written comes last, on the latest connection of its client
    rcases Table.getElem?_set_cases hother with ⟨rfl, rfl⟩ | ⟨hne, hin⟩
    · rcases Table.getElem?_set_cases hother' with ⟨rfl, rfl⟩ | ⟨hne', hin'⟩
      · have hkk : k < k' := by
          rcases hbefore with hlt' | ⟨_, hkk⟩
          · exact absurd hlt' (Nat.lt_irrefl _)
          · exact hkk
        rcases Table.getElem?_append_cases hitem₁ with hfirst₁ | ⟨hk, rfl⟩
        · rcases Table.getElem?_append_cases hitem₂ with hfirst₂ | ⟨_, rfl⟩
          · exact h.order y' y' conn conn hconn hconn rfl k k' item₁ item₂ hfirst₁ hfirst₂
              (Or.inr ⟨rfl, hkk⟩)
          · exact hold.later y' conn hconn hc item₁ (List.mem_of_getElem? hfirst₁) item₂ hfirst
        · have hk' := Table.lt_of_getElem? hitem₂
          rw [List.length_append, List.length_singleton] at hk'
          omega
      · have hle := hold.latest y hsocket y' other' hin' (hsame.symm.trans hc)
        omega
    · rcases Table.getElem?_set_cases hother' with ⟨rfl, rfl⟩ | ⟨hne', hin'⟩
      · rcases Table.getElem?_append_cases hitem₂ with hfirst₂ | ⟨_, rfl⟩
        · exact h.order y y' other conn hin hconn hsame k k' item₁ item₂ hitem₁ hfirst₂ hbefore
        · exact hold.later y other hin (hsame.trans hc) item₁ (List.mem_of_getElem? hitem₁) item₂
            hfirst
      · exact h.order y y' other other' hin hin' hsame k k' item₁ item₂ hitem₁ hitem₂ hbefore
  case fulfilled =>
    intro r record hrecord hpromise
    obtain ⟨y, other, k, item', hother, hitem', hr, hk⟩ := h.fulfilled r record hrecord hpromise
    by_cases hyx : y = x
    · subst hyx
      obtain rfl := Option.some.inj (hconn.symm.trans hother)
      exact ⟨y, _, k, item', Table.getElem?_set_of_some hconn,
        Table.getElem?_append_of_some hitem', hr, hk⟩
    · exact ⟨y, other, k, item', (Table.getElem?_set_of_ne hyx).trans hother, hitem', hr, hk⟩
  case owner =>
    refine Table.forall_set ?_ ?_
    · intro y other hother
      simpa using h.owner y other hother
    · simpa using h.owner x conn hconn
  case pending => exact h.pending_set hclient rfl
  case line => exact h.line

/-- Reading changes neither the owner of a connection nor what was written to it. -/
theorem read_back {octets : Bytes} {y : Nat} {other : Connection} (hconn : connections[x]? = some conn)
    (hother : (connections.set x { conn with received := conn.received ++ octets })[y]? =
      some other) :
    ∃ old, connections[y]? = some old ∧ old.client = other.client ∧ old.sent = other.sent := by
  rcases Table.getElem?_set_cases hother with ⟨rfl, rfl⟩ | ⟨_, hin⟩
  · exact ⟨conn, hconn, rfl, rfl⟩
  · exact ⟨other, hin, rfl, rfl⟩

/-- What was read on a connection, and nothing else. -/
theorem Wired.ignored (h : Wired s) (octets : Bytes) (hconn : s.connections[x]? = some conn)
    (hstale : ∀ client, s.clients[conn.client]? = some client → client.socket = some x →
      client.failed = true) : Wired (s.read x octets) := by
  rw [read, hconn]
  constructor
  case client =>
    intro c client hclient
    have hold := h.client c client hclient
    by_cases hc : conn.client = c
    · refine { hold with socket := ?_, latest := ?_, settled := ?_, later := ?_ }
      · intro y hy
        by_cases hyx : y = x
        · subst hyx
          have hfailed : client.failed = true := by
            subst hc
            exact hstale client hclient hy
          exact ⟨_, Table.getElem?_set_of_some hconn, hc,
            fun hf => absurd (hfailed.symm.trans hf) (by simp)⟩
        · obtain ⟨other, hother, hrest⟩ := hold.socket y hy
          exact ⟨other, (Table.getElem?_set_of_ne hyx).trans hother, hrest⟩
      · intro y hy z other hother hcz
        obtain ⟨old, hin, hsame, _⟩ := read_back hconn hother
        exact hold.latest y hy z old hin (hsame.trans hcz)
      · intro hf y other hother hcy k item hitem hgot
        rcases Table.getElem?_set_cases hother with ⟨rfl, rfl⟩ | ⟨_, hin⟩
        · refine hold.settled hf y conn hconn hcy k item hitem (fun hy => ?_)
          subst hc
          exact absurd ((hstale client hclient hy).symm.trans hf) (by simp)
        · exact hold.settled hf y other hin hcy k item hitem hgot
      · intro y other hother hcy
        obtain ⟨old, hin, hsame, hsent⟩ := read_back hconn hother
        rw [← hsent]
        exact hold.later y old hin (hsame.trans hcy)
    · exact hold.of_connections (same_of_set hconn rfl hc)
  case item =>
    exact Table.forall_set h.item (h.item x conn hconn)
  case order =>
    intro y y' other other' hother hother' hsame
    obtain ⟨old, hin, hc, hsent⟩ := read_back hconn hother
    obtain ⟨old', hin', hc', hsent'⟩ := read_back hconn hother'
    rw [← hsent, ← hsent']
    exact h.order y y' old old' hin hin' (hc.trans (hsame.trans hc'.symm))
  case fulfilled =>
    intro r record hrecord hpromise
    obtain ⟨y, other, k, item, hother, hitem, hr, hk⟩ := h.fulfilled r record hrecord hpromise
    by_cases hyx : y = x
    · subst hyx
      obtain rfl := Option.some.inj (hconn.symm.trans hother)
      refine ⟨y, _, k, item, Table.getElem?_set_of_some hconn, hitem, hr, ?_⟩
      rw [List.length_append]
      omega
    · exact ⟨y, other, k, item, (Table.getElem?_set_of_ne hyx).trans hother, hitem, hr, hk⟩
  case owner => exact Table.forall_set h.owner (h.owner x conn hconn)
  case pending => exact h.pending
  case line => exact h.line

/-- The outstanding records are the last ones written to the connection. -/
theorem Tracked.outstanding (h : Tracked records connections c client)
    (hsocket : client.socket = some x) (hconn : connections[x]? = some conn)
    (hfailed : client.failed = false) {i : Nat} (hi : i < client.sent) :
    client.pending[i]? = conn.sent[conn.received.length + i]? := by
  obtain ⟨conn', hconn', _, hopen⟩ := h.socket x hsocket
  obtain rfl := Option.some.inj (hconn.symm.trans hconn')
  rw [← List.getElem?_drop, ← (hopen hfailed).2, List.getElem?_take_of_lt hi]

theorem Tracked.failed_of_mem (h : Tracked records connections c client) {item : SinkItem}
    (hitem : item ∈ client.pending) : client.failed = false := by
  cases hf : client.failed with
  | false => rfl
  | true =>
      rw [h.failed hf] at hitem
      exact absurd hitem (by simp)

/-- The records that leave `pending` first are before those that stay. -/
theorem Tracked.take_lt_drop (h : Tracked records connections c client) {n : Nat}
    {item item' : SinkItem} (hitem : item ∈ client.pending.take n)
    (hitem' : item' ∈ client.pending.drop n) : item.record < item'.record := by
  have hsorted := h.sorted
  rw [← List.take_append_drop n client.pending, List.map_append, List.pairwise_append] at hsorted
  exact hsorted.2.2 _ (List.mem_map_of_mem hitem) _ (List.mem_map_of_mem hitem')

theorem invalid_eq_false {octets : Bytes} (h : invalid client octets = false) :
    octets.length ≤ client.sent := by
  unfold invalid at h
  rw [Bool.or_eq_false_iff, decide_eq_false_iff_not] at h
  omega

/-- An acknowledged item is at the place of its connection that the count of octets gives. -/
theorem Tracked.acknowledged_place (h : Tracked records connections c client)
    (hsocket : client.socket = some x) (hconn : connections[x]? = some conn) {n : Nat}
    (hn : n ≤ client.sent) {item : SinkItem} (hitem : item ∈ client.pending.take n) :
    ∃ k, conn.received.length ≤ k ∧ k < conn.received.length + n ∧ conn.sent[k]? = some item := by
  have hfailed := h.failed_of_mem (List.mem_of_mem_take hitem)
  obtain ⟨i, hi⟩ := List.getElem?_of_mem hitem
  have hlt : i < n := by
    have hlt := Table.lt_of_getElem? hi
    rw [List.length_take] at hlt
    omega
  rw [List.getElem?_take_of_lt hlt] at hi
  have hplace := h.outstanding hsocket hconn hfailed (Nat.lt_of_lt_of_le hlt hn)
  exact ⟨conn.received.length + i, by omega, by omega, hplace.symm.trans hi⟩

theorem Wired.acknowledged (h : Wired s) {octets : Bytes} (hclient : s.clients[c]? = some client)
    (hsocket : client.socket = some x) (hconn : s.connections[x]? = some conn)
    (hvalid : invalid client octets = false) :
    Wired ((s.read x octets).acknowledge c client octets.length) := by
  have hold := h.client c client hclient
  have hn := invalid_eq_false hvalid
  obtain ⟨conn', hconn', hc, hopen⟩ := hold.socket x hsocket
  obtain rfl := Option.some.inj (hconn.symm.trans hconn')
  have hread : s.read x octets = { s with
      connections := s.connections.set x { conn with received := conn.received ++ octets } } := by
    rw [read, hconn]
  rw [hread]
  have hkeep := settle_same (s := s) (client.pending.take octets.length) .fulfilled
  constructor
  case client =>
    refine Table.forall_set_of_ne ?_ ?_
    · intro c' other hne hother
      have hsame : ({ conn with received := conn.received ++ octets } : Connection).client = conn.client :=
        rfl
      have hframe := (h.client c' other hother).of_connections
        (same_of_set hconn hsame (fun heq => hne (heq.symm.trans hc)))
      refine hframe.of_records ?_
      intro r record hrecord
      obtain ⟨record', hrecord', hsame, hpromise⟩ := hkeep r record hrecord
      refine ⟨record', hrecord', hsame, ?_⟩
      rintro ⟨item, hitem, rfl⟩
      exact hpromise (fun item' hitem' =>
        h.disjoint hclient hother hne (List.mem_of_mem_take hitem') hitem)
    · constructor
      case item =>
        intro item hitem
        obtain ⟨record, hrecord, h1, h2, h3⟩ := hold.item item (List.mem_of_mem_drop hitem)
        obtain ⟨record', hrecord', ⟨h1', h2', _⟩, hpromise⟩ := hkeep item.record record hrecord
        refine ⟨record', hrecord', h1'.trans h1, h2'.trans h2, (hpromise ?_).trans h3⟩
        exact fun item' hitem' => Nat.ne_of_lt (hold.take_lt_drop hitem' hitem)
      case sorted => exact hold.sorted.sublist ((List.drop_sublist _ _).map SinkItem.record)
      case sent =>
        have hsent := hold.sent
        simp only [List.length_drop]
        omega
      case bound =>
        have hbound := hold.bound
        simp only [List.length_drop]
        omega
      case socket =>
        intro y hy
        obtain rfl := Option.some.inj (hsocket.symm.trans hy)
        refine ⟨_, Table.getElem?_set_of_some hconn, hc, fun hf => ⟨?_, ?_⟩⟩
        · have hlength := congrArg List.length (hopen hf).2
          have hsent := hold.sent
          have hle := (hopen hf).1
          rw [List.length_take, List.length_drop] at hlength
          simp only [List.length_append]
          omega
        · simp only [List.length_append]
          rw [← List.drop_drop, ← (hopen hf).2, List.drop_take]
      case latest =>
        intro y hy z other hother hcz
        obtain ⟨old, hin, hsame, _⟩ := read_back hconn hother
        exact hold.latest y hy z old hin (hsame.trans hcz)
      case idle => exact hold.idle
      case unconnected =>
        intro hnot
        have hzero := hold.unconnected hnot
        show client.sent - octets.length = 0
        omega
      case failed =>
        intro hf
        simp [hold.failed hf]
      case closed =>
        intro hf
        simp [hold.closed hf]
      case settled =>
        intro hf y other hother hcy k item hitem hgot
        have hsettled : ∀ record, s.records[item.record]? = some record →
            record.promise = .fulfilled → ∃ record',
              (s.settle (client.pending.take octets.length) .fulfilled).records[item.record]? =
                some record' ∧ record'.promise = .fulfilled := by
          intro record hrecord hpromise
          obtain ⟨record', hrecord', ⟨_, _, h3⟩, _⟩ := hkeep item.record record hrecord
          exact ⟨record', hrecord', (h3 (by rw [hpromise]; decide)).trans hpromise⟩
        rcases Table.getElem?_set_cases hother with ⟨rfl, rfl⟩ | ⟨hne, hin⟩
        · have hk := hgot hsocket
          simp only [List.length_append] at hk
          by_cases hbefore : k < conn.received.length
          · obtain ⟨record, hrecord, hpromise⟩ :=
              hold.settled hf y conn hconn hc k item hitem (fun _ => hbefore)
            exact hsettled record hrecord hpromise
          · -- one of the items that are acknowledged now
            have hi : k - conn.received.length < client.sent := by omega
            have hplace := hold.outstanding hsocket hconn hf hi
            rw [Nat.add_sub_cancel' (Nat.le_of_not_lt hbefore), hitem] at hplace
            have hlt : k - conn.received.length < octets.length := by omega
            have hmem : item ∈ client.pending.take octets.length :=
              List.mem_of_getElem? (by rw [List.getElem?_take_of_lt hlt]; exact hplace)
            obtain ⟨record, hrecord, _, _, hpending⟩ := hold.item item (List.mem_of_mem_take hmem)
            exact ⟨_, settle_of_mem .fulfilled hmem hrecord hpending, rfl⟩
        · obtain ⟨record, hrecord, hpromise⟩ :=
            hold.settled hf y other hin hcy k item hitem hgot
          exact hsettled record hrecord hpromise
      case later =>
        intro y other hother hcy item hitem item' hitem'
        obtain ⟨old, hin, hsame, hsent⟩ := read_back hconn hother
        rw [← hsent] at hitem
        refine hold.later y old hin (hsame.trans hcy) item hitem item' ?_
        have hdrop : (client.pending.drop octets.length).drop (client.sent - octets.length) =
            client.pending.drop client.sent := by
          rw [List.drop_drop, Nat.add_sub_cancel' hn]
        rw [← hdrop]
        exact hitem'
  case item =>
    refine Table.forall_set ?_ ?_
    · intro y other hother item hitem
      obtain ⟨record, hrecord, h1, h2⟩ := h.item y other hother item hitem
      obtain ⟨record', hrecord', ⟨h1', h2', _⟩, _⟩ := hkeep item.record record hrecord
      exact ⟨record', hrecord', h1'.trans h1, h2'.trans h2⟩
    · intro item hitem
      obtain ⟨record, hrecord, h1, h2⟩ := h.item x conn hconn item hitem
      obtain ⟨record', hrecord', ⟨h1', h2', _⟩, _⟩ := hkeep item.record record hrecord
      exact ⟨record', hrecord', h1'.trans h1, h2'.trans h2⟩
  case order =>
    intro y y' other other' hother hother' hsame
    obtain ⟨old, hin, hcy, hsent⟩ := read_back hconn hother
    obtain ⟨old', hin', hcy', hsent'⟩ := read_back hconn hother'
    rw [← hsent, ← hsent']
    exact h.order y y' old old' hin hin' (hcy.trans (hsame.trans hcy'.symm))
  case fulfilled =>
    intro r record' hrecord' hpromise
    obtain ⟨record, hrecord, _, rfl | ⟨_, _, item, hitem, rfl⟩⟩ := settle_cases hrecord'
    · obtain ⟨y, other, k, item, hother, hitem, hr, hk⟩ := h.fulfilled r record' hrecord hpromise
      by_cases hyx : y = x
      · subst hyx
        obtain rfl := Option.some.inj (hconn.symm.trans hother)
        refine ⟨y, _, k, item, Table.getElem?_set_of_some hconn, hitem, hr, ?_⟩
        simp only [List.length_append]
        omega
      · exact ⟨y, other, k, item, (Table.getElem?_set_of_ne hyx).trans hother, hitem, hr, hk⟩
    · obtain ⟨k, _, hk, hplace⟩ := hold.acknowledged_place hsocket hconn hn hitem
      refine ⟨x, _, k, item, Table.getElem?_set_of_some hconn, hplace, rfl, ?_⟩
      simpa only [List.length_append] using hk
  case owner =>
    have hlength : ∀ client' : SocketAuditSink, (s.clients.set c client').length =
        s.clients.length := fun _ => List.length_set
    refine Table.forall_set ?_ ?_
    · intro y other hother
      exact Nat.lt_of_lt_of_eq (h.owner y other hother) (hlength _).symm
    · exact Nat.lt_of_lt_of_eq (h.owner x conn hconn) (hlength _).symm
  case pending =>
    intro r record' hrecord' hpromise
    obtain ⟨record, hrecord, _, rfl | ⟨_, hother, _⟩⟩ := settle_cases hrecord'
    · obtain ⟨other, hother, item, hitem, rfl⟩ := h.pending r record' hrecord hpromise
      by_cases hcr : record'.client = c
      · rw [hcr, hclient] at hother
        obtain rfl := Option.some.inj hother
        refine ⟨_, by rw [hcr]; exact Table.getElem?_set_of_some hclient, item, ?_, rfl⟩
        -- a record that is still pending is not among those that were acknowledged
        rw [← List.take_append_drop octets.length client.pending] at hitem
        rcases List.mem_append.mp hitem with hin | hin
        · have hset := settle_of_mem .fulfilled hin hrecord hpromise
          obtain heq := Option.some.inj (hset.symm.trans hrecord')
          rw [← heq] at hpromise
          exact absurd hpromise (by simp)
        · exact hin
      · exact ⟨other, (Table.getElem?_set_of_ne hcr).trans hother, item, hitem, rfl⟩
    · exact absurd (hother.symm.trans hpromise) (by decide)
  case line =>
    intro r record' hrecord'
    obtain ⟨record, hrecord, ⟨_, h2, _⟩, _⟩ := settle_cases hrecord'
    rw [h2]
    exact h.line r record hrecord

theorem Wired.called (h : Wired s) (event : Json) (hclient : s.clients[c]? = some client)
    (hrefuses : refuses client event.line = false) : Wired (s.call c client event.line) := by
  have henqueued := h.enqueued event hclient hrefuses
  unfold call
  split
  · next hnone =>
      exact henqueued.opened (Table.getElem?_set_of_some hclient)
        (Option.isNone_iff_eq_none.mp hnone)
  · exact henqueued

/-! ## Every reachable state -/

theorem Wired.move (h : Wired s) (hmove : Move s s') : Wired s' := by
  cases hmove with
  | created => exact h.created
  | refused c client event _ _ => exact h.refused event
  | called c client event hclient hrefuses => exact h.called event hclient hrefuses
  | wrote c client x item conn returned hclient hsocket hconnected hitem hconn =>
      exact h.wrote hclient hsocket hconnected hitem hconn
  | flagged c client client' hclient hpending hsent hsocket hfailed hconnected hlinked _ hclosing =>
      exact h.flagged hclient hpending hsent hsocket hfailed hconnected hlinked hclosing
  | failed c client client' hclient hpending hsent hsocket hfailed _ =>
      exact h.failed hclient hpending hsent hsocket hfailed
  | detached c client hclient hpending => exact h.detached hclient hpending
  | ignored x octets conn hconn hstale => exact h.ignored octets hconn hstale
  | acknowledged c client x conn octets hclient hsocket hconn hvalid =>
      exact h.acknowledged hclient hsocket hconn hvalid

theorem wired_of_reachable (h : machine.Reachable s) : Wired s :=
  invariant_of_moves wired_init (fun _ _ hs hmove => hs.move hmove) h

/-- What is written to a connection are whole lines. -/
theorem Wired.isLine_sent (h : Wired s) (hconn : s.connections[x]? = some conn) :
    ∀ line ∈ conn.sent.map SinkItem.line, Lines.IsLine line := by
  intro line hline
  obtain ⟨item, hitem, rfl⟩ := List.mem_map.mp hline
  obtain ⟨record, hrecord, _, hsame⟩ := h.item x conn hconn item hitem
  rw [← hsame]
  exact h.line _ record hrecord

end Sinks

end SecureMcp
