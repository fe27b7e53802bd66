import SecureMcp.Collector.Wiring

set_option autoImplicit false

/-! # The client's side of the acknowledgement protocol

What a sink guarantees whatever its connections do: how many records are outstanding, in which order
lines are written, which record an acknowledgement resolves, and what a wrong acknowledgement, a
timeout or a disconnect does. -/

namespace SecureMcp

namespace Sinks

variable {s s' s'' : Sinks} {c x : Nat} {client client' : SocketAuditSink} {conn conn' : Connection}

/-! ## Writes and promises -/

/-- The line of record `r` is the `k`-th that was written to connection `x`. -/
def WrittenAt (s : Sinks) (r x k : Nat) : Prop :=
  ∃ conn item, s.connections[x]? = some conn ∧ conn.sent[k]? = some item ∧ item.record = r

/-- The client to which record `r` was handed. -/
def clientOf (s : Sinks) (r : Nat) : Option Nat := (s.records[r]?).map SinkRecord.client

/-- The promise that was returned for record `r`. -/
def promiseOf (s : Sinks) (r : Nat) : Option Settlement := (s.records[r]?).map SinkRecord.promise

theorem promiseOf_of_some {r : Nat} {record : SinkRecord} (h : s.records[r]? = some record) :
    s.promiseOf r = some record.promise := by rw [promiseOf, h]; rfl

theorem promiseOf_eq_some {r : Nat} {promise : Settlement} (h : s.promiseOf r = some promise) :
    ∃ record, s.records[r]? = some record ∧ record.promise = promise :=
  Option.map_eq_some_iff.mp h

/-- Every written line is that of a record of the connection's client. -/
theorem Wired.writtenAt (h : Wired s) {r k : Nat} (hwritten : WrittenAt s r x k) :
    ∃ conn item record, s.connections[x]? = some conn ∧ conn.sent[k]? = some item ∧
      item.record = r ∧ s.records[r]? = some record ∧ record.client = conn.client ∧
      record.line = item.line := by
  obtain ⟨conn, item, hconn, hitem, rfl⟩ := hwritten
  obtain ⟨record, hrecord, hclient, hline⟩ := h.item x conn hconn item (List.mem_of_getElem? hitem)
  exact ⟨conn, item, record, hconn, hitem, rfl, hrecord, hclient, hline⟩

/-- The lines of one client are in the order in which it accepted the records, also those of one call
    of `flush`. -/
theorem Wired.written_order (h : Wired s) {r k r' x' k' : Nat} (hwritten : WrittenAt s r x k)
    (hwritten' : WrittenAt s r' x' k') (hsame : s.clientOf r = s.clientOf r')
    (hbefore : x < x' ∨ (x = x' ∧ k < k')) : r < r' := by
  obtain ⟨conn, item, record, hconn, hitem, rfl, hrecord, hclient, _⟩ := h.writtenAt hwritten
  obtain ⟨conn', item', record', hconn', hitem', rfl, hrecord', hclient', _⟩ := h.writtenAt hwritten'
  rw [clientOf, clientOf, hrecord, hrecord', Option.map_some, Option.map_some, hclient,
    hclient'] at hsame
  exact h.order x x' conn conn' hconn hconn' (Option.some.inj hsame) k k' item item' hitem hitem'
    hbefore

/-- A record's line has one place. -/
theorem Wired.written_once (h : Wired s) {r k x' k' : Nat} (hwritten : WrittenAt s r x k)
    (hwritten' : WrittenAt s r x' k') : x = x' ∧ k = k' := by
  by_contra hne
  have hcases : (x < x' ∨ (x = x' ∧ k < k')) ∨ (x' < x ∨ (x' = x ∧ k' < k)) := by
    rcases Nat.lt_trichotomy x x' with hlt | heq | hgt
    · exact Or.inl (Or.inl hlt)
    · rcases Nat.lt_trichotomy k k' with hlt | heqk | hgt
      · exact Or.inl (Or.inr ⟨heq, hlt⟩)
      · exact absurd ⟨heq, heqk⟩ hne
      · exact Or.inr (Or.inr ⟨heq.symm, hgt⟩)
    · exact Or.inr (Or.inl hgt)
  rcases hcases with hbefore | hafter
  · exact absurd (h.written_order hwritten hwritten' rfl hbefore) (Nat.lt_irrefl r)
  · exact absurd (h.written_order hwritten' hwritten rfl hafter) (Nat.lt_irrefl r)

/-- A fulfilled promise is of a line whose acknowledgement has been read. -/
theorem Wired.fulfilled_place (h : Wired s) {r : Nat} (hpromise : s.promiseOf r = some .fulfilled) :
    ∃ x k conn, s.connections[x]? = some conn ∧ WrittenAt s r x k ∧ k < conn.received.length := by
  obtain ⟨record, hrecord, hful⟩ := promiseOf_eq_some hpromise
  obtain ⟨x, conn, k, item, hconn, hitem, hr, hk⟩ := h.fulfilled r record hrecord hful
  exact ⟨x, k, conn, hconn, ⟨conn, item, hconn, hitem, hr⟩, hk⟩

/-- As long as a client has not failed, the `k`-th octet it has read on a connection resolved the
    `k`-th record written there, and no other octet did. -/
theorem Wired.resolved_iff (h : Wired s) (hclient : s.clients[c]? = some client)
    (hfailed : client.failed = false) (hconn : s.connections[x]? = some conn)
    (hc : conn.client = c) {r k : Nat} (hwritten : WrittenAt s r x k) :
    s.promiseOf r = some .fulfilled ↔ k < conn.received.length := by
  have hold := h.client c client hclient
  constructor
  · intro hpromise
    obtain ⟨x', k', conn', hconn', hwritten', hk'⟩ := h.fulfilled_place hpromise
    obtain ⟨rfl, rfl⟩ := h.written_once hwritten hwritten'
    obtain rfl := Option.some.inj (hconn.symm.trans hconn')
    exact hk'
  · intro hk
    obtain ⟨conn', item, hconn', hitem, rfl⟩ := hwritten
    obtain rfl := Option.some.inj (hconn.symm.trans hconn')
    obtain ⟨record, hrecord, hpromise⟩ :=
      hold.settled hfailed x conn hconn hc k item hitem (fun _ => hk)
    rw [promiseOf_of_some hrecord, hpromise]

/-! ## What moves keep -/

theorem write_connections (hconn : s.connections[x]? = some conn) (client : SocketAuditSink)
    (item : SinkItem) (returned : Bool) :
    (s.write c client x item returned).connections =
      s.connections.set x { conn with sent := conn.sent ++ [item] } := by
  rw [write, hconn]

theorem write_records (client : SocketAuditSink) (item : SinkItem) (returned : Bool) :
    (s.write c client x item returned).records = s.records := by
  unfold write
  split <;> rfl

theorem call_clients (client : SocketAuditSink) (line : Bytes) :
    (s.call c client line).clients = s.clients.set c
      { client with
        pending := client.pending ++ [⟨s.records.length, line⟩]
        socket := if client.socket.isNone then some s.connections.length else client.socket } := by
  unfold call
  split
  · show (s.clients.set c _).set c _ = _
    rw [List.set_set]
    rfl
  · rfl

theorem call_connection (hconn : s.connections[x]? = some conn) {line : Bytes} :
    (s.call c client line).connections[x]? = some conn := by
  unfold call
  split
  · exact Table.getElem?_append_of_some hconn
  · exact hconn

/-- A record keeps its client and its line, and a settled promise. -/
theorem Move.records (hmove : Move s s') {r : Nat} {record : SinkRecord}
    (hrecord : s.records[r]? = some record) :
    ∃ record', s'.records[r]? = some record' ∧ SameRecord record record' := by
  have hsame : ∃ record', s.records[r]? = some record' ∧ SameRecord record record' :=
    ⟨record, hrecord, SameRecord.refl record⟩
  have happend : ∀ extra : SinkRecord, ∃ record', (s.records ++ [extra])[r]? = some record' ∧
      SameRecord record record' :=
    fun extra => ⟨record, Table.getElem?_append_of_some hrecord, SameRecord.refl record⟩
  cases hmove with
  | refused c client event => exact happend _
  | called c client event =>
      unfold call
      split <;> exact happend _
  | wrote c client y item conn returned =>
      rw [write_records]
      exact hsame
  | failed c client client' =>
      obtain ⟨record', hrecord', hkept, _⟩ := settle_same client.pending .rejected r record hrecord
      exact ⟨record', hrecord', hkept⟩
  | ignored y octets conn =>
      rw [read_records]
      exact hsame
  | acknowledged c client y conn octets =>
      rw [← read_records s y octets] at hrecord
      obtain ⟨record', hrecord', hkept, _⟩ := settle_same (client.pending.take octets.length)
        .fulfilled r record hrecord
      exact ⟨record', hrecord', hkept⟩
  | created | flagged | detached => exact hsame

/-- A connection stays with its client, and both of its histories only grow. -/
theorem Move.connection (hmove : Move s s') (hconn : s.connections[x]? = some conn) :
    ∃ conn', s'.connections[x]? = some conn' ∧ conn'.client = conn.client ∧
      conn.sent <+: conn'.sent ∧ conn.received <+: conn'.received := by
  have hsame : ∃ conn', s.connections[x]? = some conn' ∧ conn'.client = conn.client ∧
      conn.sent <+: conn'.sent ∧ conn.received <+: conn'.received :=
    ⟨conn, hconn, rfl, List.prefix_rfl, List.prefix_rfl⟩
  have hset : ∀ (y : Nat) (old new : Connection), s.connections[y]? = some old →
      new.client = old.client → old.sent <+: new.sent → old.received <+: new.received →
      ∃ conn', (s.connections.set y new)[x]? = some conn' ∧ conn'.client = conn.client ∧
        conn.sent <+: conn'.sent ∧ conn.received <+: conn'.received := by
    intro y old new hold hclient hsent hreceived
    by_cases hxy : x = y
    · subst hxy
      obtain rfl := Option.some.inj (hconn.symm.trans hold)
      exact ⟨new, Table.getElem?_set_of_some hold, hclient, hsent, hreceived⟩
    · rw [Table.getElem?_set_of_ne hxy]
      exact hsame
  cases hmove with
  | called c client event =>
      exact ⟨conn, call_connection hconn, rfl, List.prefix_rfl, List.prefix_rfl⟩
  | wrote c client y item old returned _ _ _ _ hold =>
      rw [write_connections hold]
      exact hset y old _ hold rfl (List.prefix_append _ _) List.prefix_rfl
  | ignored y octets old hold =>
      rw [read_connections octets hold]
      exact hset y old _ hold rfl List.prefix_rfl (List.prefix_append _ _)
  | acknowledged c client y old octets _ _ hold =>
      show ∃ conn', (s.read y octets).connections[x]? = some conn' ∧ _
      rw [read_connections octets hold]
      exact hset y old _ hold rfl List.prefix_rfl (List.prefix_append _ _)
  | created | refused | flagged | failed | detached => exact hsame

/-- A client that has failed or was closed stays so. -/
theorem Move.flags (hmove : Move s s') (hclient : s.clients[c]? = some client) :
    ∃ client', s'.clients[c]? = some client' ∧ (client.failed = true → client'.failed = true) ∧
      (client.closed = true → client'.closed = true) := by
  have hset : ∀ (d : Nat) (old new : SocketAuditSink), s.clients[d]? = some old →
      (old.failed = true → new.failed = true) → (old.closed = true → new.closed = true) →
      ∃ client', (s.clients.set d new)[c]? = some client' ∧
        (client.failed = true → client'.failed = true) ∧
        (client.closed = true → client'.closed = true) := by
    intro d old new hold hfailed hclosed
    by_cases hcd : c = d
    · subst hcd
      obtain rfl := Option.some.inj (hclient.symm.trans hold)
      exact ⟨new, Table.getElem?_set_of_some hold, hfailed, hclosed⟩
    · exact ⟨client, (Table.getElem?_set_of_ne hcd).trans hclient, id, id⟩
  cases hmove with
  | created => exact ⟨client, Table.getElem?_append_of_some hclient, id, id⟩
  | refused => exact ⟨client, hclient, id, id⟩
  | called d old event hold =>
      rw [call_clients]
      exact hset d old _ hold id id
  | wrote d old y item conn returned hold _ _ _ hconn =>
      rw [write, hconn]
      exact hset d old _ hold id id
  | flagged d old new hold _ _ _ hfailed _ _ hclosed _ =>
      exact hset d old new hold (fun hf => hfailed.trans hf) hclosed
  | failed d old new hold _ _ _ hfailed hclosed => exact hset d old new hold (fun _ => hfailed) hclosed
  | detached d old hold => exact hset d old _ hold id id
  | ignored y octets conn =>
      rw [read_clients]
      exact ⟨client, hclient, id, id⟩
  | acknowledged d old y conn octets hold =>
      show ∃ client', ((s.read y octets).clients.set d _)[c]? = some client' ∧ _
      rw [read_clients]
      exact hset d old _ hold id id

/-! ## Over a run -/

/-- What holds in a reachable state and is kept by every move from a wired state holds later. -/
theorem leads_of_moves {I : Sinks → Prop} (h : machine.Reachable s) (hlead : machine.Leads s s')
    (hs : I s) (hmove : ∀ t t', Wired t → I t → Move t t' → I t') : I s' := by
  have key : Wired s' ∧ I s' := by
    refine hlead.invariant (I := fun t => Wired t ∧ I t) ⟨wired_of_reachable h, hs⟩ ?_
    intro t l t' ht hstep
    refine (step_moves hstep).invariant (I := fun t => Wired t ∧ I t) ht ?_
    intro a b hab hm
    exact ⟨hab.1.move hm, hmove a b hab.1 hab.2 hm⟩
  exact key.2

theorem WrittenAt.move {r k : Nat} (h : WrittenAt s r x k) (hmove : Move s s') :
    WrittenAt s' r x k := by
  obtain ⟨conn, item, hconn, hitem, hr⟩ := h
  obtain ⟨conn', hconn', _, ⟨more, hsent⟩, _⟩ := hmove.connection hconn
  refine ⟨conn', item, hconn', ?_, hr⟩
  rw [← hsent, List.getElem?_append_left (Table.lt_of_getElem? hitem)]
  exact hitem

theorem flush_records (c room : Nat) (s : Sinks) : (flush c room s).records = s.records := by
  induction room generalizing s with
  | zero =>
      rw [flush]
      split
      · rfl
      · split
        · rfl
        · exact write_records _ _ _
  | succ room ih =>
      rw [flush]
      split
      · rfl
      · split
        · rfl
        · rw [ih, write_records]

/-- A client without a socket has nothing pending. -/
def Idle (s : Sinks) : Prop :=
  ∀ (c : Nat) client, s.clients[c]? = some client → client.socket = none → client.pending = []

theorem Idle.move (h : Idle s) (hmove : Move s s') : Idle s' := by
  have hset : ∀ (d : Nat) (new : SocketAuditSink), (new.socket = none → new.pending = []) →
      ∀ (c : Nat) client, (s.clients.set d new)[c]? = some client → client.socket = none →
        client.pending = [] :=
    fun d new hnew => Table.forall_set h hnew
  cases hmove with
  | created => exact Table.forall_append h (fun _ => rfl)
  | refused => exact h
  | called d old event hold =>
      intro c client hclient
      rw [call_clients] at hclient
      refine hset d _ (fun hnone => ?_) c client hclient
      replace hnone : (if old.socket.isNone then some s.connections.length else old.socket) = none :=
        hnone
      split at hnone
      · exact absurd hnone (by simp)
      · next hsome => exact absurd (Option.isNone_iff_eq_none.mpr hnone) hsome
  | wrote d old y item conn returned hold hsocket hconnected hitem hconn =>
      rw [write, hconn]
      refine hset d _ (fun hnone => ?_)
      exact absurd (hsocket.symm.trans hnone) (by simp)
  | flagged d old new hold hpending _ hsocket =>
      refine hset d new (fun hnone => ?_)
      rw [hpending]
      exact h d old hold (hsocket.symm.trans hnone)
  | failed d old new hold hpending => exact hset d new (fun _ => hpending)
  | detached d old hold hpending => exact hset d _ (fun _ => hpending)
  | ignored y octets conn =>
      intro c client hclient
      rw [read_clients] at hclient
      exact h c client hclient
  | acknowledged d old y conn octets hold hsocket =>
      intro c client hclient
      replace hclient : ((s.read y octets).clients.set d _)[c]? = some client := hclient
      rw [read_clients] at hclient
      refine hset d _ (fun hnone => ?_) c client hclient
      exact absurd (hsocket.symm.trans hnone) (by simp)

theorem idle_of_reachable (h : machine.Reachable s) : Idle s :=
  invariant_of_moves (by intro c client hclient; exact absurd hclient (by simp [machine]))
    (fun _ _ hs hmove => hs.move hmove) h

/-- Record `r` was the first to be written to connection `x`, or it will be. -/
def First (s : Sinks) (c r x : Nat) : Prop :=
  ∃ client, s.clients[c]? = some client ∧ (client.failed = false →
    WrittenAt s r x 0 ∨ (client.socket = some x ∧ client.sent = 0 ∧
      (∃ item, client.pending[0]? = some item ∧ item.record = r) ∧
      ∃ conn, s.connections[x]? = some conn ∧ conn.sent = []))

theorem First.move {r : Nat} (h : First s c r x) (hwired : Wired s) (hmove : Move s s') :
    First s' c r x := by
  obtain ⟨client, hclient, hfirst⟩ := h
  -- the client and the connection are as they were
  have hsame : ∀ (client' : SocketAuditSink), s'.clients[c]? = some client' →
      client'.failed = client.failed → client'.socket = client.socket →
      client'.sent = client.sent →
      (∀ item, client.pending[0]? = some item → client'.pending[0]? = some item) →
      (∀ conn, s.connections[x]? = some conn → conn.sent = [] →
        ∃ conn', s'.connections[x]? = some conn' ∧ conn'.sent = []) → First s' c r x := by
    intro client' hclient' hfailed hsocket hsent hpending hconn
    refine ⟨client', hclient', fun hf => ?_⟩
    rcases hfirst (hfailed ▸ hf) with hwritten | ⟨h1, h2, ⟨item, hitem, hr⟩, conn, h3, h4⟩
    · exact Or.inl (hwritten.move hmove)
    · exact Or.inr ⟨hsocket.trans h1, hsent.trans h2, ⟨item, hpending item hitem, hr⟩,
        hconn conn h3 h4⟩
  have hid : ∀ conn, s.connections[x]? = some conn → conn.sent = [] →
      ∃ conn', s.connections[x]? = some conn' ∧ conn'.sent = [] :=
    fun conn hconn hnil => ⟨conn, hconn, hnil⟩
  have hread : ∀ (y : Nat) (octets : Bytes) (old : Connection), s.connections[y]? = some old →
      ∀ conn, s.connections[x]? = some conn → conn.sent = [] →
      ∃ conn', (s.read y octets).connections[x]? = some conn' ∧ conn'.sent = [] := by
    intro y octets old hold conn hconn hnil
    rw [read_connections octets hold]
    by_cases hxy : x = y
    · subst hxy
      obtain rfl := Option.some.inj (hconn.symm.trans hold)
      exact ⟨_, Table.getElem?_set_of_some hold, hnil⟩
    · exact ⟨conn, (Table.getElem?_set_of_ne hxy).trans hconn, hnil⟩
  cases hmove with
  | created => exact hsame client (Table.getElem?_append_of_some hclient) rfl rfl rfl (fun _ => id) hid
  | refused => exact hsame client hclient rfl rfl rfl (fun _ => id) hid
  | called d old event hold hrefuses =>
      by_cases hcd : c = d
      · subst hcd
        obtain rfl := Option.some.inj (hclient.symm.trans hold)
        refine ⟨_, by rw [call_clients]; exact Table.getElem?_set_of_some hclient, fun hf => ?_⟩
        rcases hfirst hf with hwritten | ⟨h1, h2, ⟨item, h3, hr⟩, conn, h4, h5⟩
        · exact Or.inl (hwritten.move (.called c client event hclient hrefuses))
        · refine Or.inr ⟨?_, h2, ⟨item, Table.getElem?_append_of_some h3, hr⟩, conn,
            call_connection h4, h5⟩
          show (if client.socket.isNone then _ else client.socket) = some x
          rw [h1]
          rfl
      · refine hsame client ?_ rfl rfl rfl (fun _ => id)
          (fun conn hconn hnil => ⟨conn, call_connection hconn, hnil⟩)
        rw [call_clients]
        exact (Table.getElem?_set_of_ne hcd).trans hclient
  | wrote d old y item conn returned hold hsocket hconnected hitem hconn =>
      by_cases hcd : c = d
      · subst hcd
        obtain rfl := Option.some.inj (hclient.symm.trans hold)
        refine ⟨_, by rw [write, hconn]; exact Table.getElem?_set_of_some hclient, fun hf => ?_⟩
        rcases hfirst hf with hwritten | ⟨h1, h2, ⟨first, h3, hr⟩, conn', h4, h5⟩
        · exact Or.inl (hwritten.move
            (.wrote c client y item conn returned hclient hsocket hconnected hitem hconn))
        · -- nothing was sent yet, so the item that is written is the oldest pending one
          obtain rfl := Option.some.inj (hsocket.symm.trans h1)
          obtain rfl := Option.some.inj (hconn.symm.trans h4)
          rw [h2] at hitem
          obtain rfl := Option.some.inj (hitem.symm.trans h3)
          refine Or.inl ⟨{ conn with sent := conn.sent ++ [item] }, item, ?_, ?_, hr⟩
          · rw [write_connections hconn]
            exact Table.getElem?_set_of_some hconn
          · simp [h5]
      · obtain ⟨own, hown, howner, _⟩ := (hwired.client d old hold).socket y hsocket
        refine ⟨client, by
          rw [write, hconn]
          exact (Table.getElem?_set_of_ne hcd).trans hclient, fun hf => ?_⟩
        rcases hfirst hf with hwritten | ⟨h1, h2, h3, conn', h4, h5⟩
        · exact Or.inl (hwritten.move
            (.wrote d old y item conn returned hold hsocket hconnected hitem hconn))
        · refine Or.inr ⟨h1, h2, h3, conn', ?_, h5⟩
          rw [write_connections hconn]
          refine (Table.getElem?_set_of_ne (fun hxy => hcd ?_)).trans h4
          obtain ⟨mine, hmine, hmineOwner, _⟩ := (hwired.client c client hclient).socket x h1
          rw [hxy, hown] at hmine
          obtain rfl := Option.some.inj hmine
          exact hmineOwner.symm.trans howner
  | flagged d old new hold hpending hsent hsocket hfailed =>
      by_cases hcd : c = d
      · subst hcd
        obtain rfl := Option.some.inj (hclient.symm.trans hold)
        exact hsame new (Table.getElem?_set_of_some hclient) hfailed hsocket hsent
          (fun item h0 => by rw [hpending]; exact h0) hid
      · exact hsame client ((Table.getElem?_set_of_ne hcd).trans hclient) rfl rfl rfl
          (fun _ => id) hid
  | failed d old new hold _ _ _ hfailed =>
      by_cases hcd : c = d
      · subst hcd
        exact ⟨new, Table.getElem?_set_of_some hold, fun hf => absurd (hfailed.symm.trans hf) (by simp)⟩
      · exact hsame client ((Table.getElem?_set_of_ne hcd).trans hclient) rfl rfl rfl
          (fun _ => id) hid
  | detached d old hold hpending =>
      by_cases hcd : c = d
      · subst hcd
        obtain rfl := Option.some.inj (hclient.symm.trans hold)
        refine ⟨_, Table.getElem?_set_of_some hclient, fun hf => ?_⟩
        rcases hfirst hf with hwritten | ⟨_, _, ⟨item, h3, _⟩, _⟩
        · exact Or.inl (hwritten.move (.detached c client hclient hpending))
        · rw [hpending] at h3
          exact absurd h3 (by simp)
      · exact hsame client ((Table.getElem?_set_of_ne hcd).trans hclient) rfl rfl rfl
          (fun _ => id) hid
  | ignored y octets conn hconn =>
      exact hsame client (by rw [read_clients]; exact hclient) rfl rfl rfl (fun _ => id)
        (hread y octets conn hconn)
  | acknowledged d old y conn octets hold hsocket hconn hvalid =>
      have hconnections := hread y octets conn hconn
      by_cases hcd : c = d
      · subst hcd
        obtain rfl := Option.some.inj (hclient.symm.trans hold)
        have hread' : (s.read y octets).clients[c]? = some client := by
          rw [read_clients]
          exact hclient
        refine ⟨_, Table.getElem?_set_of_some hread', fun hf => ?_⟩
        rcases hfirst hf with hwritten | ⟨h1, h2, ⟨item, h3, hr⟩, conn', h4, h5⟩
        · exact Or.inl (hwritten.move
            (.acknowledged c client y conn octets hclient hsocket hconn hvalid))
        · have hnone : octets.length = 0 := by
            have hn := invalid_eq_false hvalid
            omega
          refine Or.inr ⟨h1, ?_, ⟨item, ?_, hr⟩, hconnections conn' h4 h5⟩
          · show client.sent - octets.length = 0
            omega
          · rw [hnone]
            exact h3
      · refine hsame client ?_ rfl rfl rfl (fun _ => id) hconnections
        show ((s.read y octets).clients.set d _)[c]? = some client
        rw [read_clients]
        exact (Table.getElem?_set_of_ne hcd).trans hclient

theorem First.of_leads {r : Nat} (h : machine.Reachable s) (hlead : machine.Leads s s')
    (hfirst : First s c r x) : First s' c r x :=
  leads_of_moves (I := fun t => First t c r x) h hlead hfirst
    (fun _ _ ht hI hmove => hI.move ht hmove)

/-- The loop of `flush` writes the first record that was not sent. -/
theorem flush_writes (client : SocketAuditSink) {room : Nat} {item : SinkItem} (hclient : s.clients[c]? = some client)
    (hwrite : toWrite client = some (x, item)) (hconn : s.connections[x]? = some conn) :
    WrittenAt (flush c room s) item.record x conn.sent.length := by
  have hwritten : ∀ returned, WrittenAt (s.write c client x item returned) item.record x
      conn.sent.length := by
    intro returned
    refine ⟨{ conn with sent := conn.sent ++ [item] }, item, ?_, List.getElem?_concat_length, rfl⟩
    rw [write_connections hconn]
    exact Table.getElem?_set_of_some hconn
  cases room with
  | zero =>
      rw [flush, hclient]
      dsimp only
      rw [hwrite]
      exact hwritten false
  | succ room =>
      rw [flush, hclient]
      dsimp only
      rw [hwrite]
      exact (flush_moves c room _).invariant
        (I := fun t => WrittenAt t item.record x conn.sent.length) (hwritten true)
        (fun _ _ hI hmove => hI.move hmove)

/-- Connecting writes the record that a connection was opened for. -/
theorem First.connect {r room : Nat} (h : First s c r x) (hclient : s.clients[c]? = some client)
    (hfailed : client.failed = false) (hwired : Wired s)
    (hstep : s.step (.connect x room) = some s') : WrittenAt s' r x 0 := by
  obtain ⟨own, hown, hfirst⟩ := h
  obtain rfl := Option.some.inj (hclient.symm.trans hown)
  replace hstep : s.connect x room = some s' := hstep
  rcases hfirst hfailed with hwritten | ⟨hsocket, hsent, ⟨item, hitem, rfl⟩, conn, hconn, hnil⟩
  · exact (connect_moves hstep).invariant (I := fun t => WrittenAt t r x 0) hwritten
      (fun _ _ hI hmove => hI.move hmove)
  · obtain ⟨conn', hconn', hc, _⟩ := (hwired.client c client hclient).socket x hsocket
    obtain ⟨conn'', other, hconn'', hother, hcases⟩ := onSocket_cases hstep
    obtain rfl := Option.some.inj (hconn'.symm.trans hconn'')
    rw [hc, hclient] at hother
    obtain rfl := Option.some.inj hother
    rcases hcases with ⟨_, rfl⟩ | ⟨hne, _⟩
    · rw [hc]
      have hlength : conn.sent.length = 0 := by rw [hnil]; rfl
      rw [← hlength]
      refine flush_writes { client with connected := true, writable := true }
        (Table.getElem?_set_of_some hclient) ?_ hconn
      rw [toWrite, hsocket]
      dsimp only
      rw [hsent, hitem]
      rfl
    · exact absurd hsocket hne

end Sinks

end SecureMcp
