import SecureMcp.Collector.Faultless

set_option autoImplicit false

/-! # No record is stuck

Nothing lost is not yet everything acknowledged: the two ends could wait for each other. They never do.
From every state that a run without a fault reaches, the run can go on without a fault and without
new records until every record is acknowledged (`all_acknowledged`). This says that no state is a dead
end, not that a timer could not expire on the way.

Some step always brings the records nearer to their end. The kinds of work are ordered: an
acknowledgement comes first, then a line that is written, a connection that is accepted, an idle one
that makes room for it, octets that are read, and the work of the collector on what it has queued. -/

namespace SecureMcp

/-! ## The collector's own work -/

/-- How far a loop is from its end. -/
def FlushLoop.remaining : FlushLoop → Nat
  | .scheduled => 4
  | .writing batch written => if written = (dataOf batch).length then 2 else 3
  | .syncing _ => 1

namespace Collector

variable {setup : JournalSetup} {k k' : Collector}

def work (k : Collector) : Nat := 4 * k.queue.length + (k.loops.map FlushLoop.remaining).sum

/-- The sockets have read what they had read, and as many are open. -/
structure SameReading (k k' : Collector) : Prop where
  received : (k'.sockets.map (fun socket => socket.received.length)).sum =
    (k.sockets.map (fun socket => socket.received.length)).sum
  opened : k'.sockets.countP (fun socket => !socket.destroyed) =
    k.sockets.countP (fun socket => !socket.destroyed)

theorem SameReading.of_sockets (h : k'.sockets = k.sockets) : SameReading k k' := by
  constructor <;> rw [h]

theorem SameReading.of_answers {batch : List QueuedFrame}
    (h : k'.sockets = k.sockets.mapIdx (answer batch [])) : SameReading k k' := by
  have hsame : ∀ y socket, (answer batch [] y socket).received = socket.received ∧
      (answer batch [] y socket).destroyed = socket.destroyed := by
    intro y socket
    obtain ⟨hreceived, _, _, hdestroyed | ⟨_, hno⟩⟩ := answer_stream batch [] y socket
    · exact ⟨hreceived, hdestroyed⟩
    · exact absurd hno (by simp)
  constructor
  case received =>
    rw [h]
    congr 1
    refine List.ext_getElem? (fun y => ?_)
    rw [List.getElem?_map, List.getElem?_mapIdx, List.getElem?_map]
    cases k.sockets[y]? with
    | none => rfl
    | some socket => exact congrArg (fun octets => some (List.length octets)) (hsame y socket).1
  case opened =>
    rw [h]
    exact Table.countP_mapIdx (fun y socket => by rw [(hsame y socket).2])

/-- From the condition of the loop of `flush`, with `spent` of it left behind. -/
theorem next_work {spent : Nat} {loop : FlushLoop} (hloops : k.loops = [loop]) (hspent : 0 < spent)
    (hhealthy : k.healthy = true)
    (hfits : k.bytes + (dataOf (k.queue.take 64)).length ≤ setup.maxBytes) :
    (k.next setup 0).work < 4 * k.queue.length + spent ∧ (k.next setup 0).sockets = k.sockets := by
  unfold next
  split
  · next hempty =>
      have hnil : k.queue = [] := List.isEmpty_iff.mp hempty
      refine ⟨?_, rfl⟩
      show 4 * k.queue.length + ((k.loops.eraseIdx 0).map FlushLoop.remaining).sum < _
      rw [hnil, hloops]
      simpa using hspent
  · next hsome =>
      split
      · next hbad =>
          rw [hhealthy, Bool.not_true, Bool.false_or, decide_eq_true_eq] at hbad
          omega
      · refine ⟨?_, rfl⟩
        show 4 * (k.queue.drop 64).length +
          ((k.loops.set 0 (.writing (k.queue.take 64) 0)).map FlushLoop.remaining).sum < _
        have hpos : 0 < k.queue.length := by
          rw [List.length_pos_iff]
          exact fun hnil => hsome (List.isEmpty_iff.mpr hnil)
        have hremaining : (FlushLoop.writing (k.queue.take 64) 0).remaining ≤ 3 := by
          show (if 0 = (dataOf (k.queue.take 64)).length then 2 else 3) ≤ 3
          split <;> omega
        rw [hloops, List.set_cons_zero, List.length_drop, List.map_singleton, List.sum_singleton]
        omega

/-- A collector with a loop has work to do, and the next step of the loop, without a failure, leaves
    less of it. -/
theorem work_step (hreach : (machine setup).Reachable k) (hhealthy : k.healthy = true)
    (hloops : k.loops ≠ [])
    (hfits : k.bytes + (dataOf k.batch).length + (dataOf (k.queue.take 64)).length ≤
      setup.maxBytes) :
    ∃ l k', k.step setup l = some k' ∧ SameReading k k' ∧ k'.work < k.work ∧
      CollectorNetwork.isOwn l = true ∧ ∀ s : CollectorNetwork, s.roomy setup = true →
        s.collectorFaultless setup l = true := by
  have hbooks := books_of_reachable hreach
  obtain ⟨loop, hone⟩ : ∃ loop, k.loops = [loop] := by
    rcases hbooks.loops with ⟨_, hnil⟩ | ⟨_, loop, hone⟩
    · exact absurd hnil hloops
    · exact ⟨loop, hone⟩
  have hget : k.loops[0]? = some loop := by rw [hone]; rfl
  have hwork : k.work = 4 * k.queue.length + loop.remaining := by
    rw [work, hone, List.map_singleton, List.sum_singleton]
  have hset : ∀ next : FlushLoop, k.loops.set 0 next = [next] := fun next => by rw [hone]; rfl
  cases loop with
  | scheduled =>
      have hnext : k.bytes + (dataOf (k.queue.take 64)).length ≤ setup.maxBytes := by omega
      obtain ⟨hless, hsockets⟩ := next_work hone (show 0 < 4 by omega) hhealthy hnext
      refine ⟨.run 0, k.next setup 0, ?_, .of_sockets hsockets, by rw [hwork]; exact hless, rfl,
        fun s hroom => hroom⟩
      show k.run setup 0 = _
      rw [run, hget]
  | writing batch written =>
      have hle := (hbooks.working hhealthy).inProgress
      rw [inProgress_of hone, batch_of hone] at hle
      by_cases hall : written = (dataOf batch).length
      · refine ⟨.appended 0 true, { k with loops := k.loops.set 0 (.syncing batch) }, ?_,
          .of_sockets rfl, ?_, rfl, fun s _ => rfl⟩
        · show k.appended 0 true = _
          rw [appended, hget]
          show (if true = true then (if written = (dataOf batch).length then _ else none) else _) = _
          rw [if_pos rfl, if_pos hall]
        · show 4 * k.queue.length + ((k.loops.set 0 (.syncing batch)).map FlushLoop.remaining).sum < _
          rw [hwork, hset, List.map_singleton, List.sum_singleton, FlushLoop.remaining,
            FlushLoop.remaining, if_pos hall]
          omega
      · refine ⟨.append 0 ((dataOf batch).length - written), { k with
          journal := k.journal ++ ((dataOf batch).drop written).take ((dataOf batch).length - written)
          loops := k.loops.set 0 (.writing batch (written + ((dataOf batch).length - written))) },
          ?_, .of_sockets rfl, ?_, rfl, fun s _ => rfl⟩
        · show k.append 0 _ = _
          rw [append, hget]
          show (if (dataOf batch).length < written + ((dataOf batch).length - written) then none
            else _) = _
          rw [if_neg]
          have hle' : written ≤ (dataOf batch).length := hle
          omega
        · show 4 * k.queue.length + ((k.loops.set 0 _).map FlushLoop.remaining).sum < _
          have hle' : written ≤ (dataOf batch).length := hle
          rw [hwork, hset, List.map_singleton, List.sum_singleton, FlushLoop.remaining,
            FlushLoop.remaining, if_neg hall, if_pos (by omega)]
          omega
  | syncing batch =>
      rw [batch_of hone] at hfits
      have hfits' : (k.settled batch []).bytes +
          (dataOf ((k.settled batch []).queue.take 64)).length ≤ setup.maxBytes := hfits
      obtain ⟨hless, hsockets⟩ := next_work (k := k.settled batch []) hone
        (show 0 < 1 by omega) hhealthy hfits'
      refine ⟨.synchronized 0 true [], (k.settled batch []).next setup 0, ?_, .of_answers hsockets,
        by rw [hwork]; exact hless, rfl, fun s hroom => ?_⟩
      · show k.synchronized setup 0 true [] = _
        rw [synchronized, hget]
        rfl
      · simp [CollectorNetwork.collectorFaultless, hroom]

end Collector

/-! ## The work of the sinks -/

namespace Sinks

variable {s s' : Sinks} {c x : Nat} {client : SocketAuditSink} {conn : Connection}

/-- How many pending records are not written. -/
def unwritten (s : Sinks) : Nat :=
  (s.clients.map (fun client => client.pending.length - client.sent)).sum

theorem flush_of_none (hclient : s.clients[c]? = some client) (hnone : toWrite client = none)
    (room : Nat) : flush c room s = s := by
  cases room with
  | zero => rw [flush, hclient]; simp only [hnone]
  | succ room => rw [flush, hclient]; simp only [hnone]

theorem set_same (hclient : s.clients[c]? = some client) : s.clients.set c client = s.clients := by
  obtain ⟨hlt, rfl⟩ := List.getElem?_eq_some_iff.mp hclient
  exact List.set_getElem_self hlt

/-- Where the socket takes every line, all pending records are written. -/
theorem flush_all {room : Nat} (hclient : s.clients[c]? = some client)
    (hsocket : client.socket = some x) (hconnected : client.connected = true)
    (hwritable : client.writable = true) (hconn : s.connections[x]? = some conn)
    (hroom : client.pending.length - client.sent ≤ room) :
    ∃ client', (flush c room s).clients = s.clients.set c client' ∧
      client'.pending = client.pending ∧ client.pending.length ≤ client'.sent := by
  have hwrite : toWrite client = (client.pending[client.sent]?).map (fun item => (x, item)) := by
    rw [toWrite, hsocket, hconnected, hwritable]
    rfl
  induction room generalizing s client conn with
  | zero =>
      have hnone : client.pending[client.sent]? = none :=
        List.getElem?_eq_none_iff.mpr (by omega)
      rw [hnone] at hwrite
      rw [flush_of_none hclient hwrite]
      exact ⟨client, (set_same hclient).symm, rfl, by omega⟩
  | succ room ih =>
      cases hitem : client.pending[client.sent]? with
      | none =>
          rw [hitem] at hwrite
          rw [flush_of_none hclient hwrite]
          exact ⟨client, (set_same hclient).symm, rfl,
            List.getElem?_eq_none_iff.mp hitem⟩
      | some item =>
          rw [hitem] at hwrite
          have hflush : flush c (room + 1) s = flush c room (s.write c client x item true) := by
            rw [flush, hclient]
            simp only [hwrite, Option.map_some]
          have hclients : (s.write c client x item true).clients =
              s.clients.set c { client with sent := client.sent + 1, writable := true } := by
            rw [write, hconn]
          have hconns : (s.write c client x item true).connections[x]? =
              some { conn with sent := conn.sent ++ [item] } := by
            rw [write_connections hconn]
            exact Table.getElem?_set_of_some hconn
          have hnext : (s.write c client x item true).clients[c]? =
              some { client with sent := client.sent + 1, writable := true } := by
            rw [hclients]
            exact Table.getElem?_set_of_some hclient
          obtain ⟨client', hset, hpending, hsent⟩ := ih hnext hsocket hconnected rfl hconns
            (by show client.pending.length - (client.sent + 1) ≤ room; omega)
            (by rw [toWrite, show SocketAuditSink.socket _ = some x from hsocket]
                simp only [hconnected, Bool.and_self, if_true])
          refine ⟨client', ?_, hpending, hsent⟩
          rw [hflush, hset, hclients, List.set_set]

theorem flush_load (c room : Nat) (s : Sinks) : (flush c room s).load = s.load := by
  have hwrite : ∀ (s : Sinks) client x item returned, s.clients[c]? = some client →
      (s.write c client x item returned).load = s.load := by
    intro s client x item returned hclient
    cases hconn : s.connections[x]? with
    | none => rw [write, hconn]
    | some conn =>
        have hsum := Tally.sum_set (fun client : SocketAuditSink => client.pending.length)
          { client with sent := client.sent + 1, writable := returned } hclient
        rw [load, write, hconn]
        exact Nat.add_right_cancel hsum
  induction room generalizing s with
  | zero =>
      rw [flush]
      split
      · rfl
      · next client hclient =>
          split
          · rfl
          · exact hwrite s client _ _ _ hclient
  | succ room ih =>
      rw [flush]
      split
      · rfl
      · next client hclient =>
          split
          · rfl
          · rw [ih, hwrite s client _ _ _ hclient]

/-- A client with something to write writes it when its socket connects, or drains. -/
theorem write_step (h : Wired s) (hclient : s.clients[c]? = some client)
    (hsocket : client.socket = some x) (hmore : client.sent < client.pending.length) :
    ∃ l s', s.step l = some s' ∧ s'.load = s.load ∧ s'.unwritten < s.unwritten ∧
      ∃ room, l = .connect x room ∨ l = .drain x room := by
  obtain ⟨conn, hconn, hown, _⟩ := (h.client c client hclient).socket x hsocket
  subst hown
  -- both events make the socket writable, and then everything is written
  have hboth : ∀ ready : SocketAuditSink, ready.pending = client.pending → ready.sent = client.sent →
      ready.socket = some x → ready.connected = true → ready.writable = true →
      (flush conn.client client.pending.length (s.put conn.client ready)).load = s.load ∧
      (flush conn.client client.pending.length (s.put conn.client ready)).unwritten < s.unwritten := by
    intro ready hpending hsent hready hconnected hwritable
    have hput : (s.put conn.client ready).clients[conn.client]? = some ready :=
      Table.getElem?_set_of_some hclient
    have hroom : ready.pending.length - ready.sent ≤ client.pending.length := by
      rw [hpending]
      omega
    obtain ⟨client', hclients, hpending', hsent'⟩ := flush_all (s := s.put conn.client ready)
      hput hready hconnected hwritable hconn hroom
    have hfinal : (flush conn.client client.pending.length (s.put conn.client ready)).clients =
        s.clients.set conn.client client' := by
      rw [hclients]
      exact List.set_set _
    have hload := Tally.sum_set (fun client : SocketAuditSink => client.pending.length) client' hclient
    have hsum := Tally.sum_set
      (fun client : SocketAuditSink => client.pending.length - client.sent) client' hclient
    rw [hpending] at hpending' hsent'
    simp only [hpending'] at hload hsum
    rw [load, unwritten, hfinal]
    refine ⟨Nat.add_right_cancel hload, ?_⟩
    show _ < (s.clients.map _).sum
    omega
  cases hconnected : client.connected with
  | false =>
      obtain ⟨hload, hless⟩ := hboth { client with connected := true, writable := true } rfl rfl
        hsocket rfl rfl
      refine ⟨.connect x client.pending.length, _, ?_, hload, hless, _, Or.inl rfl⟩
      show s.connect x _ = _
      rw [connect, onSocket, hconn]
      simp only [hclient, if_pos hsocket]
  | true =>
      obtain ⟨hload, hless⟩ := hboth { client with writable := true } rfl rfl hsocket hconnected rfl
      refine ⟨.drain x client.pending.length, _, ?_, hload, hless, _, Or.inr rfl⟩
      show s.drain x _ = _
      rw [drain, onSocket, hconn]
      simp only [hclient, if_pos hsocket]

/-- Octets that acknowledge something leave less to wait for. -/
theorem data_load {octets : Bytes} {room : Nat} (hclient : s.clients[conn.client]? = some client)
    (hconn : s.connections[x]? = some conn) (hsocket : client.socket = some x)
    (hvalid : invalid client octets = false) (hsent : client.sent ≤ client.pending.length)
    (hpos : 0 < octets.length) :
    ∃ s', s.data x octets room = some s' ∧ s'.load < s.load := by
  refine ⟨flush conn.client room
    ((s.read x octets).acknowledge conn.client client octets.length), ?_, ?_⟩
  · rw [data, onSocket, read_connection octets hconn, read_clients]
    simp only [hclient, if_pos hsocket, hvalid, Bool.false_eq_true, if_false]
  · have hread : (s.read x octets).clients[conn.client]? = some client := by
      rw [read_clients]
      exact hclient
    have hsum := Tally.sum_set (fun client : SocketAuditSink => client.pending.length)
      { client with
        pending := client.pending.drop octets.length
        sent := client.sent - octets.length } hread
    rw [flush_load]
    have hload : ((s.read x octets).acknowledge conn.client client octets.length).load +
        client.pending.length = s.load + (client.pending.drop octets.length).length := by
      rw [load, load, ← read_clients s x octets]
      exact hsum
    rw [invalid, Bool.or_eq_false_iff, decide_eq_false_iff_not] at hvalid
    have hle := Nat.le_of_not_lt hvalid.1
    rw [List.length_drop] at hload
    omega

end Sinks

/-! ## The measure -/

namespace Sinks

variable {s s' s'' : Sinks}

theorem Settles.trans (h : Settles s s') (h' : Settles s' s'') : Settles s s'' := by
  refine ⟨h'.length.trans h.length, fun r record hrecord => ?_⟩
  obtain ⟨record', hrecord', hclient, hline, hpromise⟩ := h.same r record hrecord
  obtain ⟨record'', hrecord'', hclient', hline', hpromise'⟩ := h'.same r record' hrecord'
  refine ⟨record'', hrecord'', hclient'.trans hclient, hline'.trans hline, fun hsettled => ?_⟩
  rw [hpromise' (by rw [hpromise hsettled]; exact hsettled), hpromise hsettled]

theorem Settles.octets (h : Settles s s') : s'.octets = s.octets := by
  rw [Sinks.octets, Sinks.octets]
  congr 1
  refine List.ext_getElem? (fun r => ?_)
  rw [List.getElem?_map, List.getElem?_map]
  cases hrecord : s.records[r]? with
  | none =>
      have hle := List.getElem?_eq_none_iff.mp hrecord
      rw [List.getElem?_eq_none_iff.mpr (by rw [h.length]; exact hle)]
  | some record =>
      obtain ⟨record', hrecord', _, hline, _⟩ := h.same r record hrecord
      rw [hrecord', Option.map_some, Option.map_some, hline]

end Sinks

namespace CollectorNetwork

variable {setup : JournalSetup} {s s' s₀ : CollectorNetwork} {c x y : Nat}
variable {client : SocketAuditSink} {conn : Connection} {socket : CollectorSocket}

/-- The octets that were written and not read. -/
def onTheWay (s : CollectorNetwork) : Nat :=
  (s.sinks.connections.map (fun conn => conn.stream.length)).sum -
    (s.collector.sockets.map (fun socket => socket.received.length)).sum

/-- How many sockets the collector has open. -/
def openCount (s : CollectorNetwork) : Nat :=
  s.collector.sockets.countP (fun socket => !socket.destroyed)

/-- What is left to do, the kinds of work that may make others first. -/
def measure (s : CollectorNetwork) : ℕ ×ₗ ℕ ×ₗ ℕ ×ₗ ℕ ×ₗ ℕ ×ₗ ℕ :=
  toLex (s.sinks.load, toLex (s.sinks.unwritten,
    toLex (s.sinks.connections.length - s.links.length, toLex (s.openCount,
      toLex (s.onTheWay, s.collector.work)))))

theorem Parts.received_le (h : Parts setup s) :
    (s.collector.sockets.map (fun socket => socket.received.length)).sum ≤
      (s.sinks.connections.map (fun conn => conn.stream.length)).sum := by
  have hcover : ∀ y < s.collector.sockets.length, ∃ x conn socket, s.links[y]? = some x ∧
      s.sinks.connections[x]? = some conn ∧ s.collector.sockets[y]? = some socket ∧
      socket.received.length ≤ conn.stream.length := by
    intro y hy
    have hsocket := List.getElem?_eq_getElem hy
    have hy' := hy
    rw [← h.linked.sockets] at hy'
    obtain ⟨conn, hconn, hread, _⟩ :=
      h.linked.streams y _ _ (List.getElem?_eq_getElem hy') hsocket
    exact ⟨_, conn, _, List.getElem?_eq_getElem hy', hconn, hsocket, hread.length_le⟩
  choose! owner conn socket hlink hconn hsocket hle using hcover
  rw [← Tally.sum_places, ← Tally.sum_places]
  refine Tally.sum_le_of_owner _ _ owner (fun y hy _ => ?_) (fun y hy y' hy' _ _ hsame => ?_)
  · refine ⟨Table.lt_of_getElem? (hconn y hy), ?_⟩
    rw [hsocket y hy, hconn y hy]
    exact hle y hy
  · have hlink' := hlink y' hy'
    rw [← hsame] at hlink'
    exact h.linked.link_inj (hlink y hy) hlink'

/-- A connection that is not accepted is one of those that are not. -/
theorem Parts.links_lt (h : Parts setup s) (hx : x < s.sinks.connections.length)
    (hlinks : x ∉ s.links) : s.links.length < s.sinks.connections.length := by
  have hnodup : (x :: s.links).Nodup := List.nodup_cons.mpr ⟨hlinks, h.linked.nodup⟩
  have hsubset : x :: s.links ⊆ List.range s.sinks.connections.length := by
    intro z hz
    rw [List.mem_range]
    rcases List.mem_cons.mp hz with rfl | hin
    · exact hx
    · obtain ⟨y, hy, hget⟩ := List.getElem_of_mem hin
      have hlink : s.links[y]? = some z := by rw [List.getElem?_eq_getElem hy, hget]
      rw [h.linked.sockets] at hy
      obtain ⟨conn, hconn, _⟩ := h.linked.streams y z _ hlink (List.getElem?_eq_getElem hy)
      exact Table.lt_of_getElem? hconn
  have hle := (hnodup.subperm hsubset).length_le
  rw [List.length_range, List.length_cons] at hle
  omega

/-! ## Every kind of step -/

/-- What the run keeps while it goes on from `s₀`. -/
structure Going (setup : JournalSetup) (s₀ s : CollectorNetwork) : Prop where
  reachable : (machine setup).Reachable s
  lossless : Lossless s
  light : s.sinks.load ≤ 1024
  roomy : s.roomy setup = true
  kept : Sinks.Settles s₀.sinks s.sinks

/-- A step that is no fault and no call, and leaves less to do. -/
def Advances (setup : JournalSetup) (s : CollectorNetwork) : Prop :=
  ∃ l s', s.faultless setup l = true ∧ l.sends = none ∧ s.step setup l = some s' ∧
    s'.sinks.load ≤ s.sinks.load ∧ s'.measure < s.measure

theorem Going.step {l : Label} (h : Going setup s₀ s) (hfaultless : s.faultless setup l = true)
    (hsends : l.sends = none) (hstep : s.step setup l = some s')
    (hload : s'.sinks.load ≤ s.sinks.load) : Going setup s₀ s' := by
  have hsettles := step_settles hstep hsends
  refine ⟨h.reachable.snoc hstep, h.lossless.step (parts_of_reachable h.reachable) hfaultless hstep,
    Nat.le_trans hload h.light, ?_, h.kept.trans hsettles⟩
  have hroomy := h.roomy
  rw [CollectorNetwork.roomy, decide_eq_true_eq] at hroomy ⊢
  rw [hsettles.octets]
  exact hroomy

/-- A line is written. -/
theorem Going.write (h : Going setup s₀ s) (hclient : s.sinks.clients[c]? = some client)
    (hmore : client.sent < client.pending.length) : Advances setup s := by
  have hparts := parts_of_reachable h.reachable
  cases hsocket : client.socket with
  | none =>
      have hnil := Sinks.idle_of_reachable hparts.sinks c client hclient hsocket
      rw [hnil] at hmore
      exact absurd hmore (Nat.not_lt_zero _)
  | some x =>
      obtain ⟨l, sinks, hstep, hload, hless, room, hl⟩ :=
        Sinks.write_step (Sinks.wired_of_reachable hparts.sinks) hclient hsocket hmore
      refine ⟨.sink l, { s with sinks }, ?_, ?_, ?_, Nat.le_of_eq hload,
        Machine.lex_later hload (Machine.lex_first hless)⟩
      · rcases hl with rfl | rfl <;> rfl
      · rcases hl with rfl | rfl <;> rfl
      · have hread : isRead l = false := by rcases hl with rfl | rfl <;> rfl
        show (if isRead l then none else (s.sinks.step l).map _) = _
        rw [if_neg (by rw [hread]; simp), hstep]
        rfl

/-- A connection is accepted. -/
theorem Going.accept (h : Going setup s₀ s) (hx : x < s.sinks.connections.length)
    (hlinks : x ∉ s.links) (hroom : s.openCount < 64) : Advances setup s := by
  have hlt := (parts_of_reachable h.reachable).links_lt hx hlinks
  refine ⟨.accept x, { s with
    collector := { s.collector with sockets := s.collector.sockets ++ [{}] }
    links := s.links ++ [x] }, rfl, rfl, ?_, Nat.le_refl _,
    Machine.lex_later rfl (Machine.lex_later rfl (Machine.lex_first ?_))⟩
  · show s.accept x = _
    have haccept : s.collector.accept =
        some { s.collector with sockets := s.collector.sockets ++ [{}] } := by
      rw [Collector.accept, if_pos]
      rw [Bool.and_eq_true, decide_eq_true_eq, h.lossless.running]
      exact ⟨rfl, hroom⟩
    rw [CollectorNetwork.accept, if_pos ⟨hx, hlinks⟩, haccept]
    rfl
  · show s.sinks.connections.length - (s.links ++ [x]).length < _
    rw [List.length_append, List.length_singleton]
    omega

/-- An idle connection is ended. -/
theorem advances_drop (hsocket : s.collector.sockets[y]? = some socket)
    (hopen : socket.destroyed = false) (hidle : ∀ x, s.links[y]? = some x → s.sinks.busy x = false) :
    Advances setup s := by
  refine ⟨.collector (.drop y), { s with
    collector := s.collector.setSocket y { socket with destroyed := true } }, ?_, rfl, ?_,
    Nat.le_refl _, Machine.lex_later rfl (Machine.lex_later rfl (Machine.lex_later rfl
      (Machine.lex_first ?_)))⟩
  · show (!(s.links[y]?).any s.sinks.busy) = true
    cases hlink : s.links[y]? with
    | none => rfl
    | some x => rw [Option.any_some, hidle x hlink]; rfl
  · show (s.collector.drop y).map _ = _
    rw [Collector.drop, hsocket]
    simp only [hopen, Bool.false_eq_true, if_false, Option.map_some]
  · have hcount := Table.countP_set (a := { socket with destroyed := true })
      (p := fun socket => !socket.destroyed) hsocket
    simp only [hopen, Bool.not_false, if_true, Bool.not_true, Bool.false_eq_true, if_false] at hcount
    show (s.collector.sockets.set y _).countP _ < s.collector.sockets.countP _
    omega

/-- Octets are read. -/
theorem Going.read (h : Going setup s₀ s) (hlink : s.links[y]? = some x)
    (hsocket : s.collector.sockets[y]? = some socket) (hopen : socket.destroyed = false)
    (hconn : s.sinks.connections[x]? = some conn)
    (hmore : socket.received.length < conn.stream.length) : Advances setup s := by
  have hparts := parts_of_reachable h.reachable
  generalize hcount : conn.stream.length - socket.received.length = count
  generalize hchunk : (conn.stream.drop socket.received.length).take count = chunk
  have hlength : chunk.length = count := by
    rw [← hchunk, List.length_take, List.length_drop]
    omega
  have hdata : ∃ collector, s.collector.data y chunk = some collector := by
    rw [Collector.data, hsocket]
    have hsome : chunk.isEmpty = false := by
      cases hnil : chunk with
      | nil => rw [hnil, List.length_nil] at hlength; omega
      | cons => rfl
    simp only [hopen, hsome, Bool.or_false, Bool.false_eq_true, if_false]
    exact ⟨_, rfl⟩
  obtain ⟨collector, hdata⟩ := hdata
  obtain ⟨socket₁, socket', j, hfed⟩ := Collector.data_fed hdata
  obtain rfl := Option.some.inj (hsocket.symm.trans hfed.before)
  have hstep : s.step setup (.deliver y count) = some { s with collector } := by
    show s.deliver y count = _
    unfold deliver
    simp only [hlink, hsocket, hconn, hchunk, hdata, Option.map_some]
    rw [if_neg (by omega)]
  have hkept : socket'.destroyed = false := by
    subst hchunk
    exact hparts.keeps h.lossless.healthy h.lossless.unfailed h.light
      (fun r record hr => (h.lossless.records r record hr).1) hlink hconn hfed
  refine ⟨.deliver y count, { s with collector }, decide_eq_true h.light, rfl, hstep, Nat.le_refl _,
    Machine.lex_later rfl (Machine.lex_later rfl (Machine.lex_later rfl (Machine.lex_later ?_
      (Machine.lex_first ?_))))⟩
  · show collector.sockets.countP _ = s.collector.sockets.countP _
    rw [hfed.sockets]
    exact Table.countP_set_of_eq hsocket (by rw [hkept, hopen])
  · have hbound := (parts_of_reachable (h.reachable.snoc (l := .deliver y count) hstep)).received_le
    have hsum := Tally.sum_set (fun socket : CollectorSocket => socket.received.length) socket' hsocket
    simp only [hfed.received, List.length_append, hlength] at hsum
    replace hbound : (collector.sockets.map (fun socket => socket.received.length)).sum ≤
      (s.sinks.connections.map (fun conn => conn.stream.length)).sum := hbound
    show (s.sinks.connections.map (fun conn => conn.stream.length)).sum -
        (collector.sockets.map (fun socket => socket.received.length)).sum <
      (s.sinks.connections.map (fun conn => conn.stream.length)).sum -
        (s.collector.sockets.map (fun socket => socket.received.length)).sum
    rw [hfed.sockets] at hbound ⊢
    omega

/-- The collector works. -/
theorem Going.work (h : Going setup s₀ s) (hloops : s.collector.loops ≠ []) : Advances setup s := by
  have hparts := parts_of_reachable h.reachable
  obtain ⟨l, collector, hstep, hsame, hless, hown, hfaultless⟩ := Collector.work_step hparts.collector
    h.lossless.healthy hloops (hparts.fits h.lossless.healthy h.roomy)
  refine ⟨.collector l, { s with collector }, hfaultless s h.roomy, rfl, ?_, Nat.le_refl _,
    Machine.lex_later rfl (Machine.lex_later rfl (Machine.lex_later rfl (Machine.lex_later hsame.opened
      (Machine.lex_later ?_ hless))))⟩
  · show (if isOwn l then (s.collector.step setup l).map _ else none) = _
    rw [if_pos hown, hstep]
    rfl
  · rw [onTheWay, onTheWay]
    show _ - (collector.sockets.map (fun socket => socket.received.length)).sum = _
    rw [hsame.received]

/-- Everything that is read is queued from an open socket. -/
theorem Parts.framesOf_read (h : Parts setup s) (hlink : s.links[y]? = some x)
    (hsocket : s.collector.sockets[y]? = some socket) (hopen : socket.destroyed = false)
    (hconn : s.sinks.connections[x]? = some conn)
    (hread : conn.stream.length ≤ socket.received.length) :
    s.collector.framesOf y = conn.sent.map SinkItem.line := by
  obtain ⟨own, hown, hreceived, _⟩ := h.linked.streams y x socket hlink hsocket
  obtain rfl := Option.some.inj (hconn.symm.trans hown)
  obtain ⟨hframes, _⟩ := (Collector.framed_of_reachable h.collector).opened y socket hsocket hopen
  have hcut := Lines.cut_append ((Sinks.wired_of_reachable h.sinks).isLine_sent hconn) []
  rw [List.append_nil, Lines.cut, List.append_nil] at hcut
  rw [hframes, hreceived.eq_of_length_le hread, Connection.stream, List.flatMap, hcut]

/-- An acknowledgement is read. -/
theorem Going.answer (h : Going setup s₀ s) (hclient : s.sinks.clients[c]? = some client)
    (hne : client.pending ≠ []) (hall : client.pending.length ≤ client.sent)
    (hcurrent : client.socket = some x) (hlink : s.links[y]? = some x)
    (hsocket : s.collector.sockets[y]? = some socket) (hopen : socket.destroyed = false)
    (hconn : s.sinks.connections[x]? = some conn)
    (hread : conn.stream.length ≤ socket.received.length) (hloops : s.collector.loops = []) :
    Advances setup s := by
  have hparts := parts_of_reachable h.reachable
  have hwired := Sinks.wired_of_reachable hparts.sinks
  have hbooks := Collector.books_of_reachable hparts.collector
  have hfailed := h.lossless.unfailed c client hclient
  have hsent := (hwired.client c client hclient).sent
  obtain ⟨hown, hout⟩ := hwired.unanswered hclient hfailed hcurrent hconn
  subst hown
  -- a collector that is not at work has synced what it has queued
  have hbatch : s.collector.batch = [] := by rw [Collector.batch, hloops, List.flatMap_nil]
  have hqueue : s.collector.queue = [] := by
    by_contra hsome
    rcases hbooks.loops with ⟨hidle, _⟩ | ⟨_, loop, hone⟩
    · exact absurd (hidle.symm.trans (hbooks.scheduled hsome)) (by simp)
    · exact absurd (hloops.symm.trans hone) (by simp)
  have hsynced := hbooks.framesOf h.lossless.healthy y
  rw [hbatch, hqueue, hparts.framesOf_read hlink hsocket hopen hconn hread] at hsynced
  have hwritten := (Collector.answered_of_reachable hparts.collector).opened y socket hsocket hopen
  have hdurable := congrArg List.length hsynced
  simp only [List.length_map, List.length_append, Collector.dataFrom, List.filter_nil,
    List.map_nil, List.length_nil, Nat.add_zero] at hdurable hwritten
  have hpos := List.length_pos_iff.mpr hne
  generalize hcount : socket.written.length - conn.received.length = count
  generalize hoctets : (socket.written.drop conn.received.length).take count = octets
  have hlength : 0 < octets.length := by
    rw [← hoctets, List.length_take, List.length_drop]
    omega
  have hvalid := hparts.answer_valid hclient hfailed hcurrent hlink hsocket hconn count
  rw [hoctets] at hvalid
  obtain ⟨sinks, hdata, hload⟩ : ∃ sinks, s.sinks.data x octets 0 = some sinks ∧
      sinks.load < s.sinks.load :=
    Sinks.data_load hclient hconn hcurrent hvalid hsent hlength
  refine ⟨.answer y count 0, { s with sinks }, rfl, rfl, ?_, Nat.le_of_lt hload,
    Machine.lex_first hload⟩
  show s.answer y count 0 = _
  unfold CollectorNetwork.answer
  simp only [hlink, hsocket, hconn, hoctets, hdata, Option.map_some]
  rw [if_neg (by omega)]

/-- The records of a client whose connection is accepted are served. -/
theorem Going.serve (h : Going setup s₀ s) (hclient : s.sinks.clients[c]? = some client)
    (hne : client.pending ≠ []) (hall : client.pending.length ≤ client.sent)
    (hcurrent : client.socket = some x) (hlink : s.links[y]? = some x) : Advances setup s := by
  have hparts := parts_of_reachable h.reachable
  obtain ⟨conn, hconn, _⟩ :=
    ((Sinks.wired_of_reachable hparts.sinks).client c client hclient).socket x hcurrent
  have hy := Table.lt_of_getElem? hlink
  rw [hparts.linked.sockets] at hy
  have hsocket := List.getElem?_eq_getElem hy
  have hopen := h.lossless.opened c client hclient hne x y _ hcurrent hlink hsocket
  by_cases hread : conn.stream.length ≤ (s.collector.sockets.get ⟨y, hy⟩).received.length
  · by_cases hloops : s.collector.loops = []
    · exact h.answer hclient hne hall hcurrent hlink hsocket hopen hconn hread hloops
    · exact h.work hloops
  · exact h.read hlink hsocket hopen hconn (Nat.lt_of_not_le hread)

/-- A connection of a client that waits is accepted, as soon as an idle one makes room for it. -/
theorem Going.connect (h : Going setup s₀ s) (hx : x < s.sinks.connections.length)
    (hlinks : x ∉ s.links) (hidle : ∀ x' ∈ s.links, s.sinks.busy x' = false) :
    Advances setup s := by
  by_cases hroom : s.openCount < 64
  · exact h.accept hx hlinks hroom
  · have hpos : 0 < s.openCount := by omega
    rw [openCount, List.countP_pos_iff] at hpos
    obtain ⟨socket, hmem, hopen⟩ := hpos
    obtain ⟨y, hsocket⟩ := List.mem_iff_getElem?.mp hmem
    exact advances_drop hsocket (by simpa using hopen)
      (fun x' hlink => hidle x' (List.mem_of_getElem? hlink))

/-- Some step advances until no client waits. -/
theorem Going.advances (h : Going setup s₀ s) :
    (∀ (c : Nat) client, s.sinks.clients[c]? = some client → client.pending = []) ∨
      Advances setup s := by
  by_cases hdone : ∀ (c : Nat) client, s.sinks.clients[c]? = some client → client.pending = []
  · exact Or.inl hdone
  refine Or.inr ?_
  by_cases hwrite : ∃ (c : Nat) (client : SocketAuditSink), s.sinks.clients[c]? = some client ∧
      client.sent < client.pending.length
  · obtain ⟨c, client, hclient, hmore⟩ := hwrite
    exact h.write hclient hmore
  have hall : ∀ (c : Nat) client, s.sinks.clients[c]? = some client →
      client.pending.length ≤ client.sent :=
    fun c client hclient => Nat.le_of_not_lt (fun hmore => hwrite ⟨c, client, hclient, hmore⟩)
  by_cases hbusy : ∃ x ∈ s.links, s.sinks.busy x = true
  · obtain ⟨x, hlinks, hbusy⟩ := hbusy
    obtain ⟨y, hlink⟩ := List.mem_iff_getElem?.mp hlinks
    rw [Sinks.busy, Option.any_eq_true] at hbusy
    obtain ⟨client, huser, hne⟩ := hbusy
    obtain ⟨conn, _, hclient, hcurrent⟩ := Sinks.user_eq_some.mp huser
    exact h.serve hclient (by simpa using hne) (hall _ client hclient) hcurrent hlink
  · have hidle : ∀ x ∈ s.links, s.sinks.busy x = false :=
      fun x hlinks => Bool.eq_false_iff.mpr (fun hx => hbusy ⟨x, hlinks, hx⟩)
    obtain ⟨c, hdone⟩ := not_forall.mp hdone
    obtain ⟨client, hdone⟩ := not_forall.mp hdone
    obtain ⟨hclient, hne⟩ := Classical.not_imp.mp hdone
    have hparts := parts_of_reachable h.reachable
    cases hcurrent : client.socket with
    | none => exact absurd (Sinks.idle_of_reachable hparts.sinks c client hclient hcurrent) hne
    | some x =>
        obtain ⟨conn, hconn, hown, _⟩ :=
          ((Sinks.wired_of_reachable hparts.sinks).client c client hclient).socket x hcurrent
        subst hown
        have hbusy : s.sinks.busy x = true := by
          rw [Sinks.busy, Sinks.user_eq_some.mpr ⟨conn, hconn, hclient, hcurrent⟩]
          simpa using hne
        have hlinks : x ∉ s.links :=
          fun hin => absurd (hbusy.symm.trans (hidle x hin)) (by simp)
        exact h.connect (Table.lt_of_getElem? hconn) hlinks hidle

/-! ## The guarantee -/

/-- A step that is no fault and no call. -/
def settling (setup : JournalSetup) (s : CollectorNetwork) (l : Label) : Bool :=
  s.faultless setup l && l.sends.isNone

/-- From every state of a run in which nothing from outside goes wrong, where the collector can hold
    what the clients wait for and the journal the records, such a run can go on, without a call, until
    every record that there is is acknowledged. -/
theorem all_acknowledged
    (h : (machine setup).ReachableIn (fun s l => s.faultless setup l = true) s)
    (hload : s.sinks.load ≤ 1024) (hroomy : s.roomy setup = true) :
    ∃ s', (machine setup).LeadsIn (fun s l => settling setup s l = true) s s' ∧
      s'.sinks.records.length = s.sinks.records.length ∧
      ∀ (r : Nat) record, s.sinks.records[r]? = some record →
        ∃ record', s'.sinks.records[r]? = some record' ∧ record'.client = record.client ∧
          record'.line = record.line ∧ record'.promise = .fulfilled := by
  have hstart : Going setup s s :=
    ⟨h.reachable, lossless_of_reachableIn h, hload, hroomy, .of_records rfl⟩
  have hstep : ∀ now, Going setup s now → (Going setup s now ∧
      ∀ (c : Nat) client, now.sinks.clients[c]? = some client → client.pending = []) ∨
      ∃ l next, settling setup now l = true ∧ (machine setup).step now l = some next ∧
        Going setup s next ∧ next.measure < now.measure := by
    intro now hnow
    rcases hnow.advances with hdone | ⟨l, next, hfaultless, hsends, hl, hle, hless⟩
    · exact Or.inl ⟨hnow, hdone⟩
    · refine Or.inr ⟨l, next, ?_, hl, hnow.step hfaultless hsends hl hle, hless⟩
      rw [settling, hfaultless, hsends]
      rfl
  obtain ⟨s', hleads, hgoing, hdone⟩ := Machine.leadsIn_of_decreasing measure hstep s hstart
  refine ⟨s', hleads, hgoing.kept.length, fun r record hrecord => ?_⟩
  obtain ⟨record', hrecord', hclient, hline, _⟩ := hgoing.kept.same r record hrecord
  refine ⟨record', hrecord', hclient, hline, ?_⟩
  rcases hgoing.lossless.promises (parts_of_reachable hgoing.reachable) hrecord' with
    hfulfilled | ⟨_, client, hwaits, item, hitem, _⟩
  · exact hfulfilled
  · rw [hdone _ client hwaits] at hitem
    exact absurd hitem List.not_mem_nil

/-- The three records that wait in the run before are acknowledged in the end. -/
theorem all_acknowledged_inEveryPlace : ∃ s s',
    (machine Collector.emptyJournal).execIn (fun s l => s.faultless Collector.emptyJournal l)
      { collector := .start Collector.emptyJournal } inEveryPlace = some s ∧
    s.sinks.records.map SinkRecord.promise = [.fulfilled, .pending, .pending, .pending] ∧
    (machine Collector.emptyJournal).LeadsIn
      (fun s l => settling Collector.emptyJournal s l = true) s s' ∧
    s'.sinks.records.map SinkRecord.promise =
      [.fulfilled, .fulfilled, .fulfilled, .fulfilled] := by
  have hrun : ((machine Collector.emptyJournal).execIn
      (fun s l => s.faultless Collector.emptyJournal l)
      { collector := .start Collector.emptyJournal } inEveryPlace).map
        (fun s => (s.sinks.records.map SinkRecord.promise, decide (s.sinks.load ≤ 1024),
          s.roomy Collector.emptyJournal)) =
      some ([.fulfilled, .pending, .pending, .pending], true, true) := by
    decide +kernel
  obtain ⟨s, hexec, hfacts⟩ := Option.map_eq_some_iff.mp hrun
  simp only [Prod.mk.injEq, decide_eq_true_eq] at hfacts
  obtain ⟨hpromises, hload, hroomy⟩ := hfacts
  obtain ⟨s', hleads, hlength, hall⟩ :=
    all_acknowledged (Machine.leadsIn_of_execIn hexec) hload hroomy
  refine ⟨s, s', hexec, hpromises, hleads, ?_⟩
  have hfour : s.sinks.records.length = 4 := by
    rw [← List.length_map (f := SinkRecord.promise), hpromises]
    rfl
  have hfulfilled : s'.sinks.records.map SinkRecord.promise = List.replicate 4 .fulfilled := by
    rw [List.eq_replicate_iff, List.length_map, hlength]
    refine ⟨hfour, fun promise hpromise => ?_⟩
    obtain ⟨record', hmem, rfl⟩ := List.mem_map.mp hpromise
    obtain ⟨r, hr⟩ := List.mem_iff_getElem?.mp hmem
    have hlt := Table.lt_of_getElem? hr
    rw [hlength] at hlt
    obtain ⟨record'', hrecord'', _, _, hpromise''⟩ := hall r _ (List.getElem?_eq_getElem hlt)
    rw [Option.some.inj (hr.symm.trans hrecord'')]
    exact hpromise''
  exact hfulfilled

end CollectorNetwork

end SecureMcp
