import SecureMcp.Collector.Acknowledging
import SecureMcp.Collector.Delivery
import SecureMcp.Collector.Flushing
import SecureMcp.Lib.Tally

set_option autoImplicit false

/-! # Where the records on a connection are

A record that a client has written and that is not acknowledged is somewhere between the two ends of
its connection: in the octets that the collector has not read, in its queue, in the batch that is being
appended and synced, or it is synced and its acknowledgement is on the way. `Parts.placed` says that
the pending records of a client are exactly these, in this order, and then the ones it has not written.

On the way back nothing is lost either: an open socket has been given one ACK for each frame of its
own that was synced (`Answered`). -/

namespace SecureMcp

namespace Collector

variable {setup : JournalSetup} {k k' k'' : Collector} {y i : Nat}

/-- Those of the frames that came from this socket. -/
def dataFrom (y : Nat) (frames : List QueuedFrame) : List Bytes :=
  (frames.filter (fun entry => entry.socket == y)).map QueuedFrame.data

theorem dataFrom_append (y : Nat) (a b : List QueuedFrame) :
    dataFrom y (a ++ b) = dataFrom y a ++ dataFrom y b := by
  rw [dataFrom, List.filter_append, List.map_append]
  rfl

theorem length_dataFrom (y : Nat) (frames : List QueuedFrame) :
    (dataFrom y frames).length = frames.countP (fun entry => entry.socket == y) := by
  rw [dataFrom, List.length_map, List.countP_eq_length_filter]

/-- What was queued is synced, in the batch or still in the queue. -/
theorem Books.framesOf (h : Books setup k) (hhealthy : k.healthy = true) (y : Nat) :
    k.framesOf y = dataFrom y k.durable ++ (dataFrom y k.batch ++ dataFrom y k.queue) := by
  have hworking := h.working hhealthy
  show dataFrom y k.accepted = _
  rw [hworking.accepted, hworking.handed, List.append_assoc, dataFrom_append, dataFrom_append]

/-! ## Acknowledgements that were written -/

/-- Sockets may be destroyed, but nothing is synced, and nothing is written to a socket. -/
structure Silent (k k' : Collector) : Prop where
  durable : k'.durable = k.durable
  length : k'.sockets.length = k.sockets.length
  socket : ∀ (y : Nat) socket', k'.sockets[y]? = some socket' →
    ∃ socket, k.sockets[y]? = some socket ∧ socket'.written = socket.written ∧
      (socket'.destroyed = false → socket.destroyed = false)

theorem Silent.of_sockets (hdurable : k'.durable = k.durable) (hsockets : k'.sockets = k.sockets) :
    Silent k k' := by
  refine ⟨hdurable, by rw [hsockets], fun y socket' hsocket' => ?_⟩
  rw [hsockets] at hsocket'
  exact ⟨socket', hsocket', rfl, id⟩

theorem Silent.destroyed (hdurable : k'.durable = k.durable)
    (hsockets : k'.sockets = k.sockets.map (fun socket => { socket with destroyed := true })) :
    Silent k k' := by
  refine ⟨hdurable, by rw [hsockets, List.length_map], fun y socket' hsocket' => ?_⟩
  rw [hsockets, List.getElem?_map] at hsocket'
  obtain ⟨socket, hsocket, rfl⟩ := Option.map_eq_some_iff.mp hsocket'
  exact ⟨socket, hsocket, rfl, fun hopen => absurd hopen (by simp)⟩

theorem Silent.set {socket socket' : CollectorSocket} (hdurable : k'.durable = k.durable)
    (hsockets : k'.sockets = k.sockets.set y socket') (hsocket : k.sockets[y]? = some socket)
    (hwritten : socket'.written = socket.written) (hopen : socket.destroyed = false) :
    Silent k k' := by
  refine ⟨hdurable, by rw [hsockets, List.length_set], fun z other hother => ?_⟩
  rw [hsockets] at hother
  rcases Table.getElem?_set_cases hother with ⟨rfl, rfl⟩ | ⟨_, hin⟩
  · exact ⟨socket, hsocket, hwritten, fun _ => hopen⟩
  · exact ⟨other, hin, rfl, id⟩

theorem offer_durable (k : Collector) (y : Nat) (frames : List Bytes) :
    (k.offer y frames).1.durable = k.durable := by
  fun_induction offer y k frames with
  | case1 | case2 | case3 => rfl
  | case4 k frame later _ _ ih => rw [ih, (push_rest k y frame).2.2.2.2.1]

theorem data_silent {chunk : Bytes} (h : k.data y chunk = some k') : Silent k k' := by
  have hdurable : k'.durable = k.durable := by
    unfold data at h
    split at h
    · exact absurd h (by simp)
    · split at h
      · exact absurd h (by simp)
      · obtain rfl := Option.some.inj h
        unfold handle
        split
        · rfl
        · split
          · exact offer_durable k y _
          · exact offer_durable k y _
  obtain ⟨socket, socket', j, hfed⟩ := data_fed h
  exact .set hdurable hfed.sockets hfed.before hfed.written hfed.opened

theorem next_silent (setup : JournalSetup) (k : Collector) (i : Nat) :
    Silent k (k.next setup i) := by
  unfold next
  split
  · exact .of_sockets rfl rfl
  · split
    · exact .destroyed rfl rfl
    · exact .of_sockets rfl rfl

/-- Every step is silent, but for accepting and for a sync. -/
theorem step_silent {l : Label} (h : k.step setup l = some k') (haccept : l ≠ .accept)
    (hsync : ∀ i ok full, l ≠ .synchronized i ok full) : Silent k k' := by
  cases l with
  | accept => exact absurd rfl haccept
  | data y chunk => exact data_silent h
  | drop y =>
      replace h : k.drop y = some k' := h
      unfold drop at h
      split at h
      · exact absurd h (by simp)
      · next socket hsocket =>
          split at h
          · exact absurd h (by simp)
          · next hopen =>
              obtain rfl := Option.some.inj h
              exact .set rfl rfl hsocket rfl (by simpa using hopen)
  | run i =>
      replace h : k.run setup i = some k' := h
      unfold run at h
      split at h
      · obtain rfl := Option.some.inj h
        exact next_silent setup k i
      · exact absurd h (by simp)
  | append i count =>
      replace h : k.append i count = some k' := h
      unfold append at h
      split at h
      · split at h
        · exact absurd h (by simp)
        · obtain rfl := Option.some.inj h
          exact .of_sockets rfl rfl
      · exact absurd h (by simp)
  | appended i ok =>
      replace h : k.appended i ok = some k' := h
      unfold appended at h
      split at h
      · split at h
        · split at h
          · obtain rfl := Option.some.inj h
            exact .of_sockets rfl rfl
          · exact absurd h (by simp)
        · obtain rfl := Option.some.inj h
          exact .destroyed rfl rfl
      · exact absurd h (by simp)
  | synchronized i ok full => exact absurd rfl (hsync i ok full)
  | stop =>
      obtain rfl := Option.some.inj h
      exact .destroyed rfl rfl

/-- What the sockets were given: ACKs, and to an open one as many as it has frames synced. -/
structure Answered (k : Collector) : Prop where
  known : ∀ entry ∈ k.durable, entry.socket < k.sockets.length
  acks : ∀ (y : Nat) socket, k.sockets[y]? = some socket → ∀ octet ∈ socket.written, octet = 6
  opened : ∀ (y : Nat) socket, k.sockets[y]? = some socket → socket.destroyed = false →
    socket.written.length = (dataFrom y k.durable).length

theorem Answered.start (setup : JournalSetup) : Answered (.start setup) := by
  constructor
  case known => exact fun entry hentry => absurd hentry (by simp [Collector.start])
  case acks => exact fun y socket hsocket => absurd hsocket (by simp [Collector.start])
  case opened => exact fun y socket hsocket => absurd hsocket (by simp [Collector.start])

theorem Answered.silent (h : Answered k) (hsilent : Silent k k') : Answered k' := by
  constructor
  case known =>
    rw [hsilent.durable, hsilent.length]
    exact h.known
  case acks =>
    intro y socket' hsocket'
    obtain ⟨socket, hsocket, hwritten, _⟩ := hsilent.socket y socket' hsocket'
    rw [hwritten]
    exact h.acks y socket hsocket
  case opened =>
    intro y socket' hsocket' hopen
    obtain ⟨socket, hsocket, hwritten, hopened⟩ := hsilent.socket y socket' hsocket'
    rw [hwritten, hsilent.durable]
    exact h.opened y socket hsocket (hopened hopen)

theorem Answered.accepted (h : Answered k) :
    Answered { k with sockets := k.sockets ++ [{}] } := by
  constructor
  case known =>
    intro entry hentry
    rw [List.length_append]
    exact Nat.lt_add_right _ (h.known entry hentry)
  case acks => exact Table.forall_append h.acks (by simp)
  case opened =>
    refine Table.forall_append h.opened (fun _ => ?_)
    -- a new socket has a number that no frame has
    rw [length_dataFrom, eq_comm, List.length_nil, List.countP_eq_zero]
    intro entry hentry hsame
    exact absurd (eq_of_beq hsame) (Nat.ne_of_lt (h.known entry hentry))

theorem Answered.settled (h : Answered k) {batch : List QueuedFrame} (full : List Nat)
    (hbatch : ∀ entry ∈ batch, entry.socket < k.sockets.length) :
    Answered (k.settled batch full) := by
  have hget : ∀ (y : Nat) socket', (k.settled batch full).sockets[y]? = some socket' →
      ∃ socket, k.sockets[y]? = some socket ∧ answer batch full y socket = socket' := by
    intro y socket' hsocket'
    rw [show (k.settled batch full).sockets = k.sockets.mapIdx (answer batch full) from rfl,
      List.getElem?_mapIdx] at hsocket'
    exact Option.map_eq_some_iff.mp hsocket'
  constructor
  case known =>
    intro entry hentry
    rw [show (k.settled batch full).sockets = k.sockets.mapIdx (answer batch full) from rfl,
      List.length_mapIdx]
    rcases List.mem_append.mp hentry with hold | hnew
    · exact h.known entry hold
    · exact hbatch entry hnew
  case acks =>
    intro y socket' hsocket' octet hoctet
    obtain ⟨socket, hsocket, rfl⟩ := hget y socket' hsocket'
    have hacks := h.acks y socket hsocket octet
    unfold answer at hoctet
    split at hoctet
    · exact hacks hoctet
    · split at hoctet
      · exact hacks hoctet
      · rcases List.mem_append.mp hoctet with hold | hnew
        · exact hacks hold
        · exact List.eq_of_mem_replicate hnew
  case opened =>
    intro y socket' hsocket' hopen
    obtain ⟨socket, hsocket, rfl⟩ := hget y socket' hsocket'
    show _ = (dataFrom y (k.durable ++ batch)).length
    rw [dataFrom_append, List.length_append, length_dataFrom y batch]
    unfold answer at hopen ⊢
    split at hopen
    · next hnone =>
        rw [if_pos hnone]
        rw [Bool.or_eq_true, hopen] at hnone
        have hall := hnone.resolve_right (by simp)
        have hzero : batch.countP (fun entry => entry.socket == y) = 0 := by
          rw [List.countP_eq_zero]
          intro entry hentry
          simpa using List.all_eq_true.mp hall entry hentry
        rw [hzero, Nat.add_zero]
        exact h.opened y socket hsocket hopen
    · next hsome =>
        rw [if_neg hsome]
        split at hopen
        · exact absurd hopen (by simp)
        · next hroom =>
            rw [if_neg hroom, List.length_append, List.length_replicate,
              h.opened y socket hsocket hopen]

theorem Answered.step {l : Label} (h : Answered k) (hreach : (machine setup).Reachable k)
    (hstep : k.step setup l = some k') : Answered k' := by
  by_cases haccept : l = .accept
  · subst haccept
    replace hstep : k.accept = some k' := hstep
    unfold accept at hstep
    split at hstep
    · obtain rfl := Option.some.inj hstep
      exact h.accepted
    · exact absurd hstep (by simp)
  · by_cases hsync : ∃ i ok full, l = .synchronized i ok full
    · obtain ⟨i, ok, full, rfl⟩ := hsync
      replace hstep : k.synchronized setup i ok full = some k' := hstep
      unfold synchronized at hstep
      split at hstep
      · next batch hloop =>
          split at hstep
          · obtain rfl := Option.some.inj hstep
            refine (h.settled full (fun entry hentry => ?_)).silent (next_silent setup _ i)
            have hbooks := books_of_reachable hreach
            have hone := (hbooks.only hloop).2.1
            have hworking := hbooks.working (hbooks.healthy_of_loop hone)
            have hin : entry ∈ k.accepted := by
              rw [hworking.accepted, hworking.handed, batch_of hone]
              exact List.mem_append_left _ (List.mem_append_right _ hentry)
            exact ((framed_of_reachable hreach).frame entry hin).2
          · obtain rfl := Option.some.inj hstep
            exact h.silent (.destroyed rfl rfl)
      · exact absurd hstep (by simp)
    · refine h.silent (step_silent hstep haccept (fun i ok full hl => hsync ⟨i, ok, full, hl⟩))

theorem answered_of_reachable (h : (machine setup).Reachable k) : Answered k :=
  h.invariant (Answered.start setup) (fun _ _ _ hr hk hstep => hk.step hr hstep)

end Collector

namespace Sinks

variable {s : Sinks} {c x : Nat} {client : SocketAuditSink} {conn : Connection}

/-- Of the connections that a client has left, everything is acknowledged. -/
theorem Wired.drained (h : Wired s) (hclient : s.clients[c]? = some client)
    (hfailed : client.failed = false) (hconn : s.connections[x]? = some conn)
    (hown : conn.client = c) (hleft : client.socket ≠ some x) :
    conn.sent.length ≤ conn.received.length := by
  by_contra hmore
  have hitem := List.getElem?_eq_getElem (Nat.lt_of_not_le hmore)
  obtain ⟨record, hrecord, hpromise⟩ := (h.client c client hclient).settled hfailed x conn hconn hown
    _ _ hitem (fun hsocket => absurd hsocket hleft)
  have hread := (h.resolved_iff hclient hfailed hconn hown ⟨conn, _, hconn, hitem, rfl⟩).mp
    ((promiseOf_of_some hrecord).trans (congrArg some hpromise))
  exact absurd hread (Nat.lt_irrefl _)

/-- What a client has written to its connection and not heard of is at the start of `pending`. -/
theorem Wired.unanswered (h : Wired s) (hclient : s.clients[c]? = some client)
    (hfailed : client.failed = false) (hsocket : client.socket = some x)
    (hconn : s.connections[x]? = some conn) :
    conn.client = c ∧ conn.sent.length = conn.received.length + client.sent := by
  have htracked := h.client c client hclient
  obtain ⟨own, hown, hc, hboth⟩ := htracked.socket x hsocket
  obtain rfl := Option.some.inj (hconn.symm.trans hown)
  obtain ⟨hread, hsent⟩ := hboth hfailed
  have hlength := congrArg List.length hsent
  rw [List.length_take, List.length_drop, Nat.min_eq_left htracked.sent] at hlength
  exact ⟨hc, by omega⟩

/-- How many records the processes wait for together. -/
def load (s : Sinks) : Nat := (s.clients.map (fun client => client.pending.length)).sum

/-- No client has failed. -/
def Unfailed (s : Sinks) : Prop :=
  ∀ (c : Nat) client, s.clients[c]? = some client → client.failed = false

end Sinks

namespace CollectorNetwork

open Collector (dataFrom)

variable {setup : JournalSetup} {s s' : CollectorNetwork} {c x y : Nat}
variable {client : SocketAuditSink} {conn : Connection} {socket : CollectorSocket}

/-! ## Between the two ends -/

/-- A client has read no more than the collector has synced for it. -/
theorem Parts.read_le (h : Parts setup s) (hlink : s.links[y]? = some x)
    (hconn : s.sinks.connections[x]? = some conn) :
    conn.received.length ≤ (dataFrom y s.collector.durable).length := by
  have hy := Table.lt_of_getElem? hlink
  rw [h.linked.sockets] at hy
  have hget := List.getElem?_eq_getElem hy
  obtain ⟨own, hown, _, hread⟩ := h.linked.streams y x _ hlink hget
  obtain rfl := Option.some.inj (hconn.symm.trans hown)
  rw [Collector.length_dataFrom]
  exact Nat.le_trans hread.length_le ((Collector.books_of_reachable h.collector).answers y _ hget)

/-- The frames of its socket are the first lines that were written. -/
theorem Parts.split (h : Parts setup s) (hlink : s.links[y]? = some x)
    (hconn : s.sinks.connections[x]? = some conn) :
    conn.sent.map SinkItem.line = s.collector.framesOf y ++
      (conn.sent.drop (s.collector.framesOf y).length).map SinkItem.line := by
  obtain ⟨own, hown, hframes⟩ := h.frames hlink
  obtain rfl := Option.some.inj (hconn.symm.trans hown)
  rw [List.map_drop]
  exact (List.prefix_iff_eq_append.mp hframes).symm

/-- The pending records of a client: those whose acknowledgement is on the way, those in the batch and
    in the queue, those whose octets are on the way, and those it has not written. -/
theorem Parts.placed (h : Parts setup s) (hhealthy : s.collector.healthy = true)
    (hclient : s.sinks.clients[c]? = some client) (hfailed : client.failed = false)
    (hsocket : client.socket = some x) (hlink : s.links[y]? = some x)
    (hconn : s.sinks.connections[x]? = some conn) :
    client.pending.map SinkItem.line =
      (dataFrom y s.collector.durable).drop conn.received.length ++
      (dataFrom y s.collector.batch ++ dataFrom y s.collector.queue) ++
      (conn.sent.drop (s.collector.framesOf y).length).map SinkItem.line ++
      (client.pending.drop client.sent).map SinkItem.line := by
  have htracked := (Sinks.wired_of_reachable h.sinks).client c client hclient
  obtain ⟨own, hown, _, hboth⟩ := htracked.socket x hsocket
  obtain rfl := Option.some.inj (hconn.symm.trans hown)
  have hsplit := h.split hlink hconn
  rw [(Collector.books_of_reachable h.collector).framesOf hhealthy y] at hsplit ⊢
  calc client.pending.map SinkItem.line
      = (client.pending.take client.sent).map SinkItem.line ++
          (client.pending.drop client.sent).map SinkItem.line := by
        rw [← List.map_append, List.take_append_drop]
    _ = (conn.sent.map SinkItem.line).drop conn.received.length ++
          (client.pending.drop client.sent).map SinkItem.line := by
        rw [(hboth hfailed).2, List.map_drop]
    _ = _ := by
        rw [hsplit, List.append_assoc, List.drop_append_of_le_length (h.read_le hlink hconn)]
        simp only [List.append_assoc]

/-- Where the collector has not accepted the connection, nothing was read from it or answered. -/
theorem Parts.unplaced (h : Parts setup s) (hclient : s.sinks.clients[c]? = some client)
    (hfailed : client.failed = false) (hsocket : client.socket = some x) (hx : x ∉ s.links)
    (hconn : s.sinks.connections[x]? = some conn) :
    client.pending.map SinkItem.line =
      conn.sent.map SinkItem.line ++ (client.pending.drop client.sent).map SinkItem.line := by
  have htracked := (Sinks.wired_of_reachable h.sinks).client c client hclient
  obtain ⟨own, hown, _, hboth⟩ := htracked.socket x hsocket
  obtain rfl := Option.some.inj (hconn.symm.trans hown)
  have hsent := (hboth hfailed).2
  rw [h.linked.unlinked x conn hconn hx, List.length_nil, List.drop_zero] at hsent
  rw [← hsent, ← List.map_append, List.take_append_drop]

/-! ## How much waits at the collector -/

/-- The frames of one socket that are queued or in the batch. -/
def waiting (s : CollectorNetwork) (y : Nat) : Nat :=
  (s.collector.batch ++ s.collector.queue).countP (fun entry => entry.socket == y)

/-- What waits at the collector from a socket, and `more` of the lines that follow there, are pending
    records of the client whose current connection it is. -/
theorem Parts.waiting_owner (h : Parts setup s) (hhealthy : s.collector.healthy = true)
    (hunfailed : s.sinks.Unfailed) {more : Nat} (hlink : s.links[y]? = some x)
    (hconn : s.sinks.connections[x]? = some conn)
    (hmore : (s.collector.framesOf y).length + more ≤ conn.sent.length)
    (hpos : 0 < s.waiting y + more) :
    ∃ client, s.sinks.clients[conn.client]? = some client ∧ client.socket = some x ∧
      s.waiting y + more ≤ client.pending.length := by
  have hwired := Sinks.wired_of_reachable h.sinks
  obtain ⟨client, hclient⟩ : ∃ client, s.sinks.clients[conn.client]? = some client :=
    ⟨_, List.getElem?_eq_getElem (hwired.owner x conn hconn)⟩
  have hfailed := hunfailed _ _ hclient
  have hread := h.read_le hlink hconn
  have hframes := congrArg List.length
    ((Collector.books_of_reachable h.collector).framesOf hhealthy y)
  rw [List.length_append, ← Collector.dataFrom_append, Collector.length_dataFrom y (_ ++ _)] at hframes
  have hout : conn.received.length + (s.waiting y + more) ≤ conn.sent.length := by
    rw [waiting]
    omega
  have hcurrent : client.socket = some x := by
    by_contra hleft
    have hdrained := hwired.drained hclient hfailed hconn rfl hleft
    omega
  obtain ⟨_, hsent⟩ := hwired.unanswered hclient hfailed hcurrent hconn
  have hle := (hwired.client _ _ hclient).sent
  exact ⟨_, hclient, hcurrent, by omega⟩

/-- All that waits at the collector, and `more` of the lines that follow on one of its sockets, is no
    more than the processes wait for. -/
theorem Parts.pending_le_load (h : Parts setup s) (hhealthy : s.collector.healthy = true)
    (hunfailed : s.sinks.Unfailed) {more : Nat} (hlink : s.links[y]? = some x)
    (hconn : s.sinks.connections[x]? = some conn)
    (hmore : (s.collector.framesOf y).length + more ≤ conn.sent.length) :
    s.collector.pending + more ≤ s.sinks.load := by
  have hbooks := Collector.books_of_reachable h.collector
  have hframed := Collector.framed_of_reachable h.collector
  have hworking := hbooks.working hhealthy
  -- each socket, its client, and what it has at the collector; on `y` with the lines that follow
  let owner : Nat → Nat := fun z =>
    ((s.links[z]?).bind (fun x => s.sinks.connections[x]?)).elim 0 Connection.client
  let amount : Nat → Nat := fun z => s.waiting z + if y = z then more else 0
  have hall : ∀ entry ∈ s.collector.batch ++ s.collector.queue, entry.socket < s.links.length := by
    intro entry hentry
    rw [h.linked.sockets]
    refine (hframed.frame entry ?_).2
    rw [hworking.accepted, hworking.handed, List.append_assoc]
    exact List.mem_append_right _ hentry
  have htotal : ∑ z ∈ Finset.range s.links.length, amount z = s.collector.pending + more := by
    rw [Finset.sum_add_distrib, Finset.sum_ite_eq,
      if_pos (Finset.mem_range.mpr (Table.lt_of_getElem? hlink))]
    congr 1
    rw [hbooks.pending, Nat.add_comm, ← List.length_append]
    exact Tally.length_classes QueuedFrame.socket hall
  have hcover : ∀ z < s.links.length, 0 < amount z → ∃ x' client, s.links[z]? = some x' ∧
      s.sinks.clients[owner z]? = some client ∧ client.socket = some x' ∧
        amount z ≤ client.pending.length := by
    intro z hz hpos
    have hlink' := List.getElem?_eq_getElem hz
    obtain ⟨conn', hconn', hframes⟩ := h.frames hlink'
    have howner : owner z = conn'.client := by simp only [owner, hlink', Option.bind_some, hconn']; rfl
    have hle := hframes.length_le
    rw [List.length_map] at hle
    rw [howner]
    have hextra : (s.collector.framesOf z).length + (if y = z then more else 0) ≤
        conn'.sent.length := by
      by_cases hyz : y = z
      · subst hyz
        obtain rfl := Option.some.inj (hlink.symm.trans hlink')
        obtain rfl := Option.some.inj (hconn.symm.trans hconn')
        rw [if_pos rfl]
        exact hmore
      · rw [if_neg hyz]
        exact hle
    obtain ⟨client, hclient, hsocket, hamount⟩ :=
      h.waiting_owner hhealthy hunfailed hlink' hconn' hextra hpos
    exact ⟨_, client, hlink', hclient, hsocket, hamount⟩
  rw [← htotal, Sinks.load, ← Tally.sum_places]
  refine Tally.sum_le_of_owner amount _ owner (fun z hz hpos => ?_) (fun z hz z' hz' hpos hpos' hsame => ?_)
  · obtain ⟨x', client, _, hclient, _, hamount⟩ := hcover z hz hpos
    refine ⟨Table.lt_of_getElem? hclient, ?_⟩
    rw [hclient]
    exact hamount
  · obtain ⟨x', client, hlink', hclient, hsocket, _⟩ := hcover z hz hpos
    obtain ⟨x'', client', hlink'', hclient', hsocket', _⟩ := hcover z' hz' hpos'
    rw [← hsame] at hclient'
    obtain rfl := Option.some.inj (hclient.symm.trans hclient')
    obtain rfl := Option.some.inj (hsocket.symm.trans hsocket')
    exact h.linked.link_inj hlink' hlink''

end CollectorNetwork

end SecureMcp
