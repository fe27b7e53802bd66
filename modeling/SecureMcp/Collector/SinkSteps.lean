import SecureMcp.Collector.Sink

set_option autoImplicit false

/-! # What a step of the sinks can do

The handlers of a client are made of a few moves, among them one `write` for each turn of the loop of
`flush`. `Move` lists them, and a step is a sequence of them. -/

namespace SecureMcp

namespace Sinks

variable {s s' s'' : Sinks} {c x : Nat}
variable {client client' : SocketAuditSink} {conn conn' : Connection}

inductive Move (s : Sinks) : Sinks → Prop
  | created : Move s { s with clients := s.clients ++ [{}] }
  | refused (c : Nat) (client : SocketAuditSink) (event : Json) (hclient : s.clients[c]? = some client)
      (hrefuses : refuses client event.line = true) :
      Move s
        { s with records := s.records ++ [{ client := c, line := event.line, promise := .rejected }] }
  | called (c : Nat) (client : SocketAuditSink) (event : Json) (hclient : s.clients[c]? = some client)
      (hrefuses : refuses client event.line = false) : Move s (s.call c client event.line)
  | wrote (c : Nat) (client : SocketAuditSink) (x : Nat) (item : SinkItem) (conn : Connection)
      (returned : Bool) (hclient : s.clients[c]? = some client) (hsocket : client.socket = some x)
      (hconnected : client.connected = true) (hitem : client.pending[client.sent]? = some item)
      (hconn : s.connections[x]? = some conn) : Move s (s.write c client x item returned)
  /-- Only flags change; a socket that has connected stays connected. -/
  | flagged (c : Nat) (client client' : SocketAuditSink) (hclient : s.clients[c]? = some client)
      (hpending : client'.pending = client.pending) (hsent : client'.sent = client.sent)
      (hsocket : client'.socket = client.socket) (hfailed : client'.failed = client.failed)
      (hconnected : client.connected = true → client'.connected = true)
      (hlinked : client'.connected = true → client'.connected = client.connected ∨
        client.socket ≠ none)
      (hclosed : client.closed = true → client'.closed = true)
      (hclosing : client'.closed = true → client.closed = true ∨ client.pending = []) :
      Move s (s.put c client')
  | failed (c : Nat) (client client' : SocketAuditSink) (hclient : s.clients[c]? = some client)
      (hpending : client'.pending = []) (hsent : client'.sent = 0)
      (hsocket : (client'.socket = client.socket ∧ client'.connected = client.connected) ∨
        (client'.socket = none ∧ client'.connected = false))
      (hfailed : client'.failed = true) (hclosed : client.closed = true → client'.closed = true) :
      Move s ((s.settle client.pending .rejected).put c client')
  | detached (c : Nat) (client : SocketAuditSink) (hclient : s.clients[c]? = some client)
      (hpending : client.pending = []) :
      Move s (s.put c { client with socket := none, connected := false, writable := false })
  /-- Octets that acknowledge nothing. -/
  | ignored (x : Nat) (octets : Bytes) (conn : Connection) (hconn : s.connections[x]? = some conn)
      (hstale : ∀ client, s.clients[conn.client]? = some client → client.socket = some x →
        client.failed = true) : Move s (s.read x octets)
  | acknowledged (c : Nat) (client : SocketAuditSink) (x : Nat) (conn : Connection) (octets : Bytes)
      (hclient : s.clients[c]? = some client) (hsocket : client.socket = some x)
      (hconn : s.connections[x]? = some conn) (hvalid : invalid client octets = false) :
      Move s ((s.read x octets).acknowledge c client octets.length)

/-- Zero or more moves. -/
def Moves : Sinks → Sinks → Prop := Relation.ReflTransGen Move

theorem Moves.refl (s : Sinks) : Moves s s := Relation.ReflTransGen.refl

theorem Moves.trans (h : Moves s s') (h' : Moves s' s'') : Moves s s'' :=
  Relation.ReflTransGen.trans h h'

theorem Move.moves (h : Move s s') : Moves s s' := Relation.ReflTransGen.single h

theorem Move.then (h : Move s s') (h' : Moves s' s'') : Moves s s'' :=
  Relation.ReflTransGen.head h h'

/-- What a state has and every move keeps is there after a sequence of moves. -/
theorem Moves.invariant {I : Sinks → Prop} (h : Moves s s') (hs : I s)
    (hmove : ∀ s s', I s → Move s s' → I s') : I s' := by
  induction h with
  | refl => exact hs
  | tail _ hlast ih => exact hmove _ _ ih hlast

/-! ## The loop of `flush` -/

theorem toWrite_spec {item : SinkItem} (h : toWrite client = some (x, item)) :
    client.socket = some x ∧ client.connected = true ∧ client.pending[client.sent]? = some item := by
  unfold toWrite at h
  split at h
  · exact absurd h (by simp)
  · next y hsocket =>
      split at h
      · next hflags =>
          obtain ⟨found, hfound, heq⟩ := Option.map_eq_some_iff.mp h
          obtain ⟨rfl, rfl⟩ := Prod.mk.inj heq
          rw [Bool.and_eq_true] at hflags
          exact ⟨hsocket, hflags.1, hfound⟩
      · exact absurd h (by simp)

/-- One turn of the loop is a move, or nothing where its connection does not exist. -/
theorem write_moves {item : SinkItem} {returned : Bool} (hclient : s.clients[c]? = some client)
    (hwrite : toWrite client = some (x, item)) : Moves s (s.write c client x item returned) := by
  obtain ⟨hsocket, hconnected, hitem⟩ := toWrite_spec hwrite
  cases hconn : s.connections[x]? with
  | none =>
      rw [write, hconn]
      exact Moves.refl s
  | some conn =>
      exact (Move.wrote c client x item conn returned hclient hsocket hconnected hitem hconn).moves

theorem flush_moves (c room : Nat) (s : Sinks) : Moves s (flush c room s) := by
  induction room generalizing s with
  | zero =>
      rw [flush]
      split
      · exact Moves.refl s
      · next client hclient =>
          split
          · exact Moves.refl s
          · next hwrite => exact write_moves hclient hwrite
  | succ room ih =>
      rw [flush]
      split
      · exact Moves.refl s
      · next client hclient =>
          split
          · exact Moves.refl s
          · next hwrite => exact (write_moves hclient hwrite).trans (ih _)

theorem Move.flush (h : Move s s') (c room : Nat) : Moves s (Sinks.flush c room s') :=
  h.moves.trans (flush_moves c room s')

/-! ## Calls and events -/

theorem fail_move (hclient : s.clients[c]? = some client) : Move s (s.fail c client) :=
  .failed c client _ hclient rfl rfl (Or.inl ⟨rfl, rfl⟩) rfl id

theorem send_moves {event : Json} {room : Nat} (h : s.send c event room = some s') :
    Moves s s' := by
  unfold send at h
  split at h
  · exact absurd h (by simp)
  · next client hclient =>
      cases hrefuses : refuses client event.line with
      | true =>
          rw [if_pos hrefuses] at h
          obtain rfl := Option.some.inj h
          exact (Move.refused c client event hclient hrefuses).moves
      | false =>
          rw [if_neg (by simp [hrefuses])] at h
          obtain rfl := Option.some.inj h
          exact (Move.called c client event hclient hrefuses).flush c room

theorem close_moves (h : s.close c = some s') : Moves s s' := by
  unfold close at h
  split at h
  · exact absurd h (by simp)
  · next client hclient =>
      split at h
      · next hempty =>
          obtain rfl := Option.some.inj h
          exact (Move.flagged c client { client with closed := true } hclient rfl rfl rfl rfl id
            (fun _ => Or.inl rfl) (fun _ => rfl)
            (fun _ => Or.inr (List.isEmpty_iff.mp hempty))).moves
      · obtain rfl := Option.some.inj h
        exact (Move.failed c client
          { client with pending := [], sent := 0, failed := true, closed := true } hclient
          rfl rfl (Or.inl ⟨rfl, rfl⟩) rfl (fun _ => rfl)).moves

theorem expire_moves (h : s.expire c = some s') : Moves s s' := by
  unfold expire at h
  split at h
  · exact absurd h (by simp)
  · next client hclient =>
      split at h
      · exact absurd h (by simp)
      · obtain rfl := Option.some.inj h
        exact (fail_move hclient).moves

/-- A handler runs for the client whose `socket` this is; other events change nothing. -/
theorem onSocket_cases {handler : Nat → SocketAuditSink → Sinks}
    (h : s.onSocket x handler = some s') :
    ∃ conn client, s.connections[x]? = some conn ∧ s.clients[conn.client]? = some client ∧
      ((client.socket = some x ∧ s' = handler conn.client client) ∨
        (client.socket ≠ some x ∧ s' = s)) := by
  unfold onSocket at h
  split at h
  · exact absurd h (by simp)
  · next conn hconn =>
      split at h
      · exact absurd h (by simp)
      · next client hclient =>
          refine ⟨conn, client, hconn, hclient, ?_⟩
          by_cases hsocket : client.socket = some x
          · rw [if_pos hsocket] at h
            exact Or.inl ⟨hsocket, (Option.some.inj h).symm⟩
          · rw [if_neg hsocket] at h
            exact Or.inr ⟨hsocket, (Option.some.inj h).symm⟩

theorem connect_moves {room : Nat} (h : s.connect x room = some s') : Moves s s' := by
  obtain ⟨conn, client, _, hclient, ⟨hsocket, rfl⟩ | ⟨_, rfl⟩⟩ := onSocket_cases h
  · exact (Move.flagged _ client { client with connected := true, writable := true } hclient
      rfl rfl rfl rfl (fun _ => rfl) (fun _ => Or.inr (by simp [hsocket])) id Or.inl).flush _ room
  · exact Moves.refl _

theorem drain_moves {room : Nat} (h : s.drain x room = some s') : Moves s s' := by
  obtain ⟨conn, client, _, hclient, ⟨_, rfl⟩ | ⟨_, rfl⟩⟩ := onSocket_cases h
  · exact (Move.flagged _ client { client with writable := true } hclient
      rfl rfl rfl rfl id (fun _ => Or.inl rfl) id Or.inl).flush _ room
  · exact Moves.refl _

theorem read_connections (octets : Bytes) (hconn : s.connections[x]? = some conn) :
    (s.read x octets).connections =
      s.connections.set x { conn with received := conn.received ++ octets } := by
  rw [read, hconn]

theorem read_connection (octets : Bytes) (hconn : s.connections[x]? = some conn) :
    (s.read x octets).connections[x]? =
      some { conn with received := conn.received ++ octets } := by
  rw [read_connections octets hconn]
  exact Table.getElem?_set_of_some hconn

theorem read_clients (s : Sinks) (x : Nat) (octets : Bytes) :
    (s.read x octets).clients = s.clients := by
  unfold read
  split <;> rfl

theorem read_records (s : Sinks) (x : Nat) (octets : Bytes) :
    (s.read x octets).records = s.records := by
  unfold read
  split <;> rfl

/-- A socket that has read something is one of a connection and its client. -/
theorem data_cases {octets : Bytes} {room : Nat} (h : s.data x octets room = some s') :
    ∃ conn client, s.connections[x]? = some conn ∧ s.clients[conn.client]? = some client ∧
      ((client.socket = some x ∧ invalid client octets = true ∧
          s' = (s.read x octets).fail conn.client client) ∨
        (client.socket = some x ∧ invalid client octets = false ∧
          s' = flush conn.client room ((s.read x octets).acknowledge conn.client client octets.length)) ∨
        (client.socket ≠ some x ∧ s' = s.read x octets)) := by
  obtain ⟨conn', client, hconn', hclient, hcases⟩ := onSocket_cases h
  cases hconn : s.connections[x]? with
  | none =>
      rw [read, hconn] at hconn'
      exact absurd (hconn.symm.trans hconn') (by simp)
  | some conn =>
      obtain rfl := Option.some.inj ((read_connection octets hconn).symm.trans hconn')
      rw [read_clients] at hclient
      refine ⟨conn, client, rfl, hclient, ?_⟩
      rcases hcases with ⟨hsocket, rfl⟩ | ⟨hother, rfl⟩
      · cases hinvalid : invalid client octets with
        | true => exact Or.inl ⟨hsocket, rfl, by simp⟩
        | false => exact Or.inr (Or.inl ⟨hsocket, rfl, by simp⟩)
      · exact Or.inr (Or.inr ⟨hother, rfl⟩)

/-- What was read either acknowledges records, or is ignored, or breaks the client. -/
theorem data_moves {octets : Bytes} {room : Nat} (h : s.data x octets room = some s') :
    Moves s s' := by
  obtain ⟨conn, client, hconn, hclient, hcases⟩ := data_cases h
  rcases hcases with ⟨hsocket, _, rfl⟩ | ⟨hsocket, hvalid, rfl⟩ | ⟨hother, rfl⟩
  · -- `fail` comes first here; it does not touch the connection
    have hread : (s.read x octets).fail conn.client client =
        (s.fail conn.client client).read x octets := by
      unfold fail settle put read
      rw [hconn]
    rw [hread]
    refine (fail_move hclient).then (Move.moves ?_)
    refine Move.ignored x octets conn hconn ?_
    intro other hfound _
    have hput : (s.fail conn.client client).clients[conn.client]? = some _ :=
      Table.getElem?_set_of_some hclient
    obtain rfl := Option.some.inj (hput.symm.trans hfound)
    rfl
  · exact (Move.acknowledged _ client x conn octets hclient hsocket hconn hvalid).flush _ room
  · refine (Move.ignored x octets conn hconn ?_).moves
    intro other hfound hsocket
    obtain rfl := Option.some.inj (hclient.symm.trans hfound)
    exact absurd hsocket hother

theorem error_moves (h : s.error x = some s') : Moves s s' := by
  obtain ⟨conn, client, _, hclient, ⟨_, rfl⟩ | ⟨_, rfl⟩⟩ := onSocket_cases h
  · split
    · exact Moves.refl s
    · exact (fail_move hclient).moves
  · exact Moves.refl _

theorem disconnected_moves (h : s.disconnected x = some s') : Moves s s' := by
  obtain ⟨conn, client, _, hclient, ⟨_, rfl⟩ | ⟨_, rfl⟩⟩ := onSocket_cases h
  · split
    · next hempty => exact (Move.detached _ client hclient (List.isEmpty_iff.mp hempty)).moves
    · exact (Move.failed _ client
        { client with pending := [], sent := 0, failed := true, socket := none, connected := false,
                      writable := false } hclient rfl rfl (Or.inr ⟨rfl, rfl⟩) rfl id).moves
  · exact Moves.refl _

/-- Every step is a sequence of moves. -/
theorem step_moves {l : Label} (h : s.step l = some s') : Moves s s' := by
  cases l with
  | socketAuditSink =>
      obtain rfl := Option.some.inj h
      exact Move.created.moves
  | send c event room => exact send_moves h
  | close c => exact close_moves h
  | expire c => exact expire_moves h
  | connect x room => exact connect_moves h
  | drain x room => exact drain_moves h
  | data x octets room => exact data_moves h
  | error x => exact error_moves h
  | disconnected x => exact disconnected_moves h

/-- What holds at the start and every move keeps holds in every reachable state. -/
theorem invariant_of_moves {I : Sinks → Prop} (hinit : I machine.init)
    (hmove : ∀ s s', I s → Move s s' → I s') (h : machine.Reachable s) : I s :=
  h.invariant hinit (fun _ _ _ _ hI hstep => (step_moves hstep).invariant hI hmove)

end Sinks

end SecureMcp
