import SecureMcp.Collector.Acknowledging
import SecureMcp.Collector.Framing
import SecureMcp.Collector.Network

set_option autoImplicit false

/-! # What the two ends of a connection have of each other

What a socket of the collector has read is the start of what its client wrote, and what a client has
read is the start of what the socket was sent (`Linked`); so the frames queued from a socket are the
first lines of its connection. -/

namespace SecureMcp

namespace Sinks

variable {s s' s'' : Sinks} {c x : Nat} {client : SocketAuditSink}

/-! ## Steps in which no client reads -/

/-- Connections are only opened and written to. -/
def Writes (s s' : Sinks) : Prop :=
  s.connections.length ≤ s'.connections.length ∧
    ∀ (x : Nat) conn', s'.connections[x]? = some conn' →
      (∃ conn, s.connections[x]? = some conn ∧ conn.sent <+: conn'.sent ∧
        conn'.received = conn.received) ∨
      (s.connections.length ≤ x ∧ conn'.received = [])

theorem writes_of_eq (h : s'.connections = s.connections) : Writes s s' := by
  refine ⟨by rw [h], fun x conn' hconn' => Or.inl ?_⟩
  rw [h] at hconn'
  exact ⟨conn', hconn', List.prefix_rfl, rfl⟩

theorem Writes.refl (s : Sinks) : Writes s s := writes_of_eq rfl

theorem Writes.trans (h : Writes s s') (h' : Writes s' s'') : Writes s s'' := by
  refine ⟨Nat.le_trans h.1 h'.1, ?_⟩
  intro x conn'' hconn''
  rcases h'.2 x conn'' hconn'' with ⟨conn', hconn', hsent', hreceived'⟩ | ⟨hnew, hreceived'⟩
  · rcases h.2 x conn' hconn' with ⟨conn, hconn, hsent, hreceived⟩ | ⟨hnew, hreceived⟩
    · exact Or.inl ⟨conn, hconn, hsent.trans hsent', hreceived'.trans hreceived⟩
    · exact Or.inr ⟨hnew, hreceived'.trans hreceived⟩
  · exact Or.inr ⟨Nat.le_trans h.1 hnew, hreceived'⟩

theorem write_writes (c : Nat) (client : SocketAuditSink) (x : Nat) (item : SinkItem)
    (returned : Bool) : Writes s (s.write c client x item returned) := by
  cases hconn : s.connections[x]? with
  | none =>
      rw [write, hconn]
      exact Writes.refl s
  | some conn =>
      refine ⟨by rw [write_connections hconn, List.length_set], ?_⟩
      intro y conn' hconn'
      rw [write_connections hconn] at hconn'
      rcases Table.getElem?_set_cases hconn' with ⟨rfl, rfl⟩ | ⟨_, hin⟩
      · exact Or.inl ⟨conn, hconn, List.prefix_append _ _, rfl⟩
      · exact Or.inl ⟨conn', hin, List.prefix_rfl, rfl⟩

theorem flush_only_writes (c room : Nat) (s : Sinks) : Writes s (flush c room s) := by
  induction room generalizing s with
  | zero =>
      rw [flush]
      split
      · exact Writes.refl s
      · split
        · exact Writes.refl s
        · exact write_writes _ _ _ _ _
  | succ room ih =>
      rw [flush]
      split
      · exact Writes.refl s
      · split
        · exact Writes.refl s
        · exact (write_writes _ _ _ _ _).trans (ih _)

theorem call_writes (s : Sinks) (c : Nat) (client : SocketAuditSink) (line : Bytes) :
    Writes s (s.call c client line) := by
  unfold call
  split
  · refine ⟨by simp [openSocket, enqueue], ?_⟩
    intro x conn' hconn'
    rcases Table.getElem?_append_cases hconn' with hin | ⟨rfl, rfl⟩
    · exact Or.inl ⟨conn', hin, List.prefix_rfl, rfl⟩
    · exact Or.inr ⟨Nat.le_refl _, rfl⟩
  · exact writes_of_eq rfl

theorem put_writes (s : Sinks) (c : Nat) (client : SocketAuditSink) : Writes s (s.put c client) :=
  writes_of_eq rfl

/-- A handler that only writes. -/
theorem onSocket_writes {handler : Nat → SocketAuditSink → Sinks}
    (h : s.onSocket x handler = some s') (hhandler : ∀ c client, Writes s (handler c client)) :
    Writes s s' := by
  obtain ⟨_, _, _, _, ⟨_, rfl⟩ | ⟨_, rfl⟩⟩ := onSocket_cases h
  · exact hhandler _ _
  · exact Writes.refl _

theorem data_writes {octets : Bytes} {room : Nat} (h : s.data x octets room = some s') :
    Writes (s.read x octets) s' := by
  refine onSocket_writes (s := s.read x octets) h (fun c client => ?_)
  split
  · exact writes_of_eq rfl
  · have hacknowledged : Writes (s.read x octets)
        ((s.read x octets).acknowledge c client octets.length) := writes_of_eq rfl
    exact hacknowledged.trans (flush_only_writes _ _ _)

theorem step_writes {l : Label} (h : s.step l = some s')
    (hl : ∀ x octets room, l ≠ .data x octets room) : Writes s s' := by
  cases l with
  | socketAuditSink =>
      obtain rfl := Option.some.inj h
      exact writes_of_eq rfl
  | send c event room =>
      replace h : s.send c event room = some s' := h
      unfold send at h
      split at h
      · exact absurd h (by simp)
      · split at h
        · obtain rfl := Option.some.inj h
          exact writes_of_eq rfl
        · obtain rfl := Option.some.inj h
          exact (call_writes s _ _ _).trans (flush_only_writes _ _ _)
  | close c =>
      replace h : s.close c = some s' := h
      unfold close at h
      split at h
      · exact absurd h (by simp)
      · split at h
        · obtain rfl := Option.some.inj h
          exact writes_of_eq rfl
        · obtain rfl := Option.some.inj h
          exact writes_of_eq rfl
  | expire c =>
      replace h : s.expire c = some s' := h
      unfold expire at h
      split at h
      · exact absurd h (by simp)
      · split at h
        · exact absurd h (by simp)
        · obtain rfl := Option.some.inj h
          exact writes_of_eq rfl
  | connect x room =>
      replace h : s.connect x room = some s' := h
      exact onSocket_writes h (fun c client => (put_writes s c _).trans (flush_only_writes _ _ _))
  | drain x room =>
      replace h : s.drain x room = some s' := h
      exact onSocket_writes h (fun c client => (put_writes s c _).trans (flush_only_writes _ _ _))
  | data x octets room => exact absurd rfl (hl x octets room)
  | error x =>
      replace h : s.error x = some s' := h
      refine onSocket_writes h (fun _ _ => ?_)
      split
      · exact Writes.refl s
      · exact writes_of_eq rfl
  | disconnected x =>
      replace h : s.disconnected x = some s' := h
      refine onSocket_writes h (fun _ _ => ?_)
      split
      · exact writes_of_eq rfl
      · exact writes_of_eq rfl

end Sinks

namespace CollectorNetwork

variable {setup : JournalSetup} {s s' : CollectorNetwork}

/-! ## The two streams of a connection -/

structure Linked (s : CollectorNetwork) : Prop where
  sockets : s.links.length = s.collector.sockets.length
  /-- A connection is accepted once. -/
  nodup : s.links.Nodup
  /-- What one end has read is the start of what the other wrote. -/
  streams : ∀ (y x : Nat) socket, s.links[y]? = some x → s.collector.sockets[y]? = some socket →
    ∃ conn, s.sinks.connections[x]? = some conn ∧ socket.received <+: conn.stream ∧
      conn.received <+: socket.written
  unlinked : ∀ (x : Nat) conn, s.sinks.connections[x]? = some conn → x ∉ s.links →
    conn.received = []

theorem linked_init (setup : JournalSetup) : Linked (machine setup).init := by
  constructor
  case sockets => rfl
  case nodup => exact List.nodup_nil
  case streams => exact fun y x socket hlink => absurd hlink (by simp [machine])
  case unlinked => exact fun x conn hconn => absurd hconn (by simp [machine])

theorem stream_mono {conn conn' : Connection} (h : conn.sent <+: conn'.sent) :
    conn.stream <+: conn'.stream := by
  obtain ⟨more, hmore⟩ := h
  rw [Connection.stream, Connection.stream, ← hmore, List.flatMap_append]
  exact List.prefix_append _ _

/-- The sinks write, and the collector does nothing. -/
theorem Linked.sinks (h : Linked s) {sinks : Sinks} (hwrites : s.sinks.Writes sinks) :
    Linked { s with sinks } := by
  have hlt : ∀ (y x : Nat), s.links[y]? = some x → x < s.sinks.connections.length := by
    intro y x hlink
    have hy := Table.lt_of_getElem? hlink
    rw [h.sockets] at hy
    obtain ⟨conn, hconn, _⟩ := h.streams y x _ hlink (List.getElem?_eq_getElem hy)
    exact Table.lt_of_getElem? hconn
  constructor
  case sockets => exact h.sockets
  case nodup => exact h.nodup
  case streams =>
    intro y x socket hlink hsocket
    obtain ⟨conn, hconn, hread, hanswered⟩ := h.streams y x socket hlink hsocket
    have hx := Nat.lt_of_lt_of_le (Table.lt_of_getElem? hconn) hwrites.1
    refine ⟨sinks.connections[x], List.getElem?_eq_getElem hx, ?_⟩
    rcases hwrites.2 x _ (List.getElem?_eq_getElem hx) with
      ⟨old, hold, hsent, hreceived⟩ | ⟨hnew, _⟩
    · obtain rfl := Option.some.inj (hconn.symm.trans hold)
      rw [hreceived]
      exact ⟨hread.trans (stream_mono hsent), hanswered⟩
    · exact absurd (hlt y x hlink) (Nat.not_lt.mpr hnew)
  case unlinked =>
    intro x conn' hconn' hout
    rcases hwrites.2 x conn' hconn' with ⟨conn, hconn, _, hreceived⟩ | ⟨_, hreceived⟩
    · rw [hreceived]
      exact h.unlinked x conn hconn hout
    · exact hreceived

/-- A client reads what its socket at the collector was sent next. -/
theorem Linked.answered (h : Linked s) {y x count : Nat} {socket : CollectorSocket}
    {conn : Connection} (hlink : s.links[y]? = some x)
    (hsocket : s.collector.sockets[y]? = some socket)
    (hconn : s.sinks.connections[x]? = some conn) :
    Linked { s with sinks := s.sinks.read x ((socket.written.drop conn.received.length).take count) } := by
  have hconnections := Sinks.read_connections
    ((socket.written.drop conn.received.length).take count) hconn
  constructor
  case sockets => exact h.sockets
  case nodup => exact h.nodup
  case streams =>
    intro z x' other hlink' hother
    obtain ⟨conn', hconn', hread, hanswered⟩ := h.streams z x' other hlink' hother
    show ∃ conn, (s.sinks.read x _).connections[x']? = some conn ∧ _
    rw [hconnections]
    by_cases hx : x' = x
    · subst hx
      obtain rfl := (List.getElem?_inj (Table.lt_of_getElem? hlink) h.nodup).mp (hlink.trans hlink'.symm)
      obtain rfl := Option.some.inj (hsocket.symm.trans hother)
      obtain rfl := Option.some.inj (hconn.symm.trans hconn')
      refine ⟨_, Table.getElem?_set_of_some hconn, hread, ?_⟩
      obtain ⟨more, hmore⟩ := hanswered
      rw [← hmore, List.drop_left]
      exact (List.prefix_append_right_inj _).mpr (List.take_prefix _ _)
    · rw [Table.getElem?_set_of_ne hx]
      exact ⟨conn', hconn', hread, hanswered⟩
  case unlinked =>
    intro x' conn' hconn' hout
    replace hconn' : (s.sinks.read x _).connections[x']? = some conn' := hconn'
    rw [hconnections] at hconn'
    rcases Table.getElem?_set_cases hconn' with ⟨rfl, _⟩ | ⟨_, hin⟩
    · exact absurd (List.mem_of_getElem? hlink) hout
    · exact h.unlinked x' conn' hin hout

/-- A socket of the collector reads what its client wrote next. -/
theorem Linked.delivered (h : Linked s) {y x count j : Nat} {socket socket' : CollectorSocket}
    {conn : Connection} {collector : Collector} (hlink : s.links[y]? = some x)
    (hconn : s.sinks.connections[x]? = some conn)
    (hfed : Collector.Fed s.collector collector y
      ((conn.stream.drop socket.received.length).take count) socket socket' j) :
    Linked { s with collector } := by
  constructor
  case sockets =>
    show s.links.length = collector.sockets.length
    rw [hfed.sockets, List.length_set, h.sockets]
  case nodup => exact h.nodup
  case streams =>
    intro z x' other hlink' hother
    replace hother : collector.sockets[z]? = some other := hother
    rw [hfed.sockets] at hother
    rcases Table.getElem?_set_cases hother with ⟨rfl, rfl⟩ | ⟨_, hin⟩
    · obtain ⟨conn', hconn', hread, hanswered⟩ := h.streams z x' socket hlink' hfed.before
      obtain rfl := Option.some.inj (hlink.symm.trans hlink')
      obtain rfl := Option.some.inj (hconn.symm.trans hconn')
      refine ⟨conn, hconn, ?_, by rw [hfed.written]; exact hanswered⟩
      rw [hfed.received]
      obtain ⟨more, hmore⟩ := hread
      rw [← hmore, List.drop_left]
      exact (List.prefix_append_right_inj _).mpr (List.take_prefix _ _)
    · exact h.streams z x' other hlink' hin
  case unlinked => exact h.unlinked

/-- The collector reads nothing. -/
theorem Linked.collector (h : Linked s) {opens : Prop} {lost : Nat → Prop} {collector : Collector}
    (hsame : Collector.SameStreams opens lost s.collector collector)
    (hlength : collector.sockets.length = s.collector.sockets.length) :
    Linked { s with collector } := by
  constructor
  case sockets =>
    show s.links.length = collector.sockets.length
    rw [hlength, h.sockets]
  case nodup => exact h.nodup
  case streams =>
    intro y x socket' hlink hsocket'
    replace hsocket' : collector.sockets[y]? = some socket' := hsocket'
    have hy := Table.lt_of_getElem? hsocket'
    obtain ⟨socket, hsocket, hreceived, _, hwritten, _⟩ := hsame.old y socket' hsocket' (by omega)
    obtain ⟨conn, hconn, hread, hanswered⟩ := h.streams y x socket hlink hsocket
    exact ⟨conn, hconn, by rw [hreceived]; exact hread, hanswered.trans hwritten⟩
  case unlinked => exact h.unlinked

/-- The collector accepts a connection that it has not accepted before. -/
theorem Linked.accepted (h : Linked s) {x : Nat} (hx : x < s.sinks.connections.length)
    (hnew : x ∉ s.links) {collector : Collector} (haccept : s.collector.accept = some collector) :
    Linked { s with collector, links := s.links ++ [x] } := by
  have hsockets : collector.sockets = s.collector.sockets ++ [({} : CollectorSocket)] := by
    unfold Collector.accept at haccept
    split at haccept
    · obtain rfl := Option.some.inj haccept
      rfl
    · exact absurd haccept (by simp)
  constructor
  case sockets =>
    show (s.links ++ [x]).length = collector.sockets.length
    rw [hsockets, List.length_append, List.length_append, h.sockets]
    rfl
  case nodup =>
    refine List.nodup_append.mpr ⟨h.nodup, List.nodup_singleton x, ?_⟩
    rintro a ha b hb rfl
    exact hnew (by rw [← List.mem_singleton.mp hb]; exact ha)
  case streams =>
    intro y x' socket hlink hsocket
    replace hsocket : collector.sockets[y]? = some socket := hsocket
    rw [hsockets] at hsocket
    rcases Table.getElem?_append_cases hlink with hold | ⟨rfl, rfl⟩
    · rcases Table.getElem?_append_cases hsocket with hin | ⟨rfl, _⟩
      · exact h.streams y x' socket hold hin
      · have hlt := Table.lt_of_getElem? hold
        rw [h.sockets] at hlt
        exact absurd hlt (Nat.lt_irrefl _)
    · rcases Table.getElem?_append_cases hsocket with hin | ⟨_, rfl⟩
      · have hlt := Table.lt_of_getElem? hin
        rw [h.sockets] at hlt
        exact absurd hlt (Nat.lt_irrefl _)
      · refine ⟨s.sinks.connections[x'], List.getElem?_eq_getElem hx, List.nil_prefix, ?_⟩
        exact h.unlinked x' _ (List.getElem?_eq_getElem hx) hnew ▸ List.prefix_rfl
  case unlinked =>
    intro x' conn hconn hout
    exact h.unlinked x' conn hconn (fun hmem => hout (List.mem_append_left _ hmem))

/-! ## Every reachable state -/

/-- What a step does, and when it can happen. -/
inductive Effect (setup : JournalSetup) (s : CollectorNetwork) : CollectorNetwork → Prop
  | accepted (x : Nat) (collector : Collector) (hx : x < s.sinks.connections.length)
      (hnew : x ∉ s.links) (haccept : s.collector.accept = some collector) :
      Effect setup s { s with collector, links := s.links ++ [x] }
  | delivered (y x count : Nat) (socket : CollectorSocket) (conn : Connection) (collector : Collector)
      (hlink : s.links[y]? = some x) (hsocket : s.collector.sockets[y]? = some socket)
      (hconn : s.sinks.connections[x]? = some conn)
      (hdata : s.collector.data y ((conn.stream.drop socket.received.length).take count) =
        some collector) : Effect setup s { s with collector }
  | answered (y x count room : Nat) (socket : CollectorSocket) (conn : Connection) (sinks : Sinks)
      (hlink : s.links[y]? = some x) (hsocket : s.collector.sockets[y]? = some socket)
      (hconn : s.sinks.connections[x]? = some conn)
      (hdata : s.sinks.data x ((socket.written.drop conn.received.length).take count) room =
        some sinks) : Effect setup s { s with sinks }
  | sink (label : Sinks.Label) (sinks : Sinks) (hread : isRead label = false)
      (hstep : s.sinks.step label = some sinks) : Effect setup s { s with sinks }
  | collector (label : Collector.Label) (collector : Collector) (hown : isOwn label = true)
      (hstep : s.collector.step setup label = some collector) : Effect setup s { s with collector }

theorem step_effect {l : Label} (h : s.step setup l = some s') : Effect setup s s' := by
  cases l with
  | accept x =>
      replace h : s.accept x = some s' := h
      unfold accept at h
      split at h
      · next hnew =>
          obtain ⟨collector, haccept, rfl⟩ := Option.map_eq_some_iff.mp h
          exact .accepted x collector hnew.1 hnew.2 haccept
      · exact absurd h (by simp)
  | deliver y count =>
      replace h : s.deliver y count = some s' := h
      unfold deliver at h
      split at h
      · next x socket hlink hsocket =>
          split at h
          · exact absurd h (by simp)
          · next conn hconn =>
              split at h
              · exact absurd h (by simp)
              · obtain ⟨collector, hdata, rfl⟩ := Option.map_eq_some_iff.mp h
                exact .delivered y x count socket conn collector hlink hsocket hconn hdata
      · exact absurd h (by simp)
  | answer y count room =>
      replace h : s.answer y count room = some s' := h
      unfold answer at h
      split at h
      · next x socket hlink hsocket =>
          split at h
          · exact absurd h (by simp)
          · next conn hconn =>
              split at h
              · exact absurd h (by simp)
              · obtain ⟨sinks, hdata, rfl⟩ := Option.map_eq_some_iff.mp h
                exact .answered y x count room socket conn sinks hlink hsocket hconn hdata
      · exact absurd h (by simp)
  | sink label =>
      replace h : (if isRead label then none else (s.sinks.step label).map _) = some s' := h
      split at h
      · exact absurd h (by simp)
      · next hread =>
          obtain ⟨sinks, hstep, rfl⟩ := Option.map_eq_some_iff.mp h
          exact .sink label sinks (Bool.eq_false_iff.mpr hread) hstep
  | collector label =>
      replace h : (if isOwn label then (s.collector.step setup label).map _ else none) = some s' := h
      split at h
      · next hown =>
          obtain ⟨collector, hstep, rfl⟩ := Option.map_eq_some_iff.mp h
          exact .collector label collector hown hstep
      · exact absurd h (by simp)

/-- The parts of a reachable network are reachable for themselves, and linked. -/
structure Parts (setup : JournalSetup) (s : CollectorNetwork) : Prop where
  sinks : Sinks.machine.Reachable s.sinks
  collector : (Collector.machine setup).Reachable s.collector
  linked : Linked s

theorem Parts.effect (h : Parts setup s) (heffect : Effect setup s s') : Parts setup s' := by
  cases heffect with
  | accepted x collector hx hnew haccept =>
      exact ⟨h.sinks, h.collector.snoc (l := .accept) haccept, h.linked.accepted hx hnew haccept⟩
  | delivered y x count socket conn collector hlink hsocket hconn hdata =>
      have hstep : (Collector.machine setup).step s.collector
          (.data y ((conn.stream.drop socket.received.length).take count)) = some collector := hdata
      obtain ⟨old, new, j, hfed⟩ := Collector.data_fed hdata
      obtain rfl := Option.some.inj (hsocket.symm.trans hfed.before)
      exact ⟨h.sinks, h.collector.snoc hstep, h.linked.delivered hlink hconn hfed⟩
  | answered y x count room socket conn sinks hlink hsocket hconn hdata =>
      have hstep : Sinks.machine.step s.sinks
          (.data x ((socket.written.drop conn.received.length).take count) room) = some sinks := hdata
      exact ⟨h.sinks.snoc hstep, h.collector,
        (h.linked.answered hlink hsocket hconn).sinks (Sinks.data_writes hdata)⟩
  | sink label sinks hread hstep =>
      have hwrites : s.sinks.Writes sinks := Sinks.step_writes hstep (by
        rintro x octets room rfl
        exact absurd hread (by simp [isRead]))
      exact ⟨h.sinks.snoc hstep, h.collector, h.linked.sinks hwrites⟩
  | collector label collector hown hstep =>
      have hsame := Collector.step_sameStreams hstep (by
        rintro y chunk rfl
        exact absurd hown (by simp [isOwn]))
      have hlength : collector.sockets.length = s.collector.sockets.length := by
        refine hsame.length.resolve_left ?_
        rintro rfl
        exact absurd hown (by simp [isOwn])
      exact ⟨h.sinks, h.collector.snoc hstep, h.linked.collector hsame hlength⟩

theorem parts_of_reachable (h : (machine setup).Reachable s) : Parts setup s :=
  h.invariant ⟨Machine.reachable_init, Machine.reachable_init, linked_init setup⟩
    (fun _ _ _ _ hparts hstep => hparts.effect (step_effect hstep))

/-! ## Frames and lines -/

theorem Linked.link_inj (h : Linked s) {y y' x : Nat} (hy : s.links[y]? = some x)
    (hy' : s.links[y']? = some x) : y = y' :=
  (List.getElem?_inj (Table.lt_of_getElem? hy) h.nodup).mp (hy.trans hy'.symm)

/-- The frames queued from a socket are the first lines of its connection. -/
theorem Parts.frames (h : Parts setup s) {y x : Nat} (hlink : s.links[y]? = some x) :
    ∃ conn, s.sinks.connections[x]? = some conn ∧
      s.collector.framesOf y <+: conn.sent.map SinkItem.line := by
  have hy := Table.lt_of_getElem? hlink
  rw [h.linked.sockets] at hy
  obtain ⟨conn, hconn, hread, _⟩ := h.linked.streams y x _ hlink (List.getElem?_eq_getElem hy)
  have hlines := (Sinks.wired_of_reachable h.sinks).isLine_sent hconn
  have hframed := (Collector.framed_of_reachable h.collector).stream y _ (List.getElem?_eq_getElem hy)
  exact ⟨conn, hconn, hframed.trans (Lines.cut_of_start hlines hread)⟩

end CollectorNetwork

end SecureMcp
