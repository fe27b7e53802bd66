import Mathlib.Data.List.Infix
import SecureMcp.Collector.Journal
import SecureMcp.Collector.Restarts

set_option autoImplicit false

/-! # What the sinks and each collector have of each other

`Linked` is about the one collector that there is. With several of them, each has its own connections,
and of a connection that it has not accepted a collector knows nothing (`Joined`). The countings of
lines, frames and acknowledgements then agree for each collector as they do for the only one. -/

namespace SecureMcp

structure Joined (sinks : Sinks) (life : Lifetime) : Prop where
  collector : (Collector.machine life.setup).Reachable life.collector
  sockets : life.links.length = life.collector.sockets.length
  nodup : life.links.Nodup
  /-- What one end has read is the start of what the other wrote. -/
  streams : ∀ (y x : Nat) socket, life.links[y]? = some x → life.collector.sockets[y]? = some socket →
    ∃ conn, sinks.connections[x]? = some conn ∧ socket.received <+: conn.stream ∧
      conn.received <+: socket.written

namespace Joined

variable {sinks sinks' : Sinks} {life : Lifetime} {x y : Nat}

theorem start (sinks : Sinks) (setup : JournalSetup) :
    Joined sinks { setup, collector := .start setup } := by
  refine ⟨Machine.reachable_init, rfl, List.nodup_nil, fun y x socket hlink => ?_⟩
  exact absurd hlink (by simp)

theorem lt_of_link (h : Joined sinks life) (hlink : life.links[y]? = some x) :
    ∃ socket conn, life.collector.sockets[y]? = some socket ∧ sinks.connections[x]? = some conn := by
  have hy := Table.lt_of_getElem? hlink
  rw [h.sockets] at hy
  have hsocket := List.getElem?_eq_getElem hy
  obtain ⟨conn, hconn, _⟩ := h.streams y x _ hlink hsocket
  exact ⟨_, conn, hsocket, hconn⟩

/-! ## Steps -/

/-- The clients write, and read no more than they were sent. -/
theorem mono (h : Joined sinks life)
    (hconns : ∀ (y x : Nat) socket conn, life.links[y]? = some x →
      life.collector.sockets[y]? = some socket → sinks.connections[x]? = some conn →
      conn.received <+: socket.written → ∃ conn', sinks'.connections[x]? = some conn' ∧
        conn.sent <+: conn'.sent ∧ conn'.received <+: socket.written) : Joined sinks' life := by
  refine ⟨h.collector, h.sockets, h.nodup, fun y x socket hlink hsocket => ?_⟩
  obtain ⟨conn, hconn, hread, hanswered⟩ := h.streams y x socket hlink hsocket
  obtain ⟨conn', hconn', hsent, hwritten⟩ := hconns y x socket conn hlink hsocket hconn hanswered
  exact ⟨conn', hconn', hread.trans (CollectorNetwork.stream_mono hsent), hwritten⟩

theorem writes (h : Joined sinks life) (hwrites : sinks.Writes sinks') : Joined sinks' life := by
  refine h.mono (fun y x socket conn hlink hsocket hconn hanswered => ?_)
  have hx := Nat.lt_of_lt_of_le (Table.lt_of_getElem? hconn) hwrites.1
  refine ⟨sinks'.connections[x], List.getElem?_eq_getElem hx, ?_⟩
  rcases hwrites.2 x _ (List.getElem?_eq_getElem hx) with ⟨old, hold, hsent, hreceived⟩ | ⟨hnew, _⟩
  · obtain rfl := Option.some.inj (hconn.symm.trans hold)
    rw [hreceived]
    exact ⟨hsent, hanswered⟩
  · exact absurd (Table.lt_of_getElem? hconn) (Nat.not_lt.mpr hnew)

/-- A client reads on a connection of this collector what comes next there. -/
theorem reads (h : Joined sinks life) {count : Nat} {socket : CollectorSocket} {conn : Connection}
    (hlink : life.links[y]? = some x) (hsocket : life.collector.sockets[y]? = some socket)
    (hconn : sinks.connections[x]? = some conn) :
    Joined (sinks.read x ((socket.written.drop conn.received.length).take count)) life := by
  refine h.mono (fun z x' other conn' hlink' hother hconn' hanswered => ?_)
  rw [Sinks.read_connections _ hconn]
  by_cases hx : x' = x
  · subst hx
    obtain rfl := (List.getElem?_inj (Table.lt_of_getElem? hlink) h.nodup).mp (hlink.trans hlink'.symm)
    obtain rfl := Option.some.inj (hsocket.symm.trans hother)
    obtain rfl := Option.some.inj (hconn.symm.trans hconn')
    refine ⟨_, Table.getElem?_set_of_some hconn, List.prefix_rfl, ?_⟩
    obtain ⟨more, hmore⟩ := hanswered
    rw [← hmore, List.drop_left]
    exact (List.prefix_append_right_inj _).mpr (List.take_prefix _ _)
  · rw [Table.getElem?_set_of_ne hx]
    exact ⟨conn', hconn', List.prefix_rfl, hanswered⟩

/-- A client reads on a connection of another collector. -/
theorem reads_other (h : Joined sinks life) (hout : x ∉ life.links) (octets : Bytes) :
    Joined (sinks.read x octets) life := by
  refine h.mono (fun z x' other conn' hlink' hother hconn' hanswered => ?_)
  refine ⟨conn', ?_, List.prefix_rfl, hanswered⟩
  have hx : x' ≠ x := by
    rintro rfl
    exact hout (List.mem_of_getElem? hlink')
  unfold Sinks.read
  split
  · exact hconn'
  · exact (Table.getElem?_set_of_ne hx).trans hconn'

/-- The collector makes a step of its own, or accepts, or reads. -/
theorem works (h : Joined sinks life) {t : CollectorNetwork}
    (hunread : ∀ (x : Nat) conn, sinks.connections[x]? = some conn → x ∉ life.links →
      x ∈ t.links → conn.received = [])
    (heffect : CollectorNetwork.Effect life.setup (life.network sinks) t) :
    Joined sinks (life.after t) := by
  cases heffect with
  | accepted x collector hx hnew haccept =>
      have hsockets : collector.sockets = life.collector.sockets ++ [({} : CollectorSocket)] := by
        replace haccept : life.collector.accept = some collector := haccept
        unfold Collector.accept at haccept
        split at haccept
        · obtain rfl := Option.some.inj haccept
          rfl
        · exact absurd haccept (by simp)
      refine ⟨h.collector.snoc (l := .accept) haccept, ?_, ?_, fun y x' socket hlink hsocket => ?_⟩
      · show (life.links ++ [x]).length = collector.sockets.length
        rw [hsockets, List.length_append, List.length_append, h.sockets]
        rfl
      · refine List.nodup_append.mpr ⟨h.nodup, List.nodup_singleton x, ?_⟩
        rintro a ha b hb rfl
        exact hnew (by rw [← List.mem_singleton.mp hb]; exact ha)
      · replace hsocket : collector.sockets[y]? = some socket := hsocket
        rw [hsockets] at hsocket
        rcases Table.getElem?_append_cases hlink with hold | ⟨rfl, rfl⟩
        · rcases Table.getElem?_append_cases hsocket with hin | ⟨rfl, _⟩
          · exact h.streams y x' socket hold hin
          · have hlt : life.collector.sockets.length < life.links.length := Table.lt_of_getElem? hold
            rw [h.sockets] at hlt
            exact absurd hlt (Nat.lt_irrefl _)
        · rcases Table.getElem?_append_cases hsocket with hin | ⟨_, rfl⟩
          · have hlt : life.links.length < life.collector.sockets.length := Table.lt_of_getElem? hin
            rw [h.sockets] at hlt
            exact absurd hlt (Nat.lt_irrefl _)
          · have hconn : sinks.connections[x']? = some _ := List.getElem?_eq_getElem hx
            refine ⟨_, hconn, List.nil_prefix, ?_⟩
            rw [hunread x' _ hconn hnew (List.mem_append_right _ List.mem_cons_self)]
  | delivered y x count socket conn collector hlink hsocket hconn hdata =>
      have hstep : (Collector.machine life.setup).step life.collector
          (.data y ((conn.stream.drop socket.received.length).take count)) = some collector := hdata
      obtain ⟨old, new, j, hfed⟩ := Collector.data_fed hdata
      obtain rfl := Option.some.inj (hsocket.symm.trans hfed.before)
      refine ⟨h.collector.snoc hstep, ?_, h.nodup, fun z x' other hlink' hother => ?_⟩
      · show life.links.length = collector.sockets.length
        rw [hfed.sockets, List.length_set]
        exact h.sockets
      · replace hother : collector.sockets[z]? = some other := hother
        rw [hfed.sockets] at hother
        rcases Table.getElem?_set_cases hother with ⟨rfl, rfl⟩ | ⟨_, hin⟩
        · obtain ⟨conn', hconn', hread, hanswered⟩ := h.streams z x' socket hlink' hfed.before
          obtain rfl := Option.some.inj (hlink.symm.trans hlink')
          obtain rfl := Option.some.inj (hconn.symm.trans hconn')
          refine ⟨conn, hconn, ?_, by rw [hfed.written]; exact hanswered⟩
          rw [hfed.received]
          obtain ⟨more, hmore⟩ := hread
          rw [← hmore, List.drop_left]
          exact (List.prefix_append_right_inj _).mpr (List.take_prefix _ _)
        · exact h.streams z x' other hlink' hin
  | answered | sink => exact h
  | collector label collector hown hstep =>
      have hsame := Collector.step_sameStreams hstep (by
        rintro y chunk rfl
        exact absurd hown (by simp [CollectorNetwork.isOwn]))
      have hlength : collector.sockets.length = life.collector.sockets.length := by
        refine hsame.length.resolve_left ?_
        rintro rfl
        exact absurd hown (by simp [CollectorNetwork.isOwn])
      refine ⟨h.collector.snoc hstep, ?_, h.nodup, fun y x socket' hlink hsocket' => ?_⟩
      · show life.links.length = collector.sockets.length
        rw [hlength, h.sockets]
      · replace hsocket' : collector.sockets[y]? = some socket' := hsocket'
        have hy : y < life.collector.sockets.length := hlength ▸ Table.lt_of_getElem? hsocket'
        obtain ⟨socket, hsocket, hreceived, _, hwritten, _⟩ := hsame.old y socket' hsocket' hy
        obtain ⟨conn, hconn, hread, hanswered⟩ := h.streams y x socket hlink hsocket
        exact ⟨conn, hconn, by rw [hreceived]; exact hread, hanswered.trans hwritten⟩

/-! ## Lines, frames and acknowledgements -/

/-- The `k`-th frame of a socket is the `k`-th line of its connection. -/
theorem place (h : Joined sinks life) (hwired : Sinks.Wired sinks) {k p : Nat} {entry : QueuedFrame}
    (hlink : life.links[y]? = some x)
    (hentry : Occurrences.IsNth life.collector.handed (CollectorNetwork.ofSocket y) k p entry) :
    ∃ conn item, sinks.connections[x]? = some conn ∧ conn.sent[k]? = some item ∧
      item.line = entry.data := by
  obtain ⟨socket, conn, hsocket, hconn⟩ := h.lt_of_link hlink
  obtain ⟨conn', hconn', hstart, _⟩ := h.streams y x socket hlink hsocket
  obtain rfl := Option.some.inj (hconn.symm.trans hconn')
  have hread : (Lines.cut socket.received).1 <+: conn.sent.map SinkItem.line :=
    Lines.cut_of_start (hwired.isLine_sent hconn) hstart
  have hframes := ((Collector.framed_of_reachable h.collector).stream y socket hsocket).trans hread
  have hkept := (Collector.books_of_reachable h.collector).kept.2
  have hframe : (life.collector.framesOf y)[k]? = some entry.data := by
    have hfilter : life.collector.handed.filter (CollectorNetwork.ofSocket y) <+:
        life.collector.accepted.filter (CollectorNetwork.ofSocket y) := hkept.filter _
    show ((life.collector.accepted.filter (CollectorNetwork.ofSocket y)).map QueuedFrame.data)[k]? = _
    rw [List.getElem?_map, Table.getElem?_of_prefix hfilter hentry.filter]
    rfl
  have hline := Table.getElem?_of_prefix hframes hframe
  rw [List.getElem?_map] at hline
  obtain ⟨item, hitem, hsame⟩ := Option.map_eq_some_iff.mp hline
  exact ⟨conn, item, hconn, hitem, hsame⟩

/-- A record has one position among the lines of a collector. -/
theorem once (h : Joined sinks life) (hwired : Sinks.Wired sinks) {r p q : Nat}
    (hp : (life.network sinks).Appears life.setup r p)
    (hq : (life.network sinks).Appears life.setup r q) : p = q := by
  obtain ⟨_, x, k, y, entry, hwritten, hlink, hnth⟩ := hp
  obtain ⟨_, x', k', y', entry', hwritten', hlink', hnth'⟩ := hq
  obtain ⟨rfl, rfl⟩ := hwired.written_once hwritten hwritten'
  obtain rfl : y = y' :=
    (List.getElem?_inj (Table.lt_of_getElem? hlink) h.nodup).mp (hlink.trans hlink'.symm)
  exact hnth.unique hnth'

/-- Every line that a collector has added is that of a record. -/
theorem source (h : Joined sinks life) (hwired : Sinks.Wired sinks) {p : Nat} {line : Bytes}
    (hline : (life.collector.appendedLines life.setup)[p]? = some line) :
    ∃ r record, (life.network sinks).Appears life.setup r p ∧ sinks.records[r]? = some record ∧
      record.line = line := by
  obtain ⟨hlines, _⟩ := Collector.appendedLines_spec h.collector
  have hhanded := Table.getElem?_of_prefix hlines hline
  rw [List.getElem?_map] at hhanded
  obtain ⟨entry, hentry, rfl⟩ := Option.map_eq_some_iff.mp hhanded
  have haccepted : entry ∈ life.collector.accepted :=
    (Collector.books_of_reachable h.collector).kept.2.subset (List.mem_of_getElem? hentry)
  have hsocket := ((Collector.framed_of_reachable h.collector).frame entry haccepted).2
  rw [← h.sockets] at hsocket
  have hlink := List.getElem?_eq_getElem hsocket
  have hnth : Occurrences.IsNth life.collector.handed (CollectorNetwork.ofSocket entry.socket)
      ((life.collector.handed.take p).countP (CollectorNetwork.ofSocket entry.socket)) p entry :=
    ⟨hentry, beq_self_eq_true _, rfl⟩
  obtain ⟨conn, item, hconn, hitem, hsame⟩ := h.place hwired hlink hnth
  obtain ⟨record, hrecord, _, hrecordLine⟩ := hwired.item _ conn hconn item (List.mem_of_getElem? hitem)
  exact ⟨item.record, record, ⟨Table.lt_of_getElem? hline, _, _, _, entry,
    ⟨conn, item, hconn, hitem, rfl⟩, hlink, hnth⟩, hrecord, hrecordLine.trans hsame⟩

/-- A record that was acknowledged on a connection of this collector is one of its synced lines. -/
theorem acknowledged (h : Joined sinks life) (hwired : Sinks.Wired sinks) {k : Nat} {conn : Connection}
    {item : SinkItem} (hlink : life.links[y]? = some x) (hconn : sinks.connections[x]? = some conn)
    (hitem : conn.sent[k]? = some item) (hread : k < conn.received.length) :
    ∃ p, (life.network sinks).Appears life.setup item.record p ∧
      (life.collector.durable.map QueuedFrame.data)[p]? = some item.line := by
  have hbooks := Collector.books_of_reachable h.collector
  obtain ⟨_, hdurable, _⟩ := Collector.appendedLines_spec h.collector
  obtain ⟨socket, _, hsocket, _⟩ := h.lt_of_link hlink
  obtain ⟨conn', hconn', _, hanswered⟩ := h.streams y x socket hlink hsocket
  obtain rfl := Option.some.inj (hconn.symm.trans hconn')
  have hanswers := hbooks.answers y socket hsocket
  obtain ⟨p, entry, hnth⟩ := Occurrences.exists_isNth life.collector.durable
    (CollectorNetwork.ofSocket y) k
    (Nat.lt_of_lt_of_le hread (Nat.le_trans hanswered.length_le hanswers))
  obtain ⟨more, hmore⟩ := hbooks.kept.1
  have hnth' : Occurrences.IsNth life.collector.handed (CollectorNetwork.ofSocket y) k p entry := by
    rw [← hmore]
    exact hnth.append
  obtain ⟨conn', item', hconn', hitem', hsame⟩ := h.place hwired hlink hnth'
  obtain rfl := Option.some.inj (hconn.symm.trans hconn')
  obtain rfl := Option.some.inj (hitem.symm.trans hitem')
  have hline : (life.collector.durable.map QueuedFrame.data)[p]? = some item.line := by
    rw [List.getElem?_map, hnth.1, hsame]
    rfl
  exact ⟨p, ⟨Table.lt_of_getElem? (Table.getElem?_of_prefix hdurable hline), x, k, y, entry,
    ⟨conn, item, hconn, hitem, rfl⟩, hlink, hnth'⟩, hline⟩

end Joined

end SecureMcp
