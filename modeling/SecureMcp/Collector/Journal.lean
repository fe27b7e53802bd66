import SecureMcp.Collector.Durable
import SecureMcp.Collector.Records

set_option autoImplicit false

/-! # The journal only grows

Nothing that has been appended is taken back, so a line keeps its place, and a record that comes later
comes after every line that is there. -/

namespace SecureMcp

namespace Collector

variable {setup : JournalSetup} {k k' k'' : Collector}

/-- The histories of `k'` go on from those of `k`. -/
structure Extends (k k' : Collector) : Prop where
  journal : k.journal <+: k'.journal
  handed : k.handed <+: k'.handed
  durable : k.durable <+: k'.durable

theorem Extends.refl (k : Collector) : Extends k k :=
  ⟨List.prefix_rfl, List.prefix_rfl, List.prefix_rfl⟩

theorem Extends.trans (h : Extends k k') (h' : Extends k' k'') : Extends k k'' :=
  ⟨h.journal.trans h'.journal, h.handed.trans h'.handed, h.durable.trans h'.durable⟩

theorem push_histories (y : Nat) (frame : Bytes) : Extends k (k.push y frame) := by
  unfold push flush
  split <;> exact ⟨List.prefix_rfl, List.prefix_rfl, List.prefix_rfl⟩

theorem Move.extends (h : Move setup k k') : Extends k k' := by
  cases h with
  | pushed y frame => exact push_histories y frame
  | started => exact ⟨List.prefix_rfl, List.prefix_append _ _, List.prefix_rfl⟩
  | wrote => exact ⟨List.prefix_append _ _, List.prefix_rfl, List.prefix_rfl⟩
  | settled => exact ⟨List.prefix_rfl, List.prefix_rfl, List.prefix_append _ _⟩
  | accepted | quiet | finished | syncing | failed =>
      exact ⟨List.prefix_rfl, List.prefix_rfl, List.prefix_rfl⟩

theorem step_extends {l : Label} (h : k.step setup l = some k') : Extends k k' :=
  (step_moves h).invariant (I := Extends k) (Extends.refl k)
    (fun _ _ hk hmove => hk.trans hmove.extends)

theorem extends_of_leads (h : (machine setup).Leads k k') : Extends k k' :=
  h.rel Extends.refl (fun _ _ _ => Extends.trans) (fun _ _ _ hstep => step_extends hstep)

/-- The complete lines of a prefix. -/
theorem cut_prefix {data data' : Bytes} (h : data <+: data') :
    (Lines.cut data).1 <+: (Lines.cut data').1 := by
  obtain ⟨more, rfl⟩ := h
  rw [Lines.cut_append_remainder]
  exact List.prefix_append _ _

theorem Extends.appendedLines (h : Extends k k') :
    k.appendedLines setup <+: k'.appendedLines setup := by
  obtain ⟨more, hmore⟩ := cut_prefix h.journal
  rw [Collector.appendedLines, Collector.appendedLines, ← hmore, List.drop_append]
  exact List.prefix_append _ _

/-- What has been synced stays synced. -/
theorem Extends.synced (h : Extends k k') (hreach : (machine setup).Reachable k)
    (hreach' : (machine setup).Reachable k') :
    k.journal.take k.synced <+: k'.journal.take k'.synced := by
  have hsynced : ∀ {k : Collector}, (machine setup).Reachable k →
      k.journal.take k.synced = setup.journal ++ dataOf k.durable := by
    intro k hk
    have hbooks := books_of_reachable hk
    obtain ⟨more, hmore⟩ := hbooks.durable
    rw [hbooks.synced, ← hmore, List.take_left]
  obtain ⟨more, hmore⟩ := h.durable
  rw [hsynced hreach, hsynced hreach', ← hmore, dataOf_append, ← List.append_assoc]
  exact List.prefix_append _ _

end Collector

namespace CollectorNetwork

variable {setup : JournalSetup} {s s' s'' : CollectorNetwork} {r p : Nat}

/-- The histories of `s'` go on from those of `s`. -/
structure Extends (s s' : CollectorNetwork) : Prop where
  collector : Collector.Extends s.collector s'.collector
  links : s.links <+: s'.links
  written : ∀ r x k, s.sinks.WrittenAt r x k → s'.sinks.WrittenAt r x k

theorem Extends.refl (s : CollectorNetwork) : Extends s s :=
  ⟨.refl _, List.prefix_rfl, fun _ _ _ hw => hw⟩

theorem Extends.trans (h : Extends s s') (h' : Extends s' s'') : Extends s s'' :=
  ⟨h.collector.trans h'.collector, h.links.trans h'.links,
    fun r x k hw => h'.written r x k (h.written r x k hw)⟩

theorem moves_written {sinks sinks' : Sinks} (h : Sinks.Moves sinks sinks') (r x k : Nat)
    (hw : sinks.WrittenAt r x k) : sinks'.WrittenAt r x k :=
  h.invariant (I := fun sinks => sinks.WrittenAt r x k) hw (fun _ _ hw hmove => hw.move hmove)

theorem Effect.extends (h : Effect setup s s') : Extends s s' := by
  cases h with
  | accepted x collector hx hnew haccept =>
      have hstep : s.collector.step setup .accept = some collector := haccept
      exact ⟨Collector.step_extends hstep, List.prefix_append _ _, fun _ _ _ hw => hw⟩
  | delivered y x count socket conn collector hlink hsocket hconn hdata =>
      have hstep : s.collector.step setup
          (.data y ((conn.stream.drop socket.received.length).take count)) = some collector := hdata
      exact ⟨Collector.step_extends hstep, List.prefix_rfl, fun _ _ _ hw => hw⟩
  | answered y x count room socket conn sinks hlink hsocket hconn hdata =>
      exact ⟨.refl _, List.prefix_rfl, moves_written (Sinks.data_moves hdata)⟩
  | sink label sinks hread hstep =>
      exact ⟨.refl _, List.prefix_rfl, moves_written (Sinks.step_moves hstep)⟩
  | collector label collector hown hstep =>
      exact ⟨Collector.step_extends hstep, List.prefix_rfl, fun _ _ _ hw => hw⟩

theorem extends_of_leads (h : (machine setup).Leads s s') : Extends s s' :=
  h.rel Extends.refl (fun _ _ _ => Extends.trans) (fun _ _ _ hstep => (step_effect hstep).extends)

/-- A record keeps its place. -/
theorem Appears.extends (hp : s.Appears setup r p) (h : Extends s s') : s'.Appears setup r p := by
  obtain ⟨hlt, x, k, y, entry, hwritten, hlink, hnth⟩ := hp
  obtain ⟨more, hmore⟩ := h.collector.handed
  refine ⟨Nat.lt_of_lt_of_le hlt h.collector.appendedLines.length_le, x, k, y, entry,
    h.written r x k hwritten, Table.getElem?_of_prefix h.links hlink, ?_⟩
  rw [← hmore]
  exact hnth.append

/-- A record that was not there comes after the lines that were. -/
theorem Appears.later (hs : (machine setup).Reachable s) (h : Extends s s')
    (hr : s.sinks.records.length ≤ r) (hp : s'.Appears setup r p) :
    (s.collector.appendedLines setup).length ≤ p := by
  by_contra hlt
  have hline := List.getElem?_eq_getElem (Nat.lt_of_not_le hlt)
  obtain ⟨r', record, hp', hrecord, _⟩ := (parts_of_reachable hs).source hline
  obtain rfl := (hp'.extends h).record_unique hp
  exact absurd (Table.lt_of_getElem? hrecord) (Nat.not_lt.mpr hr)

/-- No step takes a record back. -/
theorem records_length_le (h : (machine setup).Leads s s') :
    s.sinks.records.length ≤ s'.sinks.records.length := by
  refine h.rel (R := fun s s' => s.sinks.records.length ≤ s'.sinks.records.length)
    (fun _ => Nat.le_refl _) (fun _ _ _ => Nat.le_trans) (fun s l s' hstep => ?_)
  cases hsends : l.sends with
  | none => exact Nat.le_of_eq (step_settles hstep hsends).length.symm
  | some call =>
      obtain ⟨promise, hrecords⟩ := send_records hstep hsends
      rw [hrecords, List.length_append]
      exact Nat.le_add_right _ _

end CollectorNetwork

end SecureMcp
