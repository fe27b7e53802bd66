import SecureMcp.Collector.Durable

set_option autoImplicit false

/-! # The records of a run

A call of a sink adds one record, that of its client and its line, and no other step adds any. What a
record is about never changes, and its promise settles once. -/

namespace SecureMcp

namespace Sinks

variable {s s' s'' : Sinks} {c x : Nat} {client : SocketAuditSink} {l : Label}

/-- The same records, some of whose promises may have settled. -/
structure Settles (s s' : Sinks) : Prop where
  length : s'.records.length = s.records.length
  same : ∀ (r : Nat) record, s.records[r]? = some record →
    ∃ record', s'.records[r]? = some record' ∧ SameRecord record record'

theorem Settles.of_records (h : s'.records = s.records) : Settles s s' :=
  ⟨by rw [h], fun _ record hrecord => ⟨record, by rw [h]; exact hrecord, .refl record⟩⟩

theorem Settles.of_settle (items : List SinkItem) (promise : Settlement)
    (h : s'.records = (s.settle items promise).records) : Settles s s' := by
  refine ⟨?_, fun r record hrecord => ?_⟩
  · rw [h, settle, List.length_mapIdx]
  · obtain ⟨record', hrecord', hsame, _⟩ := settle_same items promise r record hrecord
    exact ⟨record', by rw [h]; exact hrecord', hsame⟩

theorem call_records (s : Sinks) (c : Nat) (client : SocketAuditSink) (line : Bytes) :
    (s.call c client line).records =
      s.records ++ [{ client := c, line, promise := .pending }] := by
  unfold call
  split <;> rfl

/-- A call adds the record of its event. -/
theorem send_records {event : Json} {room : Nat} (h : s.send c event room = some s') :
    ∃ promise, s'.records = s.records ++ [{ client := c, line := event.line, promise }] := by
  unfold send at h
  split at h
  · exact absurd h (by simp)
  · split at h
    · obtain rfl := Option.some.inj h
      exact ⟨.rejected, rfl⟩
    · obtain rfl := Option.some.inj h
      exact ⟨.pending, by rw [flush_records, call_records]⟩

theorem fail_settles (c : Nat) (client : SocketAuditSink) : Settles s (s.fail c client) :=
  .of_settle client.pending .rejected rfl

theorem data_settles {octets : Bytes} {room : Nat} (h : s.data x octets room = some s') :
    Settles s s' := by
  obtain ⟨conn, client, _, _, ⟨_, _, rfl⟩ | ⟨_, _, rfl⟩ | ⟨_, rfl⟩⟩ := data_cases h
  · have hread : ∀ items promise, ((s.read x octets).settle items promise).records =
        (s.settle items promise).records := by
      intro items promise
      rw [settle, settle, read_records]
    exact .of_settle client.pending .rejected (hread _ _)
  · refine .of_settle (client.pending.take octets.length) .fulfilled ?_
    rw [flush_records]
    show ((s.read x octets).settle _ _).records = _
    rw [settle, settle, read_records]
  · exact .of_records (read_records ..)

/-- Every step but a call keeps the records. -/
theorem step_settles (h : s.step l = some s') (hl : ∀ c event room, l ≠ .send c event room) :
    Settles s s' := by
  cases l with
  | socketAuditSink =>
      obtain rfl := Option.some.inj h
      exact .of_records rfl
  | send c event room => exact absurd rfl (hl c event room)
  | close c =>
      simp only [step, close] at h
      split at h
      · exact absurd h (by simp)
      · split at h
        · obtain rfl := Option.some.inj h
          exact .of_records rfl
        · obtain rfl := Option.some.inj h
          exact fail_settles c _
  | expire c =>
      simp only [step, expire] at h
      split at h
      · exact absurd h (by simp)
      · split at h
        · exact absurd h (by simp)
        · obtain rfl := Option.some.inj h
          exact fail_settles c _
  | connect x room =>
      have hstep : s.connect x room = some s' := h
      obtain ⟨conn, client, _, _, ⟨_, rfl⟩ | ⟨_, rfl⟩⟩ := onSocket_cases hstep
      · exact .of_records (flush_records ..)
      · exact .of_records rfl
  | drain x room =>
      have hstep : s.drain x room = some s' := h
      obtain ⟨conn, client, _, _, ⟨_, rfl⟩ | ⟨_, rfl⟩⟩ := onSocket_cases hstep
      · exact .of_records (flush_records ..)
      · exact .of_records rfl
  | data x octets room => exact data_settles h
  | error x =>
      have hstep : s.error x = some s' := h
      obtain ⟨conn, client, _, _, ⟨_, rfl⟩ | ⟨_, rfl⟩⟩ := onSocket_cases hstep
      · split
        · exact .of_records rfl
        · exact fail_settles _ _
      · exact .of_records rfl
  | disconnected x =>
      have hstep : s.disconnected x = some s' := h
      obtain ⟨conn, client, _, _, ⟨_, rfl⟩ | ⟨_, rfl⟩⟩ := onSocket_cases hstep
      · split
        · exact .of_records rfl
        · exact .of_settle client.pending .rejected rfl
      · exact .of_records rfl

end Sinks

namespace CollectorNetwork

variable {setup : JournalSetup} {s s' : CollectorNetwork} {l : Label}

/-- The client that a step of the network calls, with the event. -/
def Label.sends : Label → Option (Nat × Json)
  | .sink (.send c event _) => some (c, event)
  | _ => none

/-- Every step of the network but a call keeps the records. -/
theorem step_settles (h : s.step setup l = some s') (hl : l.sends = none) :
    Sinks.Settles s.sinks s'.sinks := by
  cases l with
  | accept x =>
      simp only [step, accept] at h
      split at h
      · obtain ⟨collector, _, rfl⟩ := Option.map_eq_some_iff.mp h
        exact .of_records rfl
      · exact absurd h (by simp)
  | deliver y count =>
      simp only [step, deliver] at h
      split at h
      · split at h
        · exact absurd h (by simp)
        · split at h
          · exact absurd h (by simp)
          · obtain ⟨collector, _, rfl⟩ := Option.map_eq_some_iff.mp h
            exact .of_records rfl
      · exact absurd h (by simp)
  | answer y count room =>
      simp only [step, answer] at h
      split at h
      · split at h
        · exact absurd h (by simp)
        · split at h
          · exact absurd h (by simp)
          · obtain ⟨sinks, hdata, rfl⟩ := Option.map_eq_some_iff.mp h
            exact Sinks.data_settles hdata
      · exact absurd h (by simp)
  | sink label =>
      simp only [step] at h
      split at h
      · exact absurd h (by simp)
      · obtain ⟨sinks, hstep, rfl⟩ := Option.map_eq_some_iff.mp h
        refine Sinks.step_settles hstep ?_
        rintro c event room rfl
        exact absurd hl (by simp [Label.sends])
  | collector label =>
      simp only [step] at h
      split at h
      · obtain ⟨collector, _, rfl⟩ := Option.map_eq_some_iff.mp h
        exact .of_records rfl
      · exact absurd h (by simp)

/-- A call adds one record. -/
theorem send_records {c : Nat} {event : Json} (h : s.step setup l = some s')
    (hl : l.sends = some (c, event)) :
    ∃ promise, s'.sinks.records = s.sinks.records ++ [{ client := c, line := event.line, promise }] := by
  cases l with
  | sink label =>
      cases label with
      | send c' event' room =>
          obtain ⟨rfl, rfl⟩ := Prod.mk.inj (Option.some.inj hl)
          simp only [step] at h
          split at h
          · exact absurd h (by simp)
          · obtain ⟨sinks, hstep, rfl⟩ := Option.map_eq_some_iff.mp h
            exact Sinks.send_records hstep
      | _ => exact absurd hl (by simp [Label.sends])
  | _ => exact absurd hl (by simp [Label.sends])

end CollectorNetwork

end SecureMcp
