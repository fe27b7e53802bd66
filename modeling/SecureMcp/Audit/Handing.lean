import SecureMcp.Audit.Accounting

set_option autoImplicit false

/-! # Where the dispatcher and its sink meet

Four labels are about the sink: it is called, its promise settles, and the same for its `close` hook.
Whoever puts a real sink behind the dispatcher decides these four; every other step is `Quiet`, it
neither hands anything to the sink nor learns from it. -/

namespace SecureMcp

namespace AuditDispatcher

variable {ε : Type} {d d' : AuditDispatcher ε} {l : Label ε} {i : Nat}

/-- The steps that a sink decides. -/
def Label.isSink : Label ε → Bool
  | .callSink _ _ | .settle _ _ | .callSinkClose _ | .settleSinkClose _ => true
  | _ => false

structure Quiet (d d' : AuditDispatcher ε) : Prop where
  handed : d'.handed = d.handed
  /-- What the rows say about the sink stays, and a new row says nothing. -/
  rows : ∀ (j : Nat) w', d'.writes[j]? = some w' →
    (∃ w, d.writes[j]? = some w ∧ w'.event = w.event ∧ w'.work = w.work) ∨
      (d.writes.length ≤ j ∧ (w'.work = .refused ∨ w'.work = .deferred))

theorem Quiet.refl (d : AuditDispatcher ε) : Quiet d d :=
  ⟨rfl, fun _ w' hw' => Or.inl ⟨w', hw', rfl, rfl⟩⟩

theorem Quiet.of_writes (hhanded : d'.handed = d.handed) (hwrites : d'.writes = d.writes) :
    Quiet d d' :=
  ⟨hhanded, fun _ w' hw' => Or.inl ⟨w', hwrites ▸ hw', rfl, rfl⟩⟩

theorem Quiet.write (event : ε) (scope : Option Nat) : Quiet d (d.write event scope) := by
  obtain ⟨row, hwrites, _, _, hrow⟩ := write_row d event scope
  refine ⟨?_, fun j w' hw' => ?_⟩
  · unfold AuditDispatcher.write
    split <;> rfl
  · rw [hwrites] at hw'
    rcases Table.getElem?_append_cases hw' with hold | ⟨hj, rfl⟩
    · exact Or.inl ⟨w', hold, rfl, rfl⟩
    · exact Or.inr ⟨Nat.le_of_eq hj.symm, hrow.imp And.left And.left⟩

theorem Quiet.set {w w' : Write ε} (hi : d.writes[i]? = some w)
    (hwrites : d'.writes = d.writes.set i w') (hevent : w'.event = w.event)
    (hwork : w'.work = w.work) (hhanded : d'.handed = d.handed) : Quiet d d' := by
  refine ⟨hhanded, fun j b hb => Or.inl ?_⟩
  rw [hwrites] at hb
  rcases Table.getElem?_set_cases hb with ⟨rfl, rfl⟩ | ⟨_, hold⟩
  · exact ⟨w, hi, hevent, hwork⟩
  · exact ⟨b, hold, rfl, rfl⟩

/-- A step of `close` or of the timers of `closeSink` leaves the rows alone. -/
theorem quiet_close (h : d.step l = some d')
    (hl : l = .close ∨ (∃ k, l = .drain k ∨ l = .closeExpire k ∨ l = .closeResume k ∨
      l = .closeReturn k) ∨ l = .expireSinkClose ∨ l = .resumeSinkClose) : Quiet d d' := by
  rcases hl with rfl | ⟨k, rfl | rfl | rfl | rfl⟩ | rfl | rfl
  · exact .of_writes (by rw [← Option.some.inj h]; rfl) (by rw [← Option.some.inj h]; rfl)
  · obtain ⟨c, _, h⟩ := Option.bind_eq_some_iff.mp h
    split at h
    · exact .of_writes (by rw [← Option.some.inj h]) (by rw [← Option.some.inj h])
    · exact absurd h (by simp)
  · obtain ⟨c, _, h⟩ := Option.bind_eq_some_iff.mp h
    split at h
    · exact .of_writes (by rw [← Option.some.inj h]) (by rw [← Option.some.inj h])
    · exact absurd h (by simp)
  · obtain ⟨c, _, h⟩ := Option.bind_eq_some_iff.mp h
    split at h
    · exact .of_writes (by rw [← Option.some.inj h]) (by rw [← Option.some.inj h])
    · exact absurd h (by simp)
  · obtain ⟨c, _, h⟩ := Option.bind_eq_some_iff.mp h
    obtain ⟨sink, _, h⟩ := Option.bind_eq_some_iff.mp h
    split at h
    · exact .of_writes (by rw [← Option.some.inj h]) (by rw [← Option.some.inj h])
    · exact .of_writes (by rw [← Option.some.inj h]) (by rw [← Option.some.inj h])
    · exact absurd h (by simp)
  · obtain ⟨c, _, h⟩ := Option.bind_eq_some_iff.mp h
    split at h
    · exact .of_writes (by rw [← Option.some.inj h]) (by rw [← Option.some.inj h])
    · exact absurd h (by simp)
  · obtain ⟨c, _, h⟩ := Option.bind_eq_some_iff.mp h
    split at h
    · exact .of_writes (by rw [← Option.some.inj h]) (by rw [← Option.some.inj h])
    · exact .of_writes (by rw [← Option.some.inj h]) (by rw [← Option.some.inj h])
    · exact absurd h (by simp)

/-- Every step but the four is quiet. -/
theorem step_quiet (h : d.step l = some d') (hl : l.isSink = false) : Quiet d d' := by
  cases l with
  | write event scope =>
      obtain rfl := Option.some.inj h
      exact .write event scope
  | callSink i ret | settle i ok | callSinkClose ret | settleSinkClose ok => exact absurd hl (by simp [Label.isSink])
  | expire i =>
      obtain ⟨w, hi, h⟩ := Option.bind_eq_some_iff.mp h
      split at h
      · obtain rfl := Option.some.inj h
        exact .set hi rfl rfl rfl rfl
      · exact absurd h (by simp)
  | resume i =>
      obtain ⟨w, hi, h⟩ := Option.bind_eq_some_iff.mp h
      split at h
      · obtain rfl := Option.some.inj h
        exact .set hi rfl rfl rfl rfl
      · obtain rfl := Option.some.inj h
        exact .set hi rfl rfl rfl rfl
      · exact absurd h (by simp)
  | close => exact quiet_close h (by simp)
  | drain k | closeExpire k | closeResume k | closeReturn k => exact quiet_close h (by simp)
  | expireSinkClose | resumeSinkClose => exact quiet_close h (by simp)

/-- The sink is called with the event of a write, and returns a promise. -/
theorem callSink_promise (h : d.callSink i .promise = some d') :
    ∃ w, d.writes[i]? = some w ∧ w.work = .deferred ∧
      d' = { d with handed := d.handed ++ [i], writes := d.writes.set i { w with work := .called } } := by
  obtain ⟨w, hi, h⟩ := Option.bind_eq_some_iff.mp h
  split at h
  · next hw => exact ⟨w, hi, hw, (Option.some.inj h).symm⟩
  · exact absurd h (by simp)

/-- The promise that the sink returned for a write settles. -/
theorem settle_called {ok : Bool} (h : d.settle i ok = some d') :
    ∃ w, d.writes[i]? = some w ∧ w.work = .called ∧ d' = d.settleWork i w ok := by
  obtain ⟨w, hi, h⟩ := Option.bind_eq_some_iff.mp h
  split at h
  · next hw => exact ⟨w, hi, hw, (Option.some.inj h).symm⟩
  · exact absurd h (by simp)

/-- A write is handed over once. -/
theorem Accounting.nodup_handed (h : Accounting d) : d.handed.Nodup := by
  rw [List.nodup_iff_count_le_one]
  intro i
  by_cases hmem : i ∈ d.handed
  · rw [h.calls i _ (List.getElem?_eq_getElem (h.handed i hmem))]
    split <;> omega
  · rw [List.count_eq_zero.mpr hmem]
    exact Nat.zero_le 1

/-- A lost write latches the dispatcher. -/
theorem Accounting.unhealthy (h : Accounting d) {w : Write ε} (hw : d.writes[i]? = some w)
    (hdelivery : w.delivery = .rejected) : d.healthy = false := by
  have hcount : 0 < d.writes.countP (fun w => w.delivery == .rejected) :=
    List.countP_pos_iff.mpr ⟨w, List.mem_of_getElem? hw, by simp [hdelivery]⟩
  have hlosses := h.losses
  by_contra hne
  have hzero := healthy_iff.mp (by simpa using hne)
  omega

/-- While nothing is lost, what has settled is acknowledged. -/
theorem Accounting.fulfilled_of_settled (h : Accounting d) (hhealthy : d.healthy = true)
    {w : Write ε} (hw : d.writes[i]? = some w) (hsettled : w.delivery.settled = true) :
    w.delivery = .fulfilled := by
  cases hdelivery : w.delivery with
  | fulfilled => rfl
  | rejected => exact absurd (hhealthy.symm.trans (h.unhealthy hw hdelivery)) (by simp)
  | racing | won | lost =>
      rw [hdelivery] at hsettled
      exact absurd hsettled (by simp [Delivery.settled])

theorem callSinkClose_writes {ret : SinkReturn} (h : d.callSinkClose ret = some d') :
    d'.handed = d.handed ∧ d'.writes = d.writes := by
  obtain ⟨c, _, h⟩ := Option.bind_eq_some_iff.mp h
  split at h
  · cases ret <;> exact ⟨by rw [← Option.some.inj h], by rw [← Option.some.inj h]⟩
  · exact absurd h (by simp)

/-- A row that has settled well was acknowledged by the sink. -/
theorem Accounting.fulfilled (h : Accounting d) {w : Write ε} (hi : d.writes[i]? = some w)
    (hdelivery : w.delivery = .fulfilled) : w.work = .fulfilled := by
  have hrow := h.rows i w hi
  have haccepted : w.work ≠ .refused := by
    intro hrefused
    rw [(hrow.refused hrefused).1] at hdelivery
    exact absurd hdelivery (by simp)
  have hhead := (hrow.fulfilled haccepted).mp (Or.inr hdelivery)
  have hmem : Outside.sinkFulfilled ∈ w.observed.filter (fun o => o != .timer) :=
    List.mem_filter.mpr ⟨List.mem_of_head? hhead, rfl⟩
  rw [hrow.sink] at hmem
  cases hwork : w.work with
  | fulfilled => rfl
  | refused | deferred | called | rejected => simp [hwork] at hmem

end AuditDispatcher

end SecureMcp
