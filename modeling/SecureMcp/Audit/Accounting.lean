import SecureMcp.Audit.Dispatcher

set_option autoImplicit false

/-! # Dispatcher accounting and the loss latch

`Effect` says once what a step of the dispatcher can do to the writes, the pending set and the
two loss counters; every invariant below is a case analysis on it. The claims about slots, sink
calls, races and counters are the fields of `Accounting`, which every reachable dispatcher
satisfies; the latch is about two states of one run. -/

namespace SecureMcp

variable {ε : Type}

/-! ## Small facts about promises -/

theorem Work.unsettled_iff (w : Work) : w.unsettled = true ↔ w = .deferred ∨ w = .called := by
  cases w <;> simp [Work.unsettled]

@[simp] theorem Work.unsettled_ofSettled (ok : Bool) : (Work.ofSettled ok).unsettled = false := by
  cases ok <;> rfl

theorem Work.ofSettled_ne_refused (ok : Bool) : Work.ofSettled ok ≠ .refused := by
  cases ok <;> simp [Work.ofSettled]

theorem Work.ofSettled_ne_deferred (ok : Bool) : Work.ofSettled ok ≠ .deferred := by
  cases ok <;> simp [Work.ofSettled]

/-- Deciding a race never settles the promise of the `async` function that awaits it. -/
theorem Delivery.settle_eq_rejected (d : Delivery) (ok : Bool) :
    d.settle ok = .rejected ↔ d = .rejected := by
  cases d <;> cases ok <;> simp [Delivery.settle]

namespace AuditDispatcher

variable {d d' : AuditDispatcher ε} {l : Label ε}

/-! ## What a step can do -/

/-- The sink's `close` hook was tried and failed: the one loss that is not a delivery. -/
def closeLoss (d : AuditDispatcher ε) : Nat :=
  if d.sinkClosing.any (fun c => c.delivery == .rejected) then 1 else 0

/-- The effect of a step on the deliveries; `closing` stands for the steps of `close` and
    `closeSink`, which leave them alone. -/
inductive Effect (d : AuditDispatcher ε) : AuditDispatcher ε → Prop
  | refuse (event : ε) (scope : Option Nat) (h : d.refuses = true) :
      Effect d { d with
        dropped := d.dropped + 1
        writes := d.writes ++ [{ event, scope, work := .refused, delivery := .rejected }] }
  | accept (event : ε) (scope : Option Nat) (h : d.refuses = false) :
      Effect d { d with
        pending := d.pending ++ [d.writes.length]
        writes := d.writes ++ [{ event, scope, work := .deferred, delivery := .racing }] }
  | call (i : Nat) (w : Write ε) (hi : d.writes[i]? = some w) (hw : w.work = .deferred) :
      Effect d { d with
        handed := d.handed ++ [i]
        writes := d.writes.set i { w with work := .called } }
  | callSettle (i : Nat) (w : Write ε) (ok : Bool) (hi : d.writes[i]? = some w)
      (hw : w.work = .deferred) : Effect d ({ d with handed := d.handed ++ [i] }.settleWork i w ok)
  | settle (i : Nat) (w : Write ε) (ok : Bool) (hi : d.writes[i]? = some w)
      (hw : w.work = .called) : Effect d (d.settleWork i w ok)
  | expire (i : Nat) (w : Write ε) (hi : d.writes[i]? = some w) (hw : w.delivery.settled = false)
      (hobs : Outside.timer ∉ w.observed) : Effect d { d with writes := d.writes.set i w.expire }
  | win (i : Nat) (w : Write ε) (hi : d.writes[i]? = some w) (hw : w.delivery = .won) :
      Effect d { d with writes := d.writes.set i { w with delivery := .fulfilled } }
  | lose (i : Nat) (w : Write ε) (hi : d.writes[i]? = some w) (hw : w.delivery = .lost) :
      Effect d { d with
        failures := d.failures + 1
        writes := d.writes.set i { w with delivery := .rejected } }
  | closing (d' : AuditDispatcher ε) (hwrites : d'.writes = d.writes)
      (hpending : d'.pending = d.pending) (hdropped : d'.dropped = d.dropped)
      (hhanded : d'.handed = d.handed) (hcapacity : d'.capacity = d.capacity)
      (hfailures : d'.failures + d.closeLoss = d.failures + d'.closeLoss)
      (hmono : d.failures ≤ d'.failures) : Effect d d'

theorem write_effect (event : ε) (scope : Option Nat) : Effect d (d.write event scope) := by
  unfold write
  split
  · next h => exact .refuse event scope h
  · next h => exact .accept event scope (by simpa using h)

theorem callSink_effect {i : Nat} {ret : SinkReturn} (h : d.callSink i ret = some d') :
    Effect d d' := by
  obtain ⟨w, hi, h⟩ := Option.bind_eq_some_iff.mp h
  split at h
  · next hw =>
      cases ret with
      | promise => exact Option.some.inj h ▸ .call i w hi hw
      | returned => exact Option.some.inj h ▸ .callSettle i w true hi hw
      | threw => exact Option.some.inj h ▸ .callSettle i w false hi hw
  · exact absurd h (by simp)

theorem settle_effect {i : Nat} {ok : Bool} (h : d.settle i ok = some d') : Effect d d' := by
  obtain ⟨w, hi, h⟩ := Option.bind_eq_some_iff.mp h
  split at h
  · next hw => exact Option.some.inj h ▸ .settle i w ok hi hw
  · exact absurd h (by simp)

theorem expire_effect {i : Nat} (h : d.expire i = some d') : Effect d d' := by
  obtain ⟨w, hi, h⟩ := Option.bind_eq_some_iff.mp h
  split at h
  · next hw =>
      simp only [Bool.and_eq_true, Bool.not_eq_true', List.contains_eq_mem,
        decide_eq_false_iff_not] at hw
      exact Option.some.inj h ▸ .expire i w hi hw.1.2 hw.2
  · exact absurd h (by simp)

theorem resume_effect {i : Nat} (h : d.resume i = some d') : Effect d d' := by
  obtain ⟨w, hi, h⟩ := Option.bind_eq_some_iff.mp h
  split at h
  · next hw => exact Option.some.inj h ▸ .win i w hi hw
  · next hw => exact Option.some.inj h ▸ .lose i w hi hw
  · exact absurd h (by simp)

/-- A step of `close` that leaves the sink's promise alone leaves the losses alone. -/
theorem closes_effect {cs : List CloseCall} : Effect d { d with closes := cs } :=
  .closing _ rfl rfl rfl rfl rfl rfl (Nat.le_refl _)

theorem sinkClosing_effect {c : SinkClosing} {c' : SinkClosing} {calls : Nat}
    (hc : d.sinkClosing = some c) (hsame : c'.delivery = .rejected ↔ c.delivery = .rejected) :
    Effect d { d with sinkClosing := some c', sinkCloseCalls := calls } := by
  refine .closing _ rfl rfl rfl rfl rfl ?_ (Nat.le_refl _)
  simp only [closeLoss, hc, Option.any_some, beq_iff_eq, hsame]

theorem step_effect (h : d.step l = some d') : Effect d d' := by
  cases l with
  | write event scope => exact Option.some.inj h ▸ write_effect event scope
  | callSink i ret => exact callSink_effect h
  | settle i ok => exact settle_effect h
  | expire i => exact expire_effect h
  | resume i => exact resume_effect h
  | close => exact Option.some.inj h ▸ closes_effect
  | drain k =>
      obtain ⟨c, _, h⟩ := Option.bind_eq_some_iff.mp h
      split at h
      · exact Option.some.inj h ▸ closes_effect
      · exact absurd h (by simp)
  | closeExpire k =>
      obtain ⟨c, _, h⟩ := Option.bind_eq_some_iff.mp h
      split at h
      · exact Option.some.inj h ▸ closes_effect
      · exact absurd h (by simp)
  | closeResume k =>
      obtain ⟨c, _, h⟩ := Option.bind_eq_some_iff.mp h
      split at h
      · refine Option.some.inj h ▸ .closing _ rfl rfl rfl rfl rfl ?_ (Nat.le_refl _)
        -- the promise `closeSink()` that may be made here has not settled
        cases hs : d.sinkClosing <;> simp [closeLoss, hs]
      · exact absurd h (by simp)
  | callSinkClose ret =>
      obtain ⟨c, hc, h⟩ := Option.bind_eq_some_iff.mp h
      split at h
      · cases ret with
        | promise => exact Option.some.inj h ▸ sinkClosing_effect hc Iff.rfl
        | returned =>
            exact Option.some.inj h ▸ sinkClosing_effect hc (Delivery.settle_eq_rejected _ _)
        | threw => exact Option.some.inj h ▸ sinkClosing_effect hc (Delivery.settle_eq_rejected _ _)
      · exact absurd h (by simp)
  | settleSinkClose ok =>
      obtain ⟨c, hc, h⟩ := Option.bind_eq_some_iff.mp h
      split at h
      · exact Option.some.inj h ▸ sinkClosing_effect hc (Delivery.settle_eq_rejected _ _)
      · exact absurd h (by simp)
  | expireSinkClose =>
      obtain ⟨c, hc, h⟩ := Option.bind_eq_some_iff.mp h
      split at h
      · next hw =>
          simp only [Bool.and_eq_true, decide_eq_true_eq] at hw
          exact Option.some.inj h ▸ sinkClosing_effect hc (by simp [hw.2])
      · exact absurd h (by simp)
  | resumeSinkClose =>
      obtain ⟨c, hc, h⟩ := Option.bind_eq_some_iff.mp h
      split at h
      · next hw => exact Option.some.inj h ▸ sinkClosing_effect hc (by simp [hw])
      · next hw =>
          refine Option.some.inj h ▸ .closing _ rfl rfl rfl rfl rfl ?_ (Nat.le_succ _)
          -- the `catch` block counts this loss exactly when the promise becomes rejected
          simp [closeLoss, hc, hw]
      · exact absurd h (by simp)
  | closeReturn k =>
      obtain ⟨c, _, h⟩ := Option.bind_eq_some_iff.mp h
      obtain ⟨sink, _, h⟩ := Option.bind_eq_some_iff.mp h
      split at h
      · exact Option.some.inj h ▸ closes_effect
      · exact Option.some.inj h ▸ closes_effect
      · exact absurd h (by simp)

/-! ## One delivery

The row of a delivery agrees with what happened to it from outside: its own sink call and its own
timer, in the order they came. -/

end AuditDispatcher

structure Write.Consistent (w : Write ε) : Prop where
  refused : w.work = .refused → w.delivery = .rejected ∧ w.observed = []
  sink : w.observed.filter (fun o => o != .timer) = match w.work with
    | .fulfilled => [.sinkFulfilled]
    | .rejected => [.sinkRejected]
    | _ => []
  timer : w.observed.count .timer ≤ 1
  racing : w.work ≠ .refused → (w.delivery = .racing ↔ w.observed = [])
  fulfilled : w.work ≠ .refused →
    ((w.delivery = .won ∨ w.delivery = .fulfilled) ↔ w.observed.head? = some .sinkFulfilled)

namespace Write.Consistent

variable {w : Write ε}

theorem of_refused (event : ε) (scope : Option Nat) :
    ({ event, scope, work := .refused, delivery := .rejected } : Write ε).Consistent :=
  ⟨by simp, by simp, by simp, by simp, by simp⟩

theorem of_accepted (event : ε) (scope : Option Nat) :
    ({ event, scope, work := .deferred, delivery := .racing } : Write ε).Consistent :=
  ⟨by simp, by simp, by simp, by simp, by simp⟩

theorem call (h : w.Consistent) (hw : w.work = .deferred) :
    ({ w with work := .called } : Write ε).Consistent := by
  have hne : w.work ≠ .refused := by simp [hw]
  refine ⟨by simp, ?_, h.timer, fun _ => h.racing hne, fun _ => h.fulfilled hne⟩
  have := h.sink
  rw [hw] at this
  exact this

/-- The code after `await` only turns a decided race into a settled promise. -/
theorem win (h : w.Consistent) (hw : w.delivery = .won) :
    ({ w with delivery := .fulfilled } : Write ε).Consistent := by
  have hne : w.work ≠ .refused := by
    intro hr
    have := (h.refused hr).1
    rw [hw] at this
    exact absurd this (by simp)
  refine ⟨fun hr => absurd hr hne, h.sink, h.timer, fun _ => ?_, fun _ => ?_⟩
  · have := h.racing hne
    rw [hw] at this
    simpa using this
  · have := h.fulfilled hne
    rw [hw] at this
    simpa using this

theorem lose (h : w.Consistent) (hw : w.delivery = .lost) :
    ({ w with delivery := .rejected } : Write ε).Consistent := by
  have hne : w.work ≠ .refused := by
    intro hr
    have := (h.refused hr).1
    rw [hw] at this
    exact absurd this (by simp)
  refine ⟨fun hr => absurd hr hne, h.sink, h.timer, fun _ => ?_, fun _ => ?_⟩
  · have := h.racing hne
    rw [hw] at this
    simpa using this
  · have := h.fulfilled hne
    rw [hw] at this
    simpa using this

/-- The race after one more thing happened: the first one decides it. -/
private theorem race_append (h : w.Consistent) (hne : w.work ≠ .refused) (o : Outside) :
    (w.delivery.settle (o == .sinkFulfilled) = .racing ↔ w.observed ++ [o] = []) ∧
    ((w.delivery.settle (o == .sinkFulfilled) = .won ∨
        w.delivery.settle (o == .sinkFulfilled) = .fulfilled) ↔
      (w.observed ++ [o]).head? = some .sinkFulfilled) := by
  have hracing := h.racing hne
  have hfulfilled := h.fulfilled hne
  cases hobs : w.observed with
  | nil =>
      have hd : w.delivery = .racing := hracing.mpr hobs
      rw [hd]
      cases o <;> simp [Delivery.settle]
  | cons first rest =>
      have hd : w.delivery ≠ .racing := by
        intro hr
        rw [hracing.mp hr] at hobs
        exact absurd hobs (by simp)
      have hsame : w.delivery.settle (o == .sinkFulfilled) = w.delivery := by
        cases hcase : w.delivery <;> simp_all [Delivery.settle]
      rw [hsame]
      rw [hobs] at hfulfilled
      simpa [hd] using hfulfilled

theorem settleWork (h : w.Consistent) (hw : w.work.unsettled = true) (ok : Bool) :
    (w.settleWork ok).Consistent := by
  have hne : w.work ≠ .refused := by
    intro hr
    rw [hr] at hw
    exact absurd hw (by simp [Work.unsettled])
  have hnone : w.observed.filter (fun o => o != .timer) = [] := by
    have := h.sink
    rcases (Work.unsettled_iff _).mp hw with hd | hc
    · rw [hd] at this
      exact this
    · rw [hc] at this
      exact this
  have hrace := race_append h hne (if ok then .sinkFulfilled else .sinkRejected)
  have hok : ((if ok then Outside.sinkFulfilled else .sinkRejected) == .sinkFulfilled) = ok := by
    cases ok <;> rfl
  rw [hok] at hrace
  refine ⟨fun hr => absurd hr (Work.ofSettled_ne_refused ok), ?_, ?_, fun _ => hrace.1,
    fun _ => hrace.2⟩
  · simp only [Write.settleWork, List.filter_append, hnone]
    cases ok <;> simp [Work.ofSettled]
  · have := h.timer
    cases ok <;> simpa [Write.settleWork, List.count_append] using this

theorem expire (h : w.Consistent) (hw : w.delivery.settled = false)
    (hobs : Outside.timer ∉ w.observed) : w.expire.Consistent := by
  have hne : w.work ≠ .refused := by
    intro hr
    rw [(h.refused hr).1] at hw
    exact absurd hw (by simp [Delivery.settled])
  have hrace := race_append h hne .timer
  refine ⟨fun hr => absurd hr hne, ?_, ?_, fun _ => hrace.1, fun _ => hrace.2⟩
  · have := h.sink
    simpa [Write.expire, List.filter_append] using this
  · have hzero : w.observed.count .timer = 0 := List.count_eq_zero.mpr hobs
    simp [Write.expire, List.count_append, hzero]

end Write.Consistent

namespace AuditDispatcher

variable {d d' : AuditDispatcher ε} {l : Label ε}

/-! ## The books of the whole dispatcher -/

structure Accounting (d : AuditDispatcher ε) : Prop where
  /-- `pending` holds exactly the accepted sink calls that have not settled; a delivery whose
      timer won keeps its slot until its own sink call settles. -/
  slots : Table.Lists d.pending d.writes (fun w => w.work.unsettled)
  bounded : d.pending.length ≤ d.capacity
  /-- A refused write never reaches the sink, an accepted one does once. -/
  calls : ∀ (i : Nat) w, d.writes[i]? = some w →
    d.handed.count i = if w.work = .refused ∨ w.work = .deferred then 0 else 1
  handed : ∀ i ∈ d.handed, i < d.writes.length
  /-- Each delivery is decided by its own sink call and its own timer, whichever came first. -/
  rows : ∀ (i : Nat) w, d.writes[i]? = some w → w.Consistent
  /-- No loss is uncounted or counted twice. -/
  losses : d.failures + d.dropped
    = d.writes.countP (fun w => w.delivery == .rejected) + d.closeLoss

theorem Accounting.init (capacity : Nat) : Accounting ({ capacity } : AuditDispatcher ε) :=
  ⟨Table.Lists.nil, Nat.zero_le _, by simp, by simp, by simp, by simp [closeLoss]⟩

/-- The log of sink calls after one more: the row of that call, and every other row. -/
private theorem calls_set (h : Accounting d) {i : Nat} {w w' : Write ε} (hi : d.writes[i]? = some w)
    (hw : w.work = .deferred) (hw' : w'.work ≠ .refused ∧ w'.work ≠ .deferred) :
    ∀ (j : Nat) b, (d.writes.set i w')[j]? = some b →
      (d.handed ++ [i]).count j = if b.work = .refused ∨ b.work = .deferred then 0 else 1 := by
  intro j b hj
  have hzero : d.handed.count i = 0 := by rw [h.calls i w hi, hw]; simp
  rcases Table.getElem?_set_cases hj with ⟨rfl, rfl⟩ | ⟨hne, hold⟩
  · rw [List.count_append, hzero, if_neg (by simp [hw'])]
    simp
  · have hij : (i == j) = false := beq_false_of_ne (fun he => hne he.symm)
    rw [List.count_append, h.calls j b hold]
    simp [List.count_cons, hij]

private theorem handed_lt_set (h : Accounting d) {i : Nat} {w w' : Write ε}
    (hi : d.writes[i]? = some w) :
    ∀ j ∈ d.handed ++ [i], j < (d.writes.set i w').length := by
  intro j hj
  rw [List.length_set]
  rcases List.mem_append.mp hj with hold | hnew
  · exact h.handed j hold
  · rw [List.mem_singleton.mp hnew]
    exact Table.lt_of_getElem? hi

/-- A row replaced by one whose sink call has the same standing changes no call count. -/
private theorem calls_same (h : Accounting d) {i : Nat} {w w' : Write ε}
    (hi : d.writes[i]? = some w)
    (hw' : (w'.work = .refused ∨ w'.work = .deferred) ↔ (w.work = .refused ∨ w.work = .deferred)) :
    ∀ (j : Nat) b, (d.writes.set i w')[j]? = some b →
      d.handed.count j = if b.work = .refused ∨ b.work = .deferred then 0 else 1 := by
  refine Table.forall_set h.calls ?_
  rw [h.calls i w hi]
  simp only [hw']

private theorem calls_append (h : Accounting d) {w : Write ε}
    (hw : w.work = .refused ∨ w.work = .deferred) :
    ∀ (j : Nat) b, (d.writes ++ [w])[j]? = some b →
      d.handed.count j = if b.work = .refused ∨ b.work = .deferred then 0 else 1 := by
  refine Table.forall_append h.calls ?_
  rw [if_pos hw]
  exact List.count_eq_zero.mpr (fun hmem => absurd (h.handed _ hmem) (Nat.lt_irrefl _))

theorem Accounting.settleWork (h : Accounting d) {i : Nat} {w : Write ε} (ok : Bool)
    (hi : d.writes[i]? = some w) (hw : w.work.unsettled = true) :
    Table.Lists (d.pending.erase i) (d.writes.set i (w.settleWork ok)) (fun w => w.work.unsettled) ∧
    (d.pending.erase i).length ≤ d.capacity ∧
    (∀ (j : Nat) b, (d.writes.set i (w.settleWork ok))[j]? = some b → b.Consistent) ∧
    d.failures + d.dropped
      = (d.writes.set i (w.settleWork ok)).countP (fun w => w.delivery == .rejected)
        + d.closeLoss := by
  refine ⟨h.slots.set_erase hi hw (Work.unsettled_ofSettled ok), ?_, ?_, ?_⟩
  · exact Nat.le_trans List.length_erase_le h.bounded
  · exact Table.forall_set h.rows ((h.rows i w hi).settleWork hw ok)
  · rw [h.losses, Table.countP_set_of_eq hi]
    rw [Bool.eq_iff_iff, beq_iff_eq, beq_iff_eq]
    exact Delivery.settle_eq_rejected _ _

theorem Accounting.effect (h : Accounting d) (he : Effect d d') : Accounting d' := by
  cases he with
  | refuse event scope hrefuse =>
      refine ⟨h.slots.append_out rfl, h.bounded, calls_append h (Or.inl rfl), ?_, ?_, ?_⟩
      · intro i hi
        have := h.handed i hi
        simp only [List.length_append, List.length_singleton]
        omega
      · exact Table.forall_append h.rows (Write.Consistent.of_refused event scope)
      · have := h.losses
        simp only [closeLoss, Table.countP_append_one] at this ⊢
        simp only [beq_self_eq_true, if_true]
        omega
  | accept event scope hrefuse =>
      refine ⟨h.slots.append_in rfl, ?_, calls_append h (Or.inr rfl), ?_, ?_, ?_⟩
      · simp only [refuses, Bool.or_eq_false_iff, decide_eq_false_iff_not] at hrefuse
        simp only [List.length_append, List.length_singleton]
        omega
      · intro i hi
        have := h.handed i hi
        simp only [List.length_append, List.length_singleton]
        omega
      · exact Table.forall_append h.rows (Write.Consistent.of_accepted event scope)
      · have := h.losses
        simp only [closeLoss, Table.countP_append_one] at this ⊢
        simpa using this
  | call i w hi hw =>
      refine ⟨h.slots.set_same hi (by simp [Work.unsettled, hw]), h.bounded,
        calls_set h hi hw (by simp), handed_lt_set h hi, ?_, ?_⟩
      · exact Table.forall_set h.rows ((h.rows i w hi).call hw)
      · have hsame := Table.countP_set_of_eq (a := { w with work := .called })
          (p := fun w => w.delivery == .rejected) hi rfl
        rw [hsame]
        exact h.losses
  | callSettle i w ok hi hw =>
      obtain ⟨hslots, hbounded, hrows, hlosses⟩ :=
        h.settleWork ok hi ((Work.unsettled_iff _).mpr (Or.inl hw))
      exact ⟨hslots, hbounded,
        calls_set h hi hw ⟨Work.ofSettled_ne_refused ok, Work.ofSettled_ne_deferred ok⟩,
        handed_lt_set h hi, hrows, hlosses⟩
  | settle i w ok hi hw =>
      obtain ⟨hslots, hbounded, hrows, hlosses⟩ :=
        h.settleWork ok hi ((Work.unsettled_iff _).mpr (Or.inr hw))
      refine ⟨hslots, hbounded, calls_same h hi ?_, ?_, hrows, hlosses⟩
      · simp [Write.settleWork, Work.ofSettled_ne_refused, Work.ofSettled_ne_deferred, hw]
      · simpa [AuditDispatcher.settleWork] using h.handed
  | expire i w hi hw hobs =>
      refine ⟨h.slots.set_same hi rfl, h.bounded, calls_same h hi Iff.rfl, ?_, ?_, ?_⟩
      · simpa using h.handed
      · exact Table.forall_set h.rows ((h.rows i w hi).expire hw hobs)
      · have hsame : (w.expire.delivery == .rejected) = (w.delivery == .rejected) := by
          rw [Bool.eq_iff_iff, beq_iff_eq, beq_iff_eq]
          exact Delivery.settle_eq_rejected _ _
        have := h.losses
        simp only [closeLoss] at this ⊢
        rw [Table.countP_set_of_eq hi hsame]
        exact this
  | win i w hi hw =>
      refine ⟨h.slots.set_same hi rfl, h.bounded, calls_same h hi Iff.rfl, ?_, ?_, ?_⟩
      · simpa using h.handed
      · exact Table.forall_set h.rows ((h.rows i w hi).win hw)
      · have := h.losses
        simp only [closeLoss] at this ⊢
        rw [Table.countP_set_of_eq hi (by simp [hw])]
        exact this
  | lose i w hi hw =>
      refine ⟨h.slots.set_same hi rfl, h.bounded, calls_same h hi Iff.rfl, ?_, ?_, ?_⟩
      · simpa using h.handed
      · exact Table.forall_set h.rows ((h.rows i w hi).lose hw)
      · -- this is the one row that becomes rejected, and the one failure counted for it
        have hcount := Table.countP_set (a := { w with delivery := .rejected })
          (p := fun w => w.delivery == .rejected) hi
        have := h.losses
        simp only [hw, closeLoss] at this hcount ⊢
        simp at hcount
        omega
  | closing d' hwrites hpending hdropped hhanded hcapacity hfailures hmono =>
      refine ⟨?_, ?_, ?_, ?_, ?_, ?_⟩
      · rw [hpending, hwrites]; exact h.slots
      · rw [hpending, hcapacity]; exact h.bounded
      · rw [hwrites, hhanded]; exact h.calls
      · rw [hwrites, hhanded]; exact h.handed
      · rw [hwrites]; exact h.rows
      · have := h.losses
        rw [hwrites, hdropped]
        omega

/-- Every reachable dispatcher has its books in order. -/
theorem Accounting.of_reachable {capacity : Nat} (h : (machine ε capacity).Reachable d) :
    Accounting d :=
  h.invariant (Accounting.init capacity) (fun _ _ _ _ hd hstep => hd.effect (step_effect hstep))

/-! ## Rows over a run -/

end AuditDispatcher

/-- How the row of one write may change: what it is about stays, what has settled stays. -/
structure Write.Evolves (w w' : Write ε) : Prop where
  event : w'.event = w.event
  scope : w'.scope = w.scope
  work : w.work.unsettled = false → w'.work = w.work
  delivery : w.delivery.settled = true → w'.delivery = w.delivery

theorem Write.Evolves.refl (w : Write ε) : w.Evolves w := ⟨rfl, rfl, fun _ => rfl, fun _ => rfl⟩

theorem Write.Evolves.trans {a b c : Write ε} (h : a.Evolves b) (h' : b.Evolves c) :
    a.Evolves c := by
  refine ⟨h'.event.trans h.event, h'.scope.trans h.scope, fun hw => ?_, fun hd => ?_⟩
  · have hb := h.work hw
    rw [h'.work (by rw [hb]; exact hw), hb]
  · have hb := h.delivery hd
    rw [h'.delivery (by rw [hb]; exact hd), hb]

theorem Delivery.settle_of_settled {d : Delivery} (h : d.settled = true) (ok : Bool) :
    d.settle ok = d := by
  cases d <;> simp_all [Delivery.settle, Delivery.settled]

theorem Write.evolves_settleWork {w : Write ε} (hw : w.work.unsettled = true) (ok : Bool) :
    w.Evolves (w.settleWork ok) :=
  ⟨rfl, rfl, fun h => absurd (hw.symm.trans h) (by simp),
    fun h => Delivery.settle_of_settled h ok⟩

namespace AuditDispatcher

variable {d d' : AuditDispatcher ε} {l : Label ε}

/-- A row replaced by one it may evolve to leaves every row evolving. -/
private theorem evolves_set {i j : Nat} {w w' b : Write ε} (hi : d.writes[i]? = some w)
    (hw : w.Evolves w') (hj : d.writes[j]? = some b) :
    ∃ b', (d.writes.set i w')[j]? = some b' ∧ b.Evolves b' := by
  by_cases hji : j = i
  · subst hji
    rw [hi] at hj
    obtain rfl := Option.some.inj hj
    exact ⟨w', Table.getElem?_set_of_some hi, hw⟩
  · exact ⟨b, by rw [Table.getElem?_set_of_ne hji]; exact hj, .refl b⟩

theorem Effect.evolves (he : Effect d d') {j : Nat} {b : Write ε} (hj : d.writes[j]? = some b) :
    ∃ b', d'.writes[j]? = some b' ∧ b.Evolves b' := by
  cases he with
  | refuse event scope h => exact ⟨b, Table.getElem?_append_of_some hj, .refl b⟩
  | accept event scope h => exact ⟨b, Table.getElem?_append_of_some hj, .refl b⟩
  | call i w hi hw =>
      refine evolves_set hi ⟨rfl, rfl, fun hu => ?_, fun _ => rfl⟩ hj
      rw [hw] at hu
      exact absurd hu (by simp [Work.unsettled])
  | callSettle i w ok hi hw =>
      exact evolves_set hi (Write.evolves_settleWork (by simp [hw, Work.unsettled]) ok) hj
  | settle i w ok hi hw =>
      exact evolves_set hi (Write.evolves_settleWork (by simp [hw, Work.unsettled]) ok) hj
  | expire i w hi hw hobs =>
      exact evolves_set hi
        ⟨rfl, rfl, fun _ => rfl, fun h => Delivery.settle_of_settled h false⟩ hj
  | win i w hi hw =>
      refine evolves_set hi ⟨rfl, rfl, fun _ => rfl, fun hs => ?_⟩ hj
      rw [hw] at hs
      exact absurd hs (by simp [Delivery.settled])
  | lose i w hi hw =>
      refine evolves_set hi ⟨rfl, rfl, fun _ => rfl, fun hs => ?_⟩ hj
      rw [hw] at hs
      exact absurd hs (by simp [Delivery.settled])
  | closing d' hwrites hpending hdropped hhanded hcapacity hfailures hmono =>
      exact ⟨b, by rw [hwrites]; exact hj, .refl b⟩

/-- Over any run, a write keeps its row, its event and whatever has settled. -/
theorem evolves_of_leads {capacity : Nat} (h : (machine ε capacity).Leads d d') {j : Nat}
    {b : Write ε} (hj : d.writes[j]? = some b) : ∃ b', d'.writes[j]? = some b' ∧ b.Evolves b' := by
  refine h.invariant (I := fun d' => ∃ b', d'.writes[j]? = some b' ∧ b.Evolves b')
    ⟨b, hj, .refl b⟩ ?_
  intro a l c ha hstep
  obtain ⟨b', hb', hev⟩ := ha
  obtain ⟨b'', hb'', hev'⟩ := (step_effect hstep).evolves hb'
  exact ⟨b'', hb'', hev.trans hev'⟩

theorem Effect.mono (he : Effect d d') :
    d'.capacity = d.capacity ∧ d.failures ≤ d'.failures ∧ d.dropped ≤ d'.dropped := by
  cases he with
  | closing d' hwrites hpending hdropped hhanded hcapacity hfailures hmono =>
      exact ⟨hcapacity, hmono, hdropped ▸ Nat.le_refl _⟩
  | refuse => exact ⟨rfl, Nat.le_refl _, Nat.le_succ _⟩
  | lose => exact ⟨rfl, Nat.le_succ _, Nat.le_refl _⟩
  | _ => exact ⟨rfl, Nat.le_refl _, Nat.le_refl _⟩

theorem mono_of_leads {capacity : Nat} (h : (machine ε capacity).Leads d d') :
    d'.capacity = d.capacity ∧ d.failures ≤ d'.failures ∧ d.dropped ≤ d'.dropped := by
  refine h.invariant (I := fun d' =>
    d'.capacity = d.capacity ∧ d.failures ≤ d'.failures ∧ d.dropped ≤ d'.dropped)
    ⟨rfl, Nat.le_refl _, Nat.le_refl _⟩ ?_
  intro a l c ha hstep
  have hmono := (step_effect hstep).mono
  exact ⟨hmono.1.trans ha.1, Nat.le_trans ha.2.1 hmono.2.1, Nat.le_trans ha.2.2 hmono.2.2⟩

/-! ## The loss latch -/

theorem healthy_iff : d.healthy = true ↔ d.failures = 0 ∧ d.dropped = 0 := by
  simp [healthy]

theorem unhealthy_of_leads {capacity : Nat} (h : (machine ε capacity).Leads d d')
    (hd : d.healthy = false) : d'.healthy = false := by
  have hmono := mono_of_leads h
  by_contra hne
  have hzero := healthy_iff.mp (by simpa using hne)
  have : d.healthy = true := healthy_iff.mpr (by omega)
  rw [hd] at this
  exact absurd this (by simp)

/-- A refused write is a rejected delivery of a call that was never made. -/
theorem write_of_refuses (h : d.refuses = true) (event : ε) (scope : Option Nat) :
    (d.write event scope).writes[d.writes.length]?
      = some { event, scope, work := .refused, delivery := .rejected } := by
  simp [write, h]

/-- Refused or accepted, a write adds one row, about its event and in its scope. -/
theorem write_row (d : AuditDispatcher ε) (event : ε) (scope : Option Nat) :
    ∃ w, (d.write event scope).writes = d.writes ++ [w] ∧ w.event = event ∧ w.scope = scope ∧
      (w.work = .refused ∧ w.delivery = .rejected ∨ w.work = .deferred ∧ w.delivery = .racing) := by
  unfold write
  cases d.refuses with
  | true => exact ⟨_, rfl, rfl, rfl, Or.inl ⟨rfl, rfl⟩⟩
  | false => exact ⟨_, rfl, rfl, rfl, Or.inr ⟨rfl, rfl⟩⟩

/-- Only a write adds a row. -/
theorem write_or_length (h : d.step l = some d') :
    (∃ event scope, l = .write event scope ∧ d' = d.write event scope) ∨
      d'.writes.length = d.writes.length := by
  cases l with
  | write event scope => exact Or.inl ⟨event, scope, rfl, (Option.some.inj h).symm⟩
  | close => exact Or.inr (by rw [← Option.some.inj h]; rfl)
  | callSink i ret =>
      obtain ⟨w, _, h⟩ := Option.bind_eq_some_iff.mp h
      split at h
      · cases ret <;> exact Or.inr (by rw [← Option.some.inj h]; simp [settleWork])
      · exact absurd h (by simp)
  | settle i ok | expire i =>
      obtain ⟨w, _, h⟩ := Option.bind_eq_some_iff.mp h
      split at h
      · exact Or.inr (by rw [← Option.some.inj h]; simp [settleWork])
      · exact absurd h (by simp)
  | drain k | closeExpire k | closeResume k | settleSinkClose ok | expireSinkClose =>
      obtain ⟨c, _, h⟩ := Option.bind_eq_some_iff.mp h
      split at h
      · exact Or.inr (by rw [← Option.some.inj h])
      · exact absurd h (by simp)
  | callSinkClose ret =>
      obtain ⟨c, _, h⟩ := Option.bind_eq_some_iff.mp h
      split at h
      · cases ret <;> exact Or.inr (by rw [← Option.some.inj h])
      · exact absurd h (by simp)
  | resume i =>
      obtain ⟨w, _, h⟩ := Option.bind_eq_some_iff.mp h
      split at h
      · exact Or.inr (by rw [← Option.some.inj h]; simp)
      · exact Or.inr (by rw [← Option.some.inj h]; simp)
      · exact absurd h (by simp)
  | resumeSinkClose =>
      obtain ⟨c, _, h⟩ := Option.bind_eq_some_iff.mp h
      split at h
      · exact Or.inr (by rw [← Option.some.inj h])
      · exact Or.inr (by rw [← Option.some.inj h])
      · exact absurd h (by simp)
  | closeReturn k =>
      obtain ⟨c, _, h⟩ := Option.bind_eq_some_iff.mp h
      obtain ⟨sink, _, h⟩ := Option.bind_eq_some_iff.mp h
      split at h
      · exact Or.inr (by rw [← Option.some.inj h])
      · exact Or.inr (by rw [← Option.some.inj h])
      · exact absurd h (by simp)

/-- Only a write is dropped. -/
theorem Effect.dropped (he : Effect d d') (hlength : d'.writes.length = d.writes.length) :
    d'.dropped = d.dropped := by
  cases he with
  | refuse event scope h =>
      simp only [List.length_append, List.length_singleton] at hlength
      omega
  | closing d' hwrites hpending hdropped => exact hdropped
  | _ => rfl

/-- As long as nothing was lost, a pending sink call is one whose delivery has not settled. -/
theorem Accounting.unsettled (h : Accounting d) (hhealthy : d.healthy = true) {i : Nat}
    (hi : i ∈ d.pending) :
    ∃ w, d.writes[i]? = some w ∧ w.delivery.settled = false := by
  obtain ⟨w, hw, hwork⟩ := (h.slots.mem i).mp hi
  refine ⟨w, hw, ?_⟩
  have hrow := h.rows i w hw
  have hnone : w.observed.filter (fun o => o != .timer) = [] := by
    rw [hrow.sink]
    rcases (Work.unsettled_iff w.work).mp hwork with hd | hc
    · rw [hd]
    · rw [hc]
  have haccepted : w.work ≠ .refused := by
    intro hrefused
    rw [hrefused] at hwork
    exact absurd hwork (by simp [Work.unsettled])
  cases hdelivery : w.delivery with
  | racing | won | lost => rfl
  | fulfilled =>
      have hhead := (hrow.fulfilled haccepted).mp (Or.inr hdelivery)
      have hmem : Outside.sinkFulfilled ∈ w.observed.filter (fun o => o != .timer) :=
        List.mem_filter.mpr ⟨List.mem_of_head? hhead, rfl⟩
      rw [hnone] at hmem
      exact absurd hmem (by simp)
  | rejected =>
      have hcount : 0 < d.writes.countP (fun w => w.delivery == .rejected) :=
        List.countP_pos_iff.mpr ⟨w, List.mem_of_getElem? hw, by simp [hdelivery]⟩
      have hlosses := h.losses
      have hzero := healthy_iff.mp hhealthy
      omega

/-- A write that was refused is never handed to the sink later. -/
theorem not_handed_of_refuses {capacity : Nat} (h : (machine ε capacity).Reachable d)
    (hrefuse : d.refuses = true) (event : ε) (scope : Option Nat)
    (h' : (machine ε capacity).Leads (d.write event scope) d') :
    d.writes.length ∉ d'.handed := by
  have hnext : (machine ε capacity).Leads d (d.write event scope) :=
    Machine.Leads.single (l := .write event scope) rfl
  obtain ⟨w, hw, hev⟩ := evolves_of_leads h' (write_of_refuses hrefuse event scope)
  have hbooks := Accounting.of_reachable (h.trans (hnext.trans h'))
  have hcount := hbooks.calls _ w hw
  rw [hev.work rfl] at hcount
  exact List.count_eq_zero.mp (by simpa using hcount)

theorem refuses_of_unhealthy (h : d.healthy = false) : d.refuses = true := by
  simp [refuses, h]

theorem capacity_of_reachable {capacity : Nat} (h : (machine ε capacity).Reachable d) :
    d.capacity = capacity :=
  (mono_of_leads h).1

theorem callSink_of_deferred {i : Nat} {w : Write ε} (hi : d.writes[i]? = some w)
    (hw : w.work = .deferred) (ret : SinkReturn) : (d.callSink i ret).isSome := by
  cases ret <;> simp [callSink, hi, hw]

/-- Dispatcher accounting and latch. In every reachable dispatcher the books are in order
    (`Accounting`), `pending` stays within the capacity it was built with, and an accepted write
    that has not reached the sink still has its promise job queued. Once anything was lost, every
    later state is unhealthy, and every later write is refused and never reaches the sink. -/
theorem accounting_and_latch {capacity : Nat} (h : (machine ε capacity).Reachable d) :
    Accounting d ∧
    d.pending.length = d.writes.countP (fun w => w.work.unsettled) ∧
    d.pending.length ≤ capacity ∧
    (∀ (i : Nat) w, d.writes[i]? = some w → w.work = .deferred →
      ∀ ret, (d.callSink i ret).isSome) ∧
    (0 < d.failures + d.dropped → ∀ d', (machine ε capacity).Leads d d' →
      d'.healthy = false ∧
      ∀ event scope d'', (machine ε capacity).Leads (d'.write event scope) d'' →
        (d'.write event scope).writes[d'.writes.length]?
          = some { event, scope, work := .refused, delivery := .rejected } ∧
        d'.writes.length ∉ d''.handed) := by
  have hbooks := Accounting.of_reachable h
  refine ⟨hbooks, hbooks.slots.length, ?_, fun i w hi hw => callSink_of_deferred hi hw, ?_⟩
  · rw [← capacity_of_reachable h]
    exact hbooks.bounded
  · intro hloss d' hlead
    have hd : d.healthy = false := by
      by_contra hne
      have := healthy_iff.mp (by simpa using hne)
      omega
    have hd' := unhealthy_of_leads hlead hd
    refine ⟨hd', fun event scope d'' hlead' => ⟨?_, ?_⟩⟩
    · exact write_of_refuses (refuses_of_unhealthy hd') event scope
    · exact not_handed_of_refuses (h.trans hlead) (refuses_of_unhealthy hd') event scope hlead'

/-- A sink that never answers, capacity one: the second write finds no slot, the first times out
    and keeps its slot. -/
def blockedSink : List (Label String) :=
  [.write "first" none, .callSink 0 .promise, .write "second" none, .expire 0, .resume 0]

theorem accounting_and_latch_blockedSink :
    ∃ d, (machine String 1).exec (machine String 1).init blockedSink = some d ∧
      d.failures = 1 ∧ d.dropped = 1 ∧ d.pending = [0] ∧ Accounting d := by
  refine ⟨_, rfl, rfl, rfl, rfl, ?_⟩
  exact (accounting_and_latch (Machine.leads_of_exec
    (show (machine String 1).exec (machine String 1).init blockedSink = some _ from rfl))).1

end AuditDispatcher

end SecureMcp
