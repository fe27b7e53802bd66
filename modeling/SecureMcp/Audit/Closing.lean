import SecureMcp.Audit.Accounting

set_option autoImplicit false

/-! # Closing the dispatcher

`AuditSink.close` is documented to run after the accepted writes have drained. `close` takes one
snapshot of `pending` and then waits, while `write` goes on accepting: a write accepted in between
is in no snapshot, so the sink can be closed before that write settles, or be handed the event
after it was closed. This file states the discipline as the interface does (`ClosesAfterDraining`),
gives the shortest run that breaks it, and proves it for every run that accepts no write once
`close` has been called. -/

namespace SecureMcp

namespace AuditDispatcher

variable {ε : Type} {d d' : AuditDispatcher ε} {l : Label ε} {capacity : Nat}

/-! ## The discipline -/

/-- What closing promises about a step `l` taken in state `d`. -/
structure ClosesAfterDraining (d : AuditDispatcher ε) (l : Label ε) : Prop where
  /-- `sink.close` is invoked at most once. -/
  once : ∀ ret, l = .callSinkClose ret → d.sinkCloseCalls = 0
  /-- When it is, every accepted write has settled, or some `close` call waited `timeoutMs`. -/
  drained : ∀ ret, l = .callSinkClose ret →
    (∀ (i : Nat) w, d.writes[i]? = some w → w.work.unsettled = false) ∨
      ∃ (k : Nat) (c : CloseCall), d.closes[k]? = some c ∧ c.elapsed = true
  /-- No event is handed to the sink after that. -/
  last : ∀ i ret, l = .callSink i ret → d.sinkCloseCalls = 0

/-- `close` with nothing pending, then a write in the same turn: the drain is over before the sink
    has answered, and the sink is closed with the write still pending. -/
def writeDuringClose : List (Label String) :=
  [.close, .write "late" none, .drain 0, .callSink 0 .promise, .closeResume 0]

theorem closes_before_draining :
    ¬ ∀ (d d' : AuditDispatcher String) l, (machine String 4).Reachable d → d.step l = some d' →
      ClosesAfterDraining d l := by
  intro hall
  have hrun : (machine String 4).exec (machine String 4).init writeDuringClose = some _ := rfl
  have hclose := hall _ _ (.callSinkClose .promise) (Machine.leads_of_exec hrun) rfl
  rcases hclose.drained .promise rfl with hsettled | ⟨k, c, hk, helapsed⟩
  · exact absurd (hsettled 0 _ rfl) (by simp [Work.unsettled])
  · cases k with
    | zero =>
        obtain rfl := Option.some.inj hk
        exact absurd helapsed (by simp)
    | succ k => cases hk

/-! ## Runs without a write after `close` -/

/-- The step accepts no write once `close` has been called. -/
def writesBeforeClose (d : AuditDispatcher ε) : Label ε → Bool
  | .write _ _ => d.refuses || d.closes.isEmpty
  | _ => true

/-- What such runs keep about the close calls, the pending writes and the sink's promise. -/
structure Drains (d : AuditDispatcher ε) : Prop where
  /-- Whatever is pending was pending when `close` was called. -/
  snapshot : ∀ (k : Nat) c, d.closes[k]? = some c → ∀ i ∈ d.pending, i ∈ c.snapshot
  /-- A call is past its race only when nothing is pending or its timer fired. -/
  race : ∀ (k : Nat) c, d.closes[k]? = some c → c.phase ≠ .draining →
    d.pending = [] ∨ c.elapsed = true
  /-- `closeSink` is only started by a call that is past its race. -/
  started : d.sinkClosing.isSome → ∃ (k : Nat) (c : CloseCall), d.closes[k]? = some c ∧ c.phase ≠ .draining
  /-- No promise job that calls the sink is left when a close timer has fired. -/
  queued : ∀ (k : Nat) c, d.closes[k]? = some c → c.elapsed = true → d.callQueued = false
  /-- The sink's hook runs when its promise job does. -/
  invoked : d.sinkCloseCalls = match d.sinkClosing with
    | none => 0
    | some c => if c.work = .deferred then 0 else 1

theorem Drains.init : Drains ({ capacity } : AuditDispatcher ε) :=
  ⟨by simp, by simp, by simp, by simp, by simp⟩

/-! ### Steps of the deliveries -/

theorem callQueued_set {i : Nat} {w' : Write ε} {ws : List (Write ε)} (hw' : w'.work ≠ .deferred)
    (h : (ws.set i w').any (fun w => w.work == .deferred) = true) :
    ws.any (fun w => w.work == .deferred) = true := by
  obtain ⟨w, hmem, hw⟩ := List.any_eq_true.mp h
  rcases List.mem_or_eq_of_mem_set hmem with hold | rfl
  · exact List.any_eq_true.mpr ⟨w, hold, hw⟩
  · exact absurd (beq_iff_eq.mp hw) hw'

theorem callQueued_set_same {i : Nat} {w w' : Write ε} (hi : d.writes[i]? = some w)
    (hw' : w'.work = w.work)
    (h : (d.writes.set i w').any (fun w => w.work == .deferred) = true) : d.callQueued = true := by
  obtain ⟨b, hmem, hb⟩ := List.any_eq_true.mp h
  rcases List.mem_or_eq_of_mem_set hmem with hold | rfl
  · exact List.any_eq_true.mpr ⟨b, hold, hb⟩
  · rw [hw'] at hb
    exact List.any_eq_true.mpr ⟨w, List.mem_of_getElem? hi, hb⟩

/-- A step that only frees slots and runs queued calls keeps `Drains`. -/
theorem Drains.shrink (h : Drains d) (hcloses : d'.closes = d.closes)
    (hsink : d'.sinkClosing = d.sinkClosing) (hcalls : d'.sinkCloseCalls = d.sinkCloseCalls)
    (hpending : ∀ i ∈ d'.pending, i ∈ d.pending) (hqueued : d'.callQueued = true → d.callQueued = true) :
    Drains d' := by
  refine ⟨?_, ?_, ?_, ?_, ?_⟩
  · intro k c hk i hi
    rw [hcloses] at hk
    exact h.snapshot k c hk i (hpending i hi)
  · intro k c hk hphase
    rw [hcloses] at hk
    rcases h.race k c hk hphase with hnil | helapsed
    · refine Or.inl (List.eq_nil_iff_forall_not_mem.mpr (fun i hi => ?_))
      have := hpending i hi
      rw [hnil] at this
      exact absurd this (by simp)
    · exact Or.inr helapsed
  · rw [hcloses, hsink]
    exact h.started
  · intro k c hk helapsed
    rw [hcloses] at hk
    have := h.queued k c hk helapsed
    by_contra hne
    rw [hqueued (by simpa using hne)] at this
    exact absurd this (by simp)
  · rw [hcalls, hsink]
    exact h.invoked

theorem Drains.settleWork (h : Drains d) (handed : List Nat) (i : Nat) (w : Write ε) (ok : Bool) :
    Drains ({ d with handed }.settleWork i w ok) := by
  refine h.shrink rfl rfl rfl (fun j hj => List.mem_of_mem_erase hj) ?_
  exact callQueued_set (Work.ofSettled_ne_deferred ok)

theorem Drains.callSink (h : Drains d) {i : Nat} {ret : SinkReturn}
    (hstep : d.callSink i ret = some d') : Drains d' := by
  obtain ⟨w, hi, hstep⟩ := Option.bind_eq_some_iff.mp hstep
  split at hstep
  · cases ret with
    | promise =>
        refine Option.some.inj hstep ▸ h.shrink rfl rfl rfl (fun j hj => hj) ?_
        exact callQueued_set (by simp)
    | returned => exact Option.some.inj hstep ▸ h.settleWork _ i w true
    | threw => exact Option.some.inj hstep ▸ h.settleWork _ i w false
  · exact absurd hstep (by simp)

theorem Drains.settle (h : Drains d) {i : Nat} {ok : Bool} (hstep : d.settle i ok = some d') :
    Drains d' := by
  obtain ⟨w, hi, hstep⟩ := Option.bind_eq_some_iff.mp hstep
  split at hstep
  · exact Option.some.inj hstep ▸ h.settleWork d.handed i w ok
  · exact absurd hstep (by simp)

theorem Drains.expire (h : Drains d) {i : Nat} (hstep : d.expire i = some d') : Drains d' := by
  obtain ⟨w, hi, hstep⟩ := Option.bind_eq_some_iff.mp hstep
  split at hstep
  · exact Option.some.inj hstep ▸
      h.shrink rfl rfl rfl (fun j hj => hj) (callQueued_set_same hi rfl)
  · exact absurd hstep (by simp)

theorem Drains.resume (h : Drains d) {i : Nat} (hstep : d.resume i = some d') : Drains d' := by
  obtain ⟨w, hi, hstep⟩ := Option.bind_eq_some_iff.mp hstep
  split at hstep
  · exact Option.some.inj hstep ▸
      h.shrink rfl rfl rfl (fun j hj => hj) (callQueued_set_same hi rfl)
  · exact Option.some.inj hstep ▸
      h.shrink rfl rfl rfl (fun j hj => hj) (callQueued_set_same hi rfl)
  · exact absurd hstep (by simp)

/-- The condition is used here and nowhere else: an accepted write finds no `close` call. -/
theorem Drains.write (h : Drains d) (event : ε) (scope : Option Nat)
    (hok : writesBeforeClose d (.write event scope) = true) : Drains (d.write event scope) := by
  by_cases hrefuse : d.refuses = true
  · unfold AuditDispatcher.write
    rw [if_pos hrefuse]
    refine h.shrink rfl rfl rfl (fun j hj => hj) (fun hq => ?_)
    simpa [callQueued, List.any_append] using hq
  · have hnone : d.closes = [] := by
      simp only [writesBeforeClose, Bool.or_eq_true, List.isEmpty_iff] at hok
      exact hok.resolve_left hrefuse
    unfold AuditDispatcher.write
    rw [if_neg hrefuse]
    refine ⟨?_, ?_, h.started, ?_, h.invoked⟩
    · intro k c hk
      simp [hnone] at hk
    · intro k c hk
      simp [hnone] at hk
    · intro k c hk
      simp [hnone] at hk

/-! ### Steps of `close` and `closeSink` -/

theorem Drains.close (h : Drains d) : Drains d.close := by
  refine ⟨?_, ?_, ?_, ?_, h.invoked⟩
  · exact Table.forall_append h.snapshot (fun i hi => hi)
  · exact Table.forall_append h.race (fun hne => absurd rfl hne)
  · intro hsome
    obtain ⟨k, c, hk, hphase⟩ := h.started hsome
    exact ⟨k, c, Table.getElem?_append_of_some hk, hphase⟩
  · exact Table.forall_append h.queued (fun helapsed => absurd helapsed (by simp))

/-- A `close` call that moves on within its own row. -/
theorem Drains.setClose (h : Drains d) {k : Nat} {c b : CloseCall} (hk : d.closes[k]? = some c)
    (hsnapshot : b.snapshot = c.snapshot)
    (hrace : b.phase ≠ .draining → d.pending = [] ∨ b.elapsed = true)
    (hqueued : b.elapsed = true → d.callQueued = false)
    (hkeep : c.phase ≠ .draining → b.phase ≠ .draining) :
    Drains { d with closes := d.closes.set k b } := by
  refine ⟨?_, ?_, ?_, ?_, h.invoked⟩
  · refine Table.forall_set h.snapshot (fun i hi => ?_)
    rw [hsnapshot]
    exact h.snapshot k c hk i hi
  · exact Table.forall_set h.race hrace
  · intro hsome
    obtain ⟨j, b, hj, hphase⟩ := h.started hsome
    by_cases hjk : j = k
    · subst hjk
      rw [hk] at hj
      obtain rfl := Option.some.inj hj
      exact ⟨j, b, Table.getElem?_set_of_some hk, hkeep hphase⟩
    · exact ⟨j, b, by rw [Table.getElem?_set_of_ne hjk]; exact hj, hphase⟩
  · exact Table.forall_set h.queued hqueued

/-- The snapshot contains all that is pending, so a settled snapshot leaves nothing pending. -/
theorem Drains.drain (h : Drains d) {k : Nat} (hstep : d.drain k = some d') : Drains d' := by
  obtain ⟨c, hk, hstep⟩ := Option.bind_eq_some_iff.mp hstep
  split at hstep
  · next hw =>
      have hempty : d.pending = [] := by
        refine List.eq_nil_iff_forall_not_mem.mpr (fun i hi => ?_)
        have := List.all_eq_true.mp hw.2 i (h.snapshot k c hk i hi)
        simp [hi] at this
      exact Option.some.inj hstep ▸
        h.setClose hk rfl (fun _ => Or.inl hempty) (h.queued k c hk) (fun _ => by simp)
  · exact absurd hstep (by simp)

theorem Drains.closeExpire (h : Drains d) {k : Nat} (hstep : d.closeExpire k = some d') :
    Drains d' := by
  obtain ⟨c, hk, hstep⟩ := Option.bind_eq_some_iff.mp hstep
  split at hstep
  · next hw =>
      simp only [Bool.and_eq_true, Bool.not_eq_true', decide_eq_true_eq] at hw
      exact Option.some.inj hstep ▸
        h.setClose hk rfl (fun _ => Or.inr rfl) (fun _ => hw.1.1) (fun _ => by simp)
  · exact absurd hstep (by simp)

theorem Drains.closeResume (h : Drains d) {k : Nat} (hstep : d.closeResume k = some d') :
    Drains d' := by
  obtain ⟨c, hk, hstep⟩ := Option.bind_eq_some_iff.mp hstep
  split at hstep
  · next hw =>
      have hphase : c.phase ≠ .draining := by simp [hw]
      have hset := h.setClose (b := { c with phase := .awaitingSink d.pending.length }) hk rfl
        (fun _ => h.race k c hk hphase) (h.queued k c hk) (fun _ => by simp)
      refine Option.some.inj hstep ▸
        ⟨hset.snapshot, hset.race, fun _ => ?_, hset.queued, ?_⟩
      · exact ⟨k, _, Table.getElem?_set_of_some hk, by simp⟩
      · have := h.invoked
        cases hs : d.sinkClosing <;> simp_all
  · exact absurd hstep (by simp)

theorem Drains.closeReturn (h : Drains d) {k : Nat} (hstep : d.closeReturn k = some d') :
    Drains d' := by
  obtain ⟨c, hk, hstep⟩ := Option.bind_eq_some_iff.mp hstep
  obtain ⟨sink, _, hstep⟩ := Option.bind_eq_some_iff.mp hstep
  split at hstep
  · next remaining hphase _ =>
      exact Option.some.inj hstep ▸ h.setClose hk rfl
        (fun _ => h.race k c hk (by simp [hphase])) (h.queued k c hk) (fun _ => by simp)
  · next hphase _ =>
      exact Option.some.inj hstep ▸ h.setClose hk rfl
        (fun _ => h.race k c hk (by simp [hphase])) (h.queued k c hk) (fun _ => by simp)
  · exact absurd hstep (by simp)

/-- A step of `closeSink` that leaves its own call counted as it should be. -/
theorem Drains.setSink (h : Drains d) {c c' : SinkClosing} {failures calls : Nat}
    (hc : d.sinkClosing = some c)
    (hinvoked : calls = if c'.work = .deferred then 0 else 1) :
    Drains { d with sinkClosing := some c', sinkCloseCalls := calls, failures := failures } :=
  ⟨h.snapshot, h.race, fun _ => h.started (by simp [hc]), h.queued, hinvoked⟩

theorem Drains.step (h : Drains d) (hok : writesBeforeClose d l = true)
    (hstep : d.step l = some d') : Drains d' := by
  cases l with
  | write event scope => exact Option.some.inj hstep ▸ h.write event scope hok
  | callSink i ret => exact h.callSink hstep
  | settle i ok => exact h.settle hstep
  | expire i => exact h.expire hstep
  | resume i => exact h.resume hstep
  | close => exact Option.some.inj hstep ▸ h.close
  | drain k => exact h.drain hstep
  | closeExpire k => exact h.closeExpire hstep
  | closeResume k => exact h.closeResume hstep
  | callSinkClose ret =>
      obtain ⟨c, hc, hstep⟩ := Option.bind_eq_some_iff.mp hstep
      split at hstep
      · next hw =>
          have hzero : d.sinkCloseCalls = 0 := by simpa [hc, hw] using h.invoked
          cases ret with
          | promise => exact Option.some.inj hstep ▸ h.setSink hc (by simp [hzero])
          | returned => exact Option.some.inj hstep ▸ h.setSink hc (by simp [hzero])
          | threw => exact Option.some.inj hstep ▸ h.setSink hc (by simp [hzero])
      · exact absurd hstep (by simp)
  | settleSinkClose ok =>
      obtain ⟨c, hc, hstep⟩ := Option.bind_eq_some_iff.mp hstep
      split at hstep
      · next hw =>
          have hone : d.sinkCloseCalls = 1 := by simpa [hc, hw] using h.invoked
          refine Option.some.inj hstep ▸ h.setSink hc ?_
          rw [if_neg (Work.ofSettled_ne_deferred ok), hone]
      · exact absurd hstep (by simp)
  | expireSinkClose =>
      obtain ⟨c, hc, hstep⟩ := Option.bind_eq_some_iff.mp hstep
      split at hstep
      · exact Option.some.inj hstep ▸ h.setSink hc (by simpa [hc] using h.invoked)
      · exact absurd hstep (by simp)
  | resumeSinkClose =>
      obtain ⟨c, hc, hstep⟩ := Option.bind_eq_some_iff.mp hstep
      split at hstep
      · exact Option.some.inj hstep ▸ h.setSink hc (by simpa [hc] using h.invoked)
      · exact Option.some.inj hstep ▸ h.setSink hc (by simpa [hc] using h.invoked)
      · exact absurd hstep (by simp)
  | closeReturn k => exact h.closeReturn hstep

theorem Drains.of_reachableIn
    (h : (machine ε capacity).ReachableIn (fun d l => writesBeforeClose d l = true) d) : Drains d :=
  h.invariant Drains.init (fun _ _ _ _ hd hok hstep => hd.step hok hstep)

/-! ## The discipline on those runs -/

/-- `closeSink` has started only with nothing pending or after a close timer. -/
theorem Drains.pending_or_elapsed (h : Drains d) (hsome : d.sinkClosing.isSome) :
    d.pending = [] ∨ ∃ (k : Nat) (c : CloseCall), d.closes[k]? = some c ∧ c.elapsed = true := by
  obtain ⟨k, c, hk, hphase⟩ := h.started hsome
  rcases h.race k c hk hphase with hnil | helapsed
  · exact Or.inl hnil
  · exact Or.inr ⟨k, c, hk, helapsed⟩

/-- In every run that accepts no write once `close` has been called, the sink is closed at most
    once, after the accepted writes have settled or `timeoutMs` after a `close` call, and is handed
    nothing afterwards. -/
theorem closes_after_draining
    (h : (machine ε capacity).ReachableIn (fun d l => writesBeforeClose d l = true) d)
    (hstep : d.step l = some d') : ClosesAfterDraining d l := by
  have hd := Drains.of_reachableIn h
  have hbooks := Accounting.of_reachable h.reachable
  refine ⟨?_, ?_, ?_⟩
  · intro ret hl
    subst hl
    obtain ⟨c, hc, hstep⟩ := Option.bind_eq_some_iff.mp hstep
    split at hstep
    · next hw => simpa [hc, hw] using hd.invoked
    · exact absurd hstep (by simp)
  · intro ret hl
    subst hl
    obtain ⟨c, hc, _⟩ := Option.bind_eq_some_iff.mp hstep
    rcases hd.pending_or_elapsed (by simp [hc]) with hnil | helapsed
    · refine Or.inl (fun i w hi => ?_)
      by_contra hne
      have hmem := (hbooks.slots.mem i).mpr ⟨w, hi, by simpa using hne⟩
      rw [hnil] at hmem
      exact absurd hmem (by simp)
    · exact Or.inr helapsed
  · intro i ret hl
    subst hl
    obtain ⟨w, hi, hstep⟩ := Option.bind_eq_some_iff.mp hstep
    split at hstep
    · next hw =>
        -- a queued call is pending, and no close timer can have fired over it
        have hmem := (hbooks.slots.mem i).mpr ⟨w, hi, by simp [hw, Work.unsettled]⟩
        have hqueued : d.callQueued = true :=
          List.any_eq_true.mpr ⟨w, List.mem_of_getElem? hi, by simp [hw]⟩
        have hinvoked := hd.invoked
        cases hs : d.sinkClosing with
        | none => simpa [hs] using hinvoked
        | some c =>
            rcases hd.pending_or_elapsed (by simp [hs]) with hnil | ⟨k, b, hk, helapsed⟩
            · rw [hnil] at hmem
              exact absurd hmem (by simp)
            · rw [hd.queued k b hk helapsed] at hqueued
              exact absurd hqueued (by simp)
    · exact absurd hstep (by simp)

/-- One write, acknowledged during the drain; a second write, refused because the first one fills
    the dispatcher, does not matter. -/
def writeThenClose : List (Label String) :=
  [.write "first" none, .callSink 0 .promise, .close, .write "refused" none, .settle 0 true,
    .drain 0, .closeResume 0]

theorem closes_after_draining_writeThenClose :
    ∃ d d', (machine String 1).execIn (fun d l => writesBeforeClose d l) (machine String 1).init
        writeThenClose = some d ∧
      d.step (.callSinkClose .returned) = some d' ∧
      ClosesAfterDraining d (.callSinkClose .returned) := by
  refine ⟨_, _, rfl, rfl, ?_⟩
  exact closes_after_draining (Machine.leadsIn_of_execIn
    (show (machine String 1).execIn (fun d l => writesBeforeClose d l) (machine String 1).init
      writeThenClose = some _ from rfl)) rfl

end AuditDispatcher

end SecureMcp
