import SecureMcp.Execution.Controller

set_option autoImplicit false

/-! # Execution slots and shutdown

`Effect` says once what a step of the controller can do to the rows and to `active`; `Run.Evolves`
says what a row keeps over any run. The slot invariants are the fields of `Slots`, the shutdown
ones of `Draining`. -/

namespace SecureMcp

variable {τ : Type}

/-! ## One row -/

namespace Race

@[simp] theorem settle_isPending (race next : Race τ) :
    (race.settle next).isPending = (race.isPending && next.isPending) := by
  cases race <;> rfl

theorem settle_of_decided {race : Race τ} (h : race.isPending = false) (next : Race τ) :
    race.settle next = race := by
  cases race <;> simp_all [settle, isPending]

end Race

/-- What a row keeps over a run. -/
structure Run.Evolves (r r' : Run τ) : Prop where
  refused : ∀ code, r.operation = .refused code → r'.operation = .refused code
  settled : r.operation = .settled → r'.operation = .settled
  /-- Nothing takes a slot again once it has none. -/
  slot : r.occupies = false → r'.occupies = false
  signal : r.signal.isSome = true → r'.signal = r.signal
  race : r.race.isPending = false → r'.race = r.race
  answered : r.answered = true → r'.answered = true
  started : r.started ≤ r'.started
  /-- An operation is not started over an aborted signal. -/
  halted : r.signal.isSome = true → r'.started = r.started
  /-- Nor is one that was refused or has settled. -/
  ended : r.occupies = false → r'.started = r.started

/-- A row agrees with itself: when it was started, and what its race and signal say. -/
structure Run.Consistent (r : Run τ) : Prop where
  started : match r.operation with
    | .refused _ => r.started = 0
    | .deferred => r.started = 0
    | .running => r.started = 1
    | .settled => r.started ≤ 1
  /-- A row whose signal is aborted has a decided race. -/
  aborted : r.signal.isSome = true → r.race.isPending = false
  settled : r.operation = .settled → r.race.isPending = false
  /-- A race is only decided by an abort or by the operation. -/
  decided : r.race.isPending = false → r.signal.isSome = true ∨ r.operation = .settled
  /-- The race only sees the operation's own result once the operation has settled. -/
  result : ∀ result, r.race = .operation result → r.operation = .settled
  /-- The signal is aborted when one of its sources is. -/
  sources : r.reason.isSome = true ∨ r.caller.isSome = true → r.signal.isSome = true
  answered : r.answered = true → r.race.isPending = false
  timer : r.timer = true → r.occupies = true

namespace Run

theorem Evolves.refl (r : Run τ) : r.Evolves r :=
  ⟨fun _ h => h, fun h => h, fun h => h, fun _ => rfl, fun _ => rfl, fun h => h, Nat.le_refl _,
    fun _ => rfl, fun _ => rfl⟩

theorem Evolves.trans {a b c : Run τ} (h : a.Evolves b) (h' : b.Evolves c) : a.Evolves c := by
  refine ⟨fun code hc => h'.refused code (h.refused code hc), fun hs => h'.settled (h.settled hs),
    fun hs => h'.slot (h.slot hs), fun hs => ?_, fun hr => ?_,
    fun ha => h'.answered (h.answered ha), Nat.le_trans h.started h'.started, fun hs => ?_,
    fun hs => (h'.ended (h.slot hs)).trans (h.ended hs)⟩
  · have hb := h.signal hs
    rw [h'.signal (by rw [hb]; exact hs), hb]
  · have hb := h.race hr
    rw [h'.race (by rw [hb]; exact hr), hb]
  · have hb := h.signal hs
    rw [h'.halted (by rw [hb]; exact hs), h.halted hs]

/-- What both kinds of abort do to a row. -/
theorem abortSignal_evolves (r : Run τ) (reason : Thrown) : r.Evolves (r.abortSignal reason) := by
  unfold abortSignal
  cases hs : r.signal with
  | some first => exact .refl r
  | none =>
      refine ⟨fun _ h => h, fun h => h, fun h => h, fun h => ?_, fun h => ?_, fun h => h,
        Nat.le_refl _, fun _ => rfl, fun _ => rfl⟩
      · simp [hs] at h
      · exact Race.settle_of_decided h _

/-- Changing only the sources of the signal is no change for the rest of the row. -/
theorem evolves_of_sources (r : Run τ) (reason : Option FailureCode) (caller : Option Thrown)
    (timer : Bool) : r.Evolves { r with reason, caller, timer } :=
  ⟨fun _ h => h, fun h => h, fun h => h, fun _ => rfl, fun _ => rfl, fun h => h, Nat.le_refl _,
    fun _ => rfl, fun _ => rfl⟩

theorem abortController_evolves (r : Run τ) (code : FailureCode) :
    r.Evolves (r.abortController code) := by
  unfold abortController
  cases hr : r.reason with
  | some first => exact .refl r
  | none => exact (evolves_of_sources r (some code) r.caller r.timer).trans (abortSignal_evolves _ _)

theorem abortCaller_evolves (r : Run τ) (reason : Thrown) : r.Evolves (r.abortCaller reason) := by
  unfold abortCaller
  cases hc : r.caller with
  | some first => exact .refl r
  | none =>
      exact (evolves_of_sources r r.reason (some reason) r.timer).trans (abortSignal_evolves _ _)

theorem settle_evolves (r : Run τ) (result : Except Thrown τ)
    (h : r.occupies = true) : r.Evolves (r.settle result) := by
  refine ⟨fun code hc => ?_, fun _ => rfl, fun _ => rfl, fun _ => rfl, fun hr => ?_, fun ha => ha,
    Nat.le_refl _, fun _ => rfl, fun _ => rfl⟩
  · simp [occupies, hc] at h
  · exact Race.settle_of_decided hr _

/-! ### Aborting keeps the slot and aborts the signal -/

@[simp] theorem abortSignal_operation (r : Run τ) (reason : Thrown) :
    (r.abortSignal reason).operation = r.operation := by
  unfold abortSignal; split <;> rfl

@[simp] theorem abortController_operation (r : Run τ) (code : FailureCode) :
    (r.abortController code).operation = r.operation := by
  unfold abortController; split <;> simp

@[simp] theorem abortCaller_operation (r : Run τ) (reason : Thrown) :
    (r.abortCaller reason).operation = r.operation := by
  unfold abortCaller; split <;> simp

@[simp] theorem abortSignal_started (r : Run τ) (reason : Thrown) :
    (r.abortSignal reason).started = r.started := by
  unfold abortSignal; split <;> rfl

@[simp] theorem abortSignal_answered (r : Run τ) (reason : Thrown) :
    (r.abortSignal reason).answered = r.answered := by
  unfold abortSignal; split <;> rfl

@[simp] theorem abortSignal_timer (r : Run τ) (reason : Thrown) :
    (r.abortSignal reason).timer = r.timer := by
  unfold abortSignal; split <;> rfl

theorem abortSignal_isSome (r : Run τ) (reason : Thrown) :
    (r.abortSignal reason).signal.isSome = true := by
  unfold abortSignal
  cases hs : r.signal <;> simp [hs]

theorem occupies_congr {r r' : Run τ} (h : r'.operation = r.operation) :
    r'.occupies = r.occupies := by
  unfold occupies
  rw [h]

/-- The first abort of the signal decides an open race; a later one finds it decided. -/
theorem abortSignal_race (r : Run τ) (reason : Thrown)
    (h : r.signal.isSome = true → r.race.isPending = false) :
    (r.abortSignal reason).race.isPending = false := by
  unfold abortSignal
  cases hs : r.signal with
  | some first => exact h (by simp [hs])
  | none =>
      show (r.race.settle (.aborted r.onAbort)).isPending = false
      rw [Race.settle_isPending]
      simp [Race.isPending]

/-- A row that was aborted and otherwise left alone is consistent. -/
theorem Consistent.of_aborted {r r' : Run τ} (h : r.Consistent)
    (hoperation : r'.operation = r.operation) (hstarted : r'.started = r.started)
    (hsignal : r'.signal.isSome = true) (hrace : r'.race.isPending = false)
    (hresult : ∀ result, r'.race = .operation result → r.race = .operation result)
    (htimer : r'.timer = true → r'.occupies = true) : r'.Consistent := by
  refine ⟨?_, fun _ => hrace, fun _ => hrace, fun _ => Or.inl hsignal, fun result hr => ?_,
    fun _ => hsignal, fun _ => hrace, htimer⟩
  · rw [hoperation, hstarted]
    exact h.started
  · rw [hoperation]
    exact h.result result (hresult result hr)

/-- An abort does not bring in a result of the operation. -/
theorem abortSignal_result (r : Run τ) (reason : Thrown) (result : Except Thrown τ)
    (h : (r.abortSignal reason).race = .operation result) : r.race = .operation result := by
  unfold abortSignal at h
  split at h
  · exact h
  · cases hrace : r.race with
    | pending => simp [hrace, Race.settle] at h
    | operation first => simpa [hrace, Race.settle] using h
    | aborted code => simp [hrace, Race.settle] at h

theorem Consistent.abortController {r : Run τ} (h : r.Consistent) (code : FailureCode) :
    (r.abortController code).Consistent := by
  unfold Run.abortController
  cases hr : r.reason with
  | some first => exact h
  | none =>
      refine h.of_aborted (by simp) (by simp) (abortSignal_isSome _ _)
        (abortSignal_race _ _ h.aborted)
        (fun result hr => abortSignal_result ({ r with reason := some code } : Run τ) _ result hr)
        (fun ht => ?_)
      rw [occupies_congr (r := r) (by simp)]
      exact h.timer (by simpa using ht)

theorem Consistent.abortCaller {r : Run τ} (h : r.Consistent) (reason : Thrown) :
    (r.abortCaller reason).Consistent := by
  unfold Run.abortCaller
  cases hc : r.caller with
  | some first => exact h
  | none =>
      refine h.of_aborted (by simp) (by simp) (abortSignal_isSome _ _)
        (abortSignal_race _ _ h.aborted)
        (fun result hr => abortSignal_result ({ r with caller := some reason } : Run τ) _ result hr)
        (fun ht => ?_)
      rw [occupies_congr (r := r) (by simp)]
      exact h.timer (by simpa using ht)

theorem Consistent.stopTimer {r : Run τ} (h : r.Consistent) :
    ({ r with timer := false } : Run τ).Consistent :=
  ⟨h.started, h.aborted, h.settled, h.decided, h.result, h.sources, h.answered, by simp⟩

theorem Consistent.settle {r : Run τ} (h : r.Consistent) (hslot : r.occupies = true)
    (result : Except Thrown τ) : (r.settle result).Consistent := by
  have hrace : (r.settle result).race.isPending = false := by
    show (r.race.settle (.operation result)).isPending = false
    rw [Race.settle_isPending]
    simp [Race.isPending]
  refine ⟨?_, fun _ => hrace, fun _ => hrace, fun _ => Or.inr rfl, fun _ _ => rfl, h.sources,
    fun _ => hrace, by simp [Run.settle]⟩
  have hstarted := h.started
  unfold occupies at hslot
  cases hop : r.operation <;> simp_all [Run.settle]

theorem Consistent.start {r : Run τ} (h : r.Consistent) (hop : r.operation = .deferred) :
    ({ r with operation := .running, started := r.started + 1 } : Run τ).Consistent := by
  have hzero : r.started = 0 := by simpa [hop] using h.started
  refine ⟨by simp [hzero], h.aborted, by simp, fun hr => ?_, fun result hr => ?_, h.sources,
    h.answered, fun _ => rfl⟩
  · rcases h.decided hr with hs | hs
    · exact Or.inl hs
    · simp [hop] at hs
  · have := h.result result hr
    simp [hop] at this

theorem Consistent.answer {r : Run τ} (h : r.Consistent) (hrace : r.race.isPending = false) :
    ({ r with answered := true } : Run τ).Consistent :=
  ⟨h.started, h.aborted, h.settled, h.decided, h.result, h.sources, fun _ => hrace, h.timer⟩

theorem Consistent.of_refused (code : FailureCode) :
    ({ operation := .refused code, timer := false } : Run τ).Consistent :=
  ⟨rfl, by simp, by simp, by simp [Race.isPending], by simp, by simp, by simp, by simp⟩

theorem Consistent.of_accepted : ({ operation := .deferred } : Run τ).Consistent :=
  ⟨rfl, by simp, by simp, by simp [Race.isPending], by simp, by simp, by simp, fun _ => rfl⟩

end Run

namespace ExecutionController

variable {c c' : ExecutionController τ} {l : Label τ} {maxConcurrent : Nat}

/-! ## What a step can do -/

/-- The effect of a step on the rows and the slots; `closing` stands for the steps of `close` that
    leave them alone. -/
inductive Effect (c : ExecutionController τ) : ExecutionController τ → Prop
  | refuse (code : FailureCode) :
      Effect c { c with runs := c.runs ++ [{ operation := .refused code, timer := false }] }
  | accept (hclosing : c.closing = false) (hroom : c.active.length < c.maxConcurrent) :
      Effect c { c with
        runs := c.runs ++ [{ operation := .deferred }]
        active := c.active ++ [c.runs.length] }
  | start (i : Nat) (r : Run τ) (hi : c.runs[i]? = some r) (hop : r.operation = .deferred)
      (hsignal : r.signal = none) :
      Effect c { c with
        runs := c.runs.set i { r with operation := .running, started := r.started + 1 } }
  | settle (i : Nat) (r : Run τ) (result : Except Thrown τ) (hi : c.runs[i]? = some r)
      (hslot : r.occupies = true) : Effect c (c.settleRun i r result)
  | row (i : Nat) (r r' : Run τ) (hi : c.runs[i]? = some r) (hev : r.Evolves r')
      (hcons : r.Consistent → r'.Consistent) (hop : r'.operation = r.operation) :
      Effect c { c with runs := c.runs.set i r' }
  | drain (hfirst : c.shutdown = none) : Effect c { c.drain with closes := c.closes ++ [none] }
  | closing (c' : ExecutionController τ) (hruns : c'.runs = c.runs) (hactive : c'.active = c.active)
      (hclosing : c'.closing = c.closing) (hmax : c'.maxConcurrent = c.maxConcurrent) : Effect c c'

theorem run_effect (caller : Option Thrown) : Effect c (c.run caller) := by
  unfold run
  cases hr : c.refusal caller with
  | some code => exact .refuse code
  | none =>
      unfold refusal at hr
      split at hr
      · exact absurd hr (by simp)
      · next hclosing =>
          split at hr
          · exact absurd hr (by simp)
          · split at hr
            · exact absurd hr (by simp)
            · next hroom => exact .accept (by simpa using hclosing) (Nat.lt_of_not_le hroom)

theorem step_effect (h : c.step l = some c') : Effect c c' := by
  cases l with
  | run caller => exact Option.some.inj h ▸ run_effect caller
  | start i =>
      obtain ⟨r, hi, h⟩ := Option.bind_eq_some_iff.mp h
      split at h
      · next hop =>
          split at h
          · exact Option.some.inj h ▸ .settle i r _ hi (by simp [Run.occupies, hop])
          · next hs => exact Option.some.inj h ▸ .start i r hi hop hs
      · exact absurd h (by simp)
  | settle i result =>
      obtain ⟨r, hi, h⟩ := Option.bind_eq_some_iff.mp h
      split at h
      · next hop => exact Option.some.inj h ▸ .settle i r result hi (by simp [Run.occupies, hop])
      · exact absurd h (by simp)
  | expire i =>
      obtain ⟨r, hi, h⟩ := Option.bind_eq_some_iff.mp h
      split at h
      · exact Option.some.inj h ▸ .row i r _ hi
          ((Run.evolves_of_sources r r.reason r.caller false).trans
            (Run.abortController_evolves _ _))
          (fun hr => hr.stopTimer.abortController _) (by simp)
      · exact absurd h (by simp)
  | abort i reason =>
      obtain ⟨r, hi, h⟩ := Option.bind_eq_some_iff.mp h
      split at h
      · exact absurd h (by simp)
      · exact Option.some.inj h ▸ .row i r _ hi (Run.abortCaller_evolves _ _)
          (fun hr => hr.abortCaller _) (by simp)
  | answer i =>
      obtain ⟨r, hi, h⟩ := Option.bind_eq_some_iff.mp h
      split at h
      · next hw =>
          simp only [Bool.and_eq_true, Bool.not_eq_true'] at hw
          refine Option.some.inj h ▸ .row i r _ hi ?_ (fun hr => hr.answer hw.1) rfl
          exact ⟨fun _ h => h, fun h => h, fun h => h, fun _ => rfl, fun _ => rfl, fun _ => rfl,
            Nat.le_refl _, fun _ => rfl, fun _ => rfl⟩
      · exact absurd h (by simp)
  | close =>
      obtain rfl := Option.some.inj h
      unfold close
      cases hs : c.shutdown with
      | some s => exact .closing _ rfl rfl rfl rfl
      | none => exact .drain hs
  | drainSettled =>
      obtain ⟨s, _, h⟩ := Option.bind_eq_some_iff.mp h
      split at h
      · exact Option.some.inj h ▸ .closing _ rfl rfl rfl rfl
      · exact absurd h (by simp)
  | drainExpire =>
      obtain ⟨s, _, h⟩ := Option.bind_eq_some_iff.mp h
      split at h
      · exact Option.some.inj h ▸ .closing _ rfl rfl rfl rfl
      · exact absurd h (by simp)
  | drainResume =>
      obtain ⟨s, _, h⟩ := Option.bind_eq_some_iff.mp h
      split at h
      · exact Option.some.inj h ▸ .closing _ rfl rfl rfl rfl
      · exact absurd h (by simp)
  | closeReturn k =>
      obtain ⟨s, _, h⟩ := Option.bind_eq_some_iff.mp h
      obtain ⟨returned, _, h⟩ := Option.bind_eq_some_iff.mp h
      split at h
      · exact Option.some.inj h ▸ .closing _ rfl rfl rfl rfl
      · exact absurd h (by simp)

/-! ## Rows over a run -/

private theorem evolves_set {i j : Nat} {r r' b : Run τ} (hi : c.runs[i]? = some r)
    (hev : r.Evolves r') (hj : c.runs[j]? = some b) :
    ∃ b', (c.runs.set i r')[j]? = some b' ∧ b.Evolves b' := by
  by_cases hji : j = i
  · subst hji
    rw [hi] at hj
    obtain rfl := Option.some.inj hj
    exact ⟨r', Table.getElem?_set_of_some hi, hev⟩
  · exact ⟨b, by rw [Table.getElem?_set_of_ne hji]; exact hj, .refl b⟩

theorem start_evolves {r : Run τ} (hop : r.operation = .deferred) (hsignal : r.signal = none) :
    r.Evolves { r with operation := .running, started := r.started + 1 } := by
  refine ⟨fun code hc => ?_, fun hs => ?_, fun hs => ?_, fun _ => rfl, fun _ => rfl, fun h => h,
    Nat.le_succ _, fun hs => ?_, fun hs => ?_⟩
  · simp [hop] at hc
  · simp [hop] at hs
  · simp [Run.occupies, hop] at hs
  · simp [hsignal] at hs
  · simp [Run.occupies, hop] at hs

theorem Effect.evolves (he : Effect c c') {j : Nat} {b : Run τ} (hj : c.runs[j]? = some b) :
    ∃ b', c'.runs[j]? = some b' ∧ b.Evolves b' := by
  cases he with
  | refuse code => exact ⟨b, Table.getElem?_append_of_some hj, .refl b⟩
  | accept hclosing hroom => exact ⟨b, Table.getElem?_append_of_some hj, .refl b⟩
  | start i r hi hop hsignal => exact evolves_set hi (start_evolves hop hsignal) hj
  | settle i r result hi hslot => exact evolves_set hi (Run.settle_evolves r result hslot) hj
  | row i r r' hi hev hcons hop => exact evolves_set hi hev hj
  | drain hfirst =>
      refine ⟨_, by rw [ExecutionController.drain, List.getElem?_mapIdx, hj]; rfl, ?_⟩
      split
      · exact Run.abortController_evolves b _
      · exact .refl b
  | closing c' hruns hactive hclosing hmax => exact ⟨b, by rw [hruns]; exact hj, .refl b⟩

theorem evolves_of_leads (h : (machine τ maxConcurrent).Leads c c') {j : Nat} {b : Run τ}
    (hj : c.runs[j]? = some b) : ∃ b', c'.runs[j]? = some b' ∧ b.Evolves b' := by
  refine h.invariant (I := fun c' => ∃ b', c'.runs[j]? = some b' ∧ b.Evolves b')
    ⟨b, hj, .refl b⟩ ?_
  intro a l d ha hstep
  obtain ⟨b', hb', hev⟩ := ha
  obtain ⟨b'', hb'', hev'⟩ := (step_effect hstep).evolves hb'
  exact ⟨b'', hb'', hev.trans hev'⟩

/-! ## Slots -/

structure Slots (c : ExecutionController τ) : Prop where
  /-- `active` is exactly the set of accepted runs whose operation has not settled. -/
  slots : Table.Lists c.active c.runs Run.occupies
  bounded : c.active.length ≤ c.maxConcurrent
  rows : ∀ (i : Nat) r, c.runs[i]? = some r → r.Consistent
  /-- After `close`, every operation that still holds a slot has an aborted signal. -/
  halted : c.closing = true → ∀ (i : Nat) r, c.runs[i]? = some r → r.occupies = true →
    r.signal.isSome = true
  closing : c.closing = c.shutdown.isSome

theorem Slots.init : Slots ({ maxConcurrent } : ExecutionController τ) :=
  ⟨Table.Lists.nil, Nat.zero_le _, by simp, by simp, rfl⟩

theorem drain_runs : c.drain.runs = c.runs.mapIdx
    (fun i r => if c.active.contains i then r.abortController .shutting_down else r) := rfl

private theorem drain_occupies (i : Nat) (r : Run τ) :
    (if c.active.contains i then r.abortController .shutting_down else r).occupies = r.occupies := by
  split
  · exact Run.occupies_congr (by simp)
  · rfl

theorem Run.abortController_isSome {r : Run τ} (h : r.Consistent) (code : FailureCode) :
    (r.abortController code).signal.isSome = true := by
  unfold Run.abortController
  cases hr : r.reason with
  | some first => exact h.sources (Or.inl (by simp [hr]))
  | none => exact Run.abortSignal_isSome _ _

theorem Slots.effect (h : Slots c) (hclosed : c'.closing = c'.shutdown.isSome)
    (he : Effect c c') : Slots c' := by
  cases he with
  | refuse code =>
      refine ⟨h.slots.append_out rfl, h.bounded,
        Table.forall_append h.rows (Run.Consistent.of_refused code), fun hc => ?_, h.closing⟩
      exact Table.forall_append (h.halted hc) (fun hocc => absurd hocc (by simp [Run.occupies]))
  | accept hclosing hroom =>
      refine ⟨h.slots.append_in rfl, ?_, Table.forall_append h.rows Run.Consistent.of_accepted,
        fun hc => ?_, h.closing⟩
      · simp only [List.length_append, List.length_singleton]
        omega
      · simp only [hclosing] at hc
        exact absurd hc (by simp)
  | start i r hi hop hsignal =>
      refine ⟨h.slots.set_same hi (by simp [Run.occupies, hop]), h.bounded,
        Table.forall_set h.rows ((h.rows i r hi).start hop), fun hc => ?_, h.closing⟩
      exact Table.forall_set (h.halted hc)
        (fun _ => h.halted hc i r hi (by simp [Run.occupies, hop]))
  | settle i r result hi hslot =>
      refine ⟨h.slots.set_erase hi hslot rfl, Nat.le_trans List.length_erase_le h.bounded,
        Table.forall_set h.rows ((h.rows i r hi).settle hslot result), fun hc => ?_, h.closing⟩
      exact Table.forall_set (h.halted hc) (fun hocc => absurd hocc (by simp [Run.occupies, Run.settle]))
  | row i r r' hi hev hcons hop =>
      refine ⟨h.slots.set_same hi (Run.occupies_congr hop), h.bounded,
        Table.forall_set h.rows (hcons (h.rows i r hi)), fun hc => ?_, h.closing⟩
      refine Table.forall_set (h.halted hc) (fun hocc => ?_)
      rw [Run.occupies_congr hop] at hocc
      have hs := h.halted hc i r hi hocc
      rw [hev.signal hs]
      exact hs
  | drain hfirst =>
      refine ⟨h.slots.mapIdx drain_occupies, h.bounded, ?_, fun _ => ?_, rfl⟩
      · refine Table.forall_mapIdx h.rows (fun i r hi hr => ?_)
        split
        · exact hr.abortController _
        · exact hr
      · intro i r hi hocc
        change (c.runs.mapIdx _)[i]? = some r at hi
        rw [List.getElem?_mapIdx] at hi
        obtain ⟨b, hb, rfl⟩ := Option.map_eq_some_iff.mp hi
        rw [drain_occupies] at hocc
        -- a row that holds a slot is in the set that `drain` walks over
        have hmem : i ∈ c.active := (h.slots.mem i).mpr ⟨b, hb, hocc⟩
        rw [if_pos (by simpa using hmem)]
        exact Run.abortController_isSome (h.rows i b hb) _
  | closing c' hruns hactive hclosing hmax =>
      refine ⟨?_, ?_, ?_, ?_, hclosed⟩
      · rw [hactive, hruns]; exact h.slots
      · rw [hactive, hmax]; exact h.bounded
      · rw [hruns]; exact h.rows
      · rw [hruns, hclosing]; exact h.halted

/-! ## The drain -/

/-- What `drain` keeps about its snapshot, its race and the numbers it hands out. -/
structure Draining (c : ExecutionController τ) : Prop where
  closing : c.closing = c.shutdown.isSome
  /-- Whatever holds a slot was in the snapshot: nothing is accepted after `close`. -/
  snapshot : ∀ s, c.shutdown = some s → ∀ i ∈ c.active, i ∈ s.snapshot
  /-- The race is decided by the last settlement or by the grace timer. -/
  race : ∀ s, c.shutdown = some s → s.phase ≠ .waiting → c.active = [] ∨ s.elapsed = true
  /-- Every `close` that has returned returned the number of the one `drain`. -/
  closes : ∀ (k n : Nat), c.closes[k]? = some (some n) →
    ∃ s, c.shutdown = some s ∧ s.phase = .resolved n
  /-- The first call of `close` starts the drain. -/
  called : c.shutdown.isSome = !c.closes.isEmpty
  /-- The grace timer is armed as long as the race is open. -/
  armed : ∀ s, c.shutdown = some s → s.phase = .waiting → s.elapsed = false

theorem Draining.init : Draining ({ maxConcurrent } : ExecutionController τ) :=
  ⟨rfl, by simp, by simp, by simp, rfl, by simp⟩

theorem Draining.runs (h : Draining c) {runs : List (Run τ)} {active : List Nat}
    (hactive : ∀ i ∈ active, i ∈ c.active) : Draining { c with runs, active } := by
  refine ⟨h.closing, fun s hs i hi => h.snapshot s hs i (hactive i hi), fun s hs hp => ?_, h.closes,
    h.called, h.armed⟩
  rcases h.race s hs hp with hnil | helapsed
  · refine Or.inl (List.eq_nil_iff_forall_not_mem.mpr (fun i hi => ?_))
    have := hactive i hi
    rw [hnil] at this
    exact absurd this (by simp)
  · exact Or.inr helapsed

/-- The promise of `drain` moves on; a number that was handed out stays. -/
theorem Draining.setShutdown (h : Draining c) {s s' : Drain} (hs : c.shutdown = some s)
    (hsnapshot : s'.snapshot = s.snapshot)
    (hrace : s'.phase ≠ .waiting → c.active = [] ∨ s'.elapsed = true)
    (hmoved : s'.phase ≠ .waiting) (hopen : ∀ n, s.phase ≠ .resolved n) :
    Draining { c with shutdown := some s' } := by
  refine ⟨?_, ?_, ?_, ?_, by simpa [hs] using h.called, ?_⟩
  · simpa [hs] using h.closing
  · intro t ht i hi
    obtain rfl := Option.some.inj ht
    rw [hsnapshot]
    exact h.snapshot s hs i hi
  · intro t ht hp
    obtain rfl := Option.some.inj ht
    exact hrace hp
  · intro k n hk
    obtain ⟨t, ht, hphase⟩ := h.closes k n hk
    rw [hs] at ht
    obtain rfl := Option.some.inj ht
    exact absurd hphase (hopen n)
  · intro t ht hp
    obtain rfl := Option.some.inj ht
    exact absurd hp hmoved

theorem Draining.step (h : Draining c) (hstep : c.step l = some c') : Draining c' := by
  cases l with
  | run caller =>
      obtain rfl := Option.some.inj hstep
      unfold run
      cases hr : c.refusal caller with
      | some code => exact h.runs (fun i hi => hi)
      | none =>
          have hclosing : c.closing = false := by
            unfold refusal at hr
            split at hr
            · exact absurd hr (by simp)
            · next hc => simpa using hc
          have hnone : c.shutdown = none := by
            have := h.closing
            rw [hclosing] at this
            simpa using this.symm
          refine ⟨h.closing, ?_, ?_, h.closes, h.called, h.armed⟩
          · intro s hs
            simp [hnone] at hs
          · intro s hs
            simp [hnone] at hs
  | start i =>
      obtain ⟨r, hi, hstep⟩ := Option.bind_eq_some_iff.mp hstep
      split at hstep
      · split at hstep
        · exact Option.some.inj hstep ▸ h.runs (fun j hj => List.mem_of_mem_erase hj)
        · exact Option.some.inj hstep ▸ h.runs (fun j hj => hj)
      · exact absurd hstep (by simp)
  | settle i result =>
      obtain ⟨r, hi, hstep⟩ := Option.bind_eq_some_iff.mp hstep
      split at hstep
      · exact Option.some.inj hstep ▸ h.runs (fun j hj => List.mem_of_mem_erase hj)
      · exact absurd hstep (by simp)
  | expire i =>
      obtain ⟨r, hi, hstep⟩ := Option.bind_eq_some_iff.mp hstep
      split at hstep
      · exact Option.some.inj hstep ▸ h.runs (fun j hj => hj)
      · exact absurd hstep (by simp)
  | abort i reason =>
      obtain ⟨r, hi, hstep⟩ := Option.bind_eq_some_iff.mp hstep
      split at hstep
      · exact absurd hstep (by simp)
      · exact Option.some.inj hstep ▸ h.runs (fun j hj => hj)
  | answer i =>
      obtain ⟨r, hi, hstep⟩ := Option.bind_eq_some_iff.mp hstep
      split at hstep
      · exact Option.some.inj hstep ▸ h.runs (fun j hj => hj)
      · exact absurd hstep (by simp)
  | close =>
      obtain rfl := Option.some.inj hstep
      have hnew : ∀ (k n : Nat), (c.closes ++ [none])[k]? = some (some n) →
          c.closes[k]? = some (some n) := by
        intro k n hk
        rcases Table.getElem?_append_cases hk with hold | ⟨_, hnone⟩
        · exact hold
        · exact absurd hnone (by simp)
      unfold close
      cases hs : c.shutdown with
      | some s =>
          refine ⟨h.closing, h.snapshot, h.race, fun k n hk => h.closes k n (hnew k n hk), ?_,
            h.armed⟩
          show c.shutdown.isSome = !(c.closes ++ [none]).isEmpty
          simp [hs]
      | none =>
          refine ⟨rfl, ?_, ?_, ?_, ?_, ?_⟩
          · intro s hs' i hi
            obtain rfl := Option.some.inj hs'
            exact hi
          · intro s hs' hp
            obtain rfl := Option.some.inj hs'
            exact absurd rfl hp
          · intro k n hk
            obtain ⟨s, hs', _⟩ := h.closes k n (hnew k n hk)
            simp [hs] at hs'
          · show true = !(c.closes ++ [none]).isEmpty
            simp
          · intro s hs' _
            obtain rfl := Option.some.inj hs'
            rfl
  | drainSettled =>
      obtain ⟨s, hs, hstep⟩ := Option.bind_eq_some_iff.mp hstep
      split at hstep
      · next hw =>
          refine Option.some.inj hstep ▸ h.setShutdown hs rfl (fun _ => Or.inl ?_)
            (by simp) (by simp [hw.1])
          refine List.eq_nil_iff_forall_not_mem.mpr (fun i hi => ?_)
          have := List.all_eq_true.mp hw.2 i (h.snapshot s hs i hi)
          simp [hi] at this
      · exact absurd hstep (by simp)
  | drainExpire =>
      obtain ⟨s, hs, hstep⟩ := Option.bind_eq_some_iff.mp hstep
      split at hstep
      · next hw =>
          refine Option.some.inj hstep ▸ h.setShutdown hs rfl (fun _ => Or.inr rfl)
            (by simp) (fun n hn => ?_)
          rcases hw.1 with hp | hp <;> simp [hp] at hn
      · exact absurd hstep (by simp)
  | drainResume =>
      obtain ⟨s, hs, hstep⟩ := Option.bind_eq_some_iff.mp hstep
      split at hstep
      · next hw =>
          exact Option.some.inj hstep ▸
            h.setShutdown hs rfl (fun _ => h.race s hs (by simp [hw])) (by simp) (by simp [hw])
      · exact absurd hstep (by simp)
  | closeReturn k =>
      obtain ⟨s, hs, hstep⟩ := Option.bind_eq_some_iff.mp hstep
      obtain ⟨returned, hk, hstep⟩ := Option.bind_eq_some_iff.mp hstep
      split at hstep
      · next remaining hphase =>
          refine Option.some.inj hstep ▸ ⟨h.closing, h.snapshot, h.race, ?_, ?_, h.armed⟩
          · intro j n hj
            rcases Table.getElem?_set_cases hj with ⟨_, hn⟩ | ⟨_, hold⟩
            · obtain rfl := Option.some.inj hn
              exact ⟨s, hs, hphase⟩
            · exact h.closes j n hold
          · show c.shutdown.isSome = !(c.closes.set k _).isEmpty
            rw [h.called]
            cases c.closes with
            | nil => rfl
            | cons first rest => cases k <;> rfl
      · exact absurd hstep (by simp)

theorem Draining.of_reachable (h : (machine τ maxConcurrent).Reachable c) : Draining c :=
  h.invariant Draining.init (fun _ _ _ _ hc hstep => hc.step hstep)

theorem Slots.of_reachable (h : (machine τ maxConcurrent).Reachable c) : Slots c := by
  refine h.invariant Slots.init (fun a l b hr ha hstep => ?_)
  exact ha.effect (Draining.of_reachable (hr.snoc hstep)).closing (step_effect hstep)

/-! ## The contract over whole runs -/

/-- A row of the next state is an old row that evolved, or the row of a new call. -/
theorem Effect.origin (he : Effect c c') {j : Nat} {b' : Run τ} (hj : c'.runs[j]? = some b') :
    (∃ b, c.runs[j]? = some b ∧ b.Evolves b') ∨
    (c.runs[j]? = none ∧ ∃ code, b' = { operation := .refused code, timer := false }) ∨
    (c.closing = false ∧ b' = { operation := .deferred }) := by
  have hold : j < c.runs.length → ∃ b, c.runs[j]? = some b ∧ b.Evolves b' := by
    intro hlt
    obtain ⟨b'', hb'', hev⟩ := he.evolves (List.getElem?_eq_getElem hlt)
    rw [hj] at hb''
    exact ⟨_, List.getElem?_eq_getElem hlt, Option.some.inj hb'' ▸ hev⟩
  cases he with
  | refuse code =>
      rcases Table.getElem?_append_cases hj with hb | ⟨hlast, hb⟩
      · exact Or.inl ⟨b', hb, .refl b'⟩
      · exact Or.inr (Or.inl ⟨by simp [hlast], code, hb⟩)
  | accept hclosing hroom =>
      rcases Table.getElem?_append_cases hj with hb | ⟨_, hb⟩
      · exact Or.inl ⟨b', hb, .refl b'⟩
      · exact Or.inr (Or.inr ⟨hclosing, hb⟩)
  | start i r hi hop hsignal =>
      exact Or.inl (hold (by simpa using Table.lt_of_getElem? hj))
  | settle i r result hi hslot =>
      exact Or.inl (hold (by simpa [settleRun] using Table.lt_of_getElem? hj))
  | row i r r' hi hev hcons hop =>
      exact Or.inl (hold (by simpa using Table.lt_of_getElem? hj))
  | drain hfirst =>
      exact Or.inl (hold (by simpa [ExecutionController.drain] using Table.lt_of_getElem? hj))
  | closing c' hruns hactive hclosing hmax =>
      exact Or.inl (hold (by simpa [hruns] using Table.lt_of_getElem? hj))

theorem Effect.closing_mono (he : Effect c c') (h : c.closing = true) : c'.closing = true := by
  cases he with
  | drain => rfl
  | closing c' hruns hactive hclosing hmax => rw [hclosing]; exact h
  | _ => exact h

theorem Effect.maxConcurrent_eq (he : Effect c c') : c'.maxConcurrent = c.maxConcurrent := by
  cases he with
  | closing c' hruns hactive hclosing hmax => exact hmax
  | _ => rfl

theorem maxConcurrent_of_reachable (h : (machine τ maxConcurrent).Reachable c) :
    c.maxConcurrent = maxConcurrent :=
  h.invariant (I := fun c => c.maxConcurrent = maxConcurrent) rfl
    (fun _ _ _ _ hc hstep => (step_effect hstep).maxConcurrent_eq.trans hc)

theorem mem_active_iff (h : Slots c) {i : Nat} : i ∈ c.active ↔
    ∃ r, c.runs[i]? = some r ∧ (r.operation = .deferred ∨ r.operation = .running) := by
  rw [h.slots.mem i]
  refine exists_congr (fun r => and_congr_right (fun _ => ?_))
  unfold Run.occupies
  cases r.operation <;> simp

/-- A run that was refused never starts and never takes a slot. -/
theorem never_of_refused (h : (machine τ maxConcurrent).Reachable c) {i : Nat} {r : Run τ}
    {code : FailureCode} (hi : c.runs[i]? = some r) (hop : r.operation = .refused code)
    (hlead : (machine τ maxConcurrent).Leads c c') :
    i ∉ c'.active ∧ ∃ r', c'.runs[i]? = some r' ∧ r'.operation = .refused code ∧ r'.started = 0 := by
  obtain ⟨r', hi', hev⟩ := evolves_of_leads hlead hi
  have hslots := Slots.of_reachable (h.trans hlead)
  have hop' := hev.refused code hop
  refine ⟨fun hmem => ?_, r', hi', hop', by simpa [hop'] using (hslots.rows i r' hi').started⟩
  obtain ⟨b, hb, hrunning⟩ := (mem_active_iff hslots).mp hmem
  rw [hi'] at hb
  obtain rfl := Option.some.inj hb
  simp [hop'] at hrunning

theorem started_le_one {r : Run τ} (h : r.Consistent) : r.started ≤ 1 := by
  have hstarted := h.started
  cases hop : r.operation <;> simp [hop] at hstarted <;> omega

/-- After `close`, every row is the row of an earlier call, which evolved, or of a refused one. -/
theorem origin_of_closing (hclosing : c.closing = true)
    (hlead : (machine τ maxConcurrent).Leads c c') :
    c'.closing = true ∧ ∀ (i : Nat) r', c'.runs[i]? = some r' →
      (∃ r, c.runs[i]? = some r ∧ r.Evolves r') ∨
      (c.runs[i]? = none ∧ ∃ code, r'.operation = .refused code) := by
  refine hlead.along (I := fun c' => c'.closing = true ∧ ∀ (i : Nat) r',
    c'.runs[i]? = some r' → (∃ r, c.runs[i]? = some r ∧ r.Evolves r') ∨
      (c.runs[i]? = none ∧ ∃ code, r'.operation = .refused code))
    ⟨hclosing, fun i r hi => Or.inl ⟨r, hi, .refl r⟩⟩ ?_
  intro a l b hlead ha hstep
  obtain ⟨hopen, hrows⟩ := ha
  have he := step_effect hstep
  refine ⟨he.closing_mono hopen, fun i r' hi => ?_⟩
  rcases he.origin hi with ⟨r, hr, hev⟩ | ⟨hnew, code, rfl⟩ | ⟨hfalse, _⟩
  · rcases hrows i r hr with ⟨r0, hr0, hev0⟩ | ⟨hnone, code, hcode⟩
    · exact Or.inl ⟨r0, hr0, hev0.trans hev⟩
    · exact Or.inr ⟨hnone, code, hev.refused code hcode⟩
  · cases hc : c.runs[i]? with
    | none => exact Or.inr ⟨rfl, code, rfl⟩
    | some r0 =>
        -- the row of a call before `close` is still there, so a new row has another number
        obtain ⟨_, hold, _⟩ := evolves_of_leads hlead hc
        rw [hnew] at hold
        exact absurd hold (by simp)
  · rw [hopen] at hfalse
    exact absurd hfalse (by simp)

/-- How often row `i` was started. -/
def startedAt (c : ExecutionController τ) (i : Nat) : Nat :=
  match c.runs[i]? with
  | some r => r.started
  | none => 0

theorem startedAt_of_some {i : Nat} {r : Run τ} (hi : c.runs[i]? = some r) :
    c.startedAt i = r.started := by
  simp [startedAt, hi]

/-- After `close`, no operation starts, whether it was accepted before or is called later. -/
theorem startedAt_of_closing (h : (machine τ maxConcurrent).Reachable c)
    (hclosing : c.closing = true) (hlead : (machine τ maxConcurrent).Leads c c') (i : Nat) :
    c'.startedAt i = c.startedAt i := by
  have hslots := Slots.of_reachable h
  have hslots' := Slots.of_reachable (h.trans hlead)
  obtain ⟨_, hrows⟩ := origin_of_closing hclosing hlead
  cases hi' : c'.runs[i]? with
  | none =>
      cases hi : c.runs[i]? with
      | none => simp [startedAt, hi, hi']
      | some r =>
          obtain ⟨r', hr', _⟩ := evolves_of_leads hlead hi
          rw [hi'] at hr'
          exact absurd hr' (by simp)
  | some r' =>
      rw [startedAt_of_some hi']
      rcases hrows i r' hi' with ⟨r, hi, hev⟩ | ⟨hi, code, hop⟩
      · rw [startedAt_of_some hi]
        by_cases hslot : r.occupies = true
        · exact hev.halted (hslots.halted hclosing i r hi hslot)
        · exact hev.ended (by simpa using hslot)
      · have := (hslots'.rows i r' hi').started
        simpa [startedAt, hi, hop] using this

/-- After `close`, `active` only loses members. -/
theorem active_of_closing (h : (machine τ maxConcurrent).Reachable c) (hclosing : c.closing = true)
    (hlead : (machine τ maxConcurrent).Leads c c') : ∀ i ∈ c'.active, i ∈ c.active := by
  intro i hi
  have hslots := Slots.of_reachable h
  have hslots' := Slots.of_reachable (h.trans hlead)
  obtain ⟨r', hr', hocc⟩ := (hslots'.slots.mem i).mp hi
  rcases (origin_of_closing hclosing hlead).2 i r' hr' with ⟨r, hr, hev⟩ | ⟨_, code, hop⟩
  · refine (hslots.slots.mem i).mpr ⟨r, hr, ?_⟩
    by_contra hfree
    rw [hev.slot (by simpa using hfree)] at hocc
    exact absurd hocc (by simp)
  · simp [Run.occupies, hop] at hocc

/-! ### What `close` resolves to -/

/-- `c` resolved the drain of `s` with the number of operations that were unsettled then. -/
structure Resolved (maxConcurrent : Nat) (n : Nat) (c : ExecutionController τ) (s : Drain) :
    Prop where
  reachable : (machine τ maxConcurrent).Reachable c
  shutdown : c.shutdown = some s
  decided : s.phase = .decided
  remaining : n = c.active.length

/-- Only the code after the race of `drain` resolves its promise. -/
theorem resolved_of_step (h : c.step l = some c') {n : Nat} {s : Drain}
    (hs : c'.shutdown = some s) (hphase : s.phase = .resolved n) :
    c.shutdown = some s ∨ (l = .drainResume ∧ ∃ s0, c.shutdown = some s0 ∧ s0.phase = .decided ∧
      n = c.active.length) := by
  cases l with
  | run caller =>
      obtain rfl := Option.some.inj h
      unfold run at hs
      split at hs <;> exact Or.inl hs
  | start i =>
      obtain ⟨r, hi, h⟩ := Option.bind_eq_some_iff.mp h
      split at h
      · split at h
        all_goals
          obtain rfl := Option.some.inj h
          exact Or.inl hs
      · exact absurd h (by simp)
  | settle i result =>
      obtain ⟨r, hi, h⟩ := Option.bind_eq_some_iff.mp h
      split at h
      · obtain rfl := Option.some.inj h
        exact Or.inl hs
      · exact absurd h (by simp)
  | expire i =>
      obtain ⟨r, hi, h⟩ := Option.bind_eq_some_iff.mp h
      split at h
      · obtain rfl := Option.some.inj h
        exact Or.inl hs
      · exact absurd h (by simp)
  | abort i reason =>
      obtain ⟨r, hi, h⟩ := Option.bind_eq_some_iff.mp h
      split at h
      · exact absurd h (by simp)
      · obtain rfl := Option.some.inj h
        exact Or.inl hs
  | answer i =>
      obtain ⟨r, hi, h⟩ := Option.bind_eq_some_iff.mp h
      split at h
      · obtain rfl := Option.some.inj h
        exact Or.inl hs
      · exact absurd h (by simp)
  | close =>
      obtain rfl := Option.some.inj h
      unfold close at hs
      cases hc : c.shutdown with
      | some first =>
          simp only [hc] at hs
          exact Or.inl hs
      | none =>
          simp only [hc, drain] at hs
          obtain rfl := Option.some.inj hs
          exact absurd hphase (by simp)
  | drainSettled =>
      obtain ⟨s0, hs0, h⟩ := Option.bind_eq_some_iff.mp h
      split at h
      · obtain rfl := Option.some.inj h
        obtain rfl := Option.some.inj hs
        exact absurd hphase (by simp)
      · exact absurd h (by simp)
  | drainExpire =>
      obtain ⟨s0, hs0, h⟩ := Option.bind_eq_some_iff.mp h
      split at h
      · obtain rfl := Option.some.inj h
        obtain rfl := Option.some.inj hs
        exact absurd hphase (by simp)
      · exact absurd h (by simp)
  | drainResume =>
      obtain ⟨s0, hs0, h⟩ := Option.bind_eq_some_iff.mp h
      split at h
      · next hdecided =>
          obtain rfl := Option.some.inj h
          obtain rfl := Option.some.inj hs
          exact Or.inr ⟨rfl, s0, hs0, hdecided, (DrainPhase.resolved.inj hphase).symm⟩
      · exact absurd h (by simp)
  | closeReturn k =>
      obtain ⟨s0, hs0, h⟩ := Option.bind_eq_some_iff.mp h
      obtain ⟨returned, _, h⟩ := Option.bind_eq_some_iff.mp h
      split at h
      · obtain rfl := Option.some.inj h
        exact Or.inl hs
      · exact absurd h (by simp)

/-- A drain that is over stays as it is. -/
theorem resolved_kept (h : c.step l = some c') {n : Nat} {s : Drain} (hs : c.shutdown = some s)
    (hphase : s.phase = .resolved n) : c'.shutdown = some s := by
  cases l with
  | run caller =>
      obtain rfl := Option.some.inj h
      unfold run
      split <;> exact hs
  | start i =>
      obtain ⟨r, hi, h⟩ := Option.bind_eq_some_iff.mp h
      split at h
      · split at h
        all_goals
          obtain rfl := Option.some.inj h
          exact hs
      · exact absurd h (by simp)
  | settle i result =>
      obtain ⟨r, hi, h⟩ := Option.bind_eq_some_iff.mp h
      split at h
      · exact Option.some.inj h ▸ hs
      · exact absurd h (by simp)
  | expire i =>
      obtain ⟨r, hi, h⟩ := Option.bind_eq_some_iff.mp h
      split at h
      · exact Option.some.inj h ▸ hs
      · exact absurd h (by simp)
  | abort i reason =>
      obtain ⟨r, hi, h⟩ := Option.bind_eq_some_iff.mp h
      split at h
      · exact absurd h (by simp)
      · exact Option.some.inj h ▸ hs
  | answer i =>
      obtain ⟨r, hi, h⟩ := Option.bind_eq_some_iff.mp h
      split at h
      · exact Option.some.inj h ▸ hs
      · exact absurd h (by simp)
  | close =>
      obtain rfl := Option.some.inj h
      simp only [close, hs]
  | drainSettled | drainExpire | drainResume =>
      obtain ⟨s0, hs0, h⟩ := Option.bind_eq_some_iff.mp h
      obtain rfl := Option.some.inj (hs.symm.trans hs0)
      simp [hphase] at h
  | closeReturn k =>
      obtain ⟨s0, hs0, h⟩ := Option.bind_eq_some_iff.mp h
      obtain ⟨returned, _, h⟩ := Option.bind_eq_some_iff.mp h
      split at h
      · exact Option.some.inj h ▸ hs
      · exact absurd h (by simp)

theorem resolved_of_reachable (h : (machine τ maxConcurrent).Reachable c) {n : Nat} {s : Drain}
    (hs : c.shutdown = some s) (hphase : s.phase = .resolved n) :
    ∃ c0 s0 c1, Resolved maxConcurrent n c0 s0 ∧ c0.step .drainResume = some c1 ∧
      (machine τ maxConcurrent).Leads c1 c := by
  refine h.invariant (I := fun c => ∀ s, c.shutdown = some s → s.phase = .resolved n →
    ∃ c0 s0 c1, Resolved maxConcurrent n c0 s0 ∧ c0.step .drainResume = some c1 ∧
      (machine τ maxConcurrent).Leads c1 c) ?_ ?_ s hs hphase
  · intro s hs
    exact absurd hs (by simp [machine])
  · intro a l b ha hI hstep s hs hphase
    rcases resolved_of_step hstep hs hphase with hsame | ⟨rfl, s0, hs0, hdecided, hn⟩
    · obtain ⟨c0, s0, c1, hres, hc1, hlead⟩ := hI s hsame hphase
      exact ⟨c0, s0, c1, hres, hc1, hlead.snoc hstep⟩
    · exact ⟨a, s0, b, ⟨ha, hs0, hdecided, hn⟩, hstep, Machine.Leads.refl b⟩

theorem closing_of_close (h : Draining c) : c.close.closing = true := by
  unfold close
  cases hs : c.shutdown with
  | none => rfl
  | some s =>
      show c.closing = true
      rw [h.closing, hs]
      rfl

/-- What is active once the drain is over was active when it ended. -/
theorem active_le_of_resolved (h : (machine τ maxConcurrent).Reachable c) {n : Nat} {s : Drain}
    (hs : c.shutdown = some s) (hphase : s.phase = .resolved n) : c.active.length ≤ n := by
  obtain ⟨c0, s0, c1, hres, hc1, hlead⟩ := resolved_of_reachable h hs hphase
  have hclosing : c0.closing = true := by
    rw [(Draining.of_reachable hres.reachable).closing, hres.shutdown]
    rfl
  have hsub := active_of_closing hres.reachable hclosing
    (Machine.LeadsIn.trans (Machine.Leads.single (l := .drainResume) hc1) hlead)
  rw [hres.remaining]
  exact (Slots.of_reachable h).slots.nodup.length_le_of_subset hsub

/-- The promise of `drain` is never stuck: its timer, then its code after the race, then the
    callers of `close` can run. -/
theorem close_progress (h : Draining c) (hclosing : c.closing = true) :
    (c.step .drainExpire).isSome ∨ (c.step .drainResume).isSome ∨
      ∀ k, c.closes[k]? = some none → (c.step (.closeReturn k)).isSome := by
  have hsome : c.shutdown.isSome = true := by rw [← h.closing, hclosing]
  obtain ⟨s, hs⟩ := Option.isSome_iff_exists.mp hsome
  cases hp : s.phase with
  | waiting => exact Or.inl (by simp [step, drainExpire, hs, hp, h.armed s hs hp])
  | decided => exact Or.inr (Or.inl (by simp [step, drainResume, hs, hp]))
  | resolved n =>
      refine Or.inr (Or.inr (fun k hk => ?_))
      simp [step, closeReturn, hs, hp, hk]

/-- Execution slots and shutdown. In every reachable controller, whatever the order of calls,
    settlements, timers and aborts was:

    * `active` is exactly the set of accepted runs whose operation has not settled, and it is
      bounded by `maxConcurrent`;
    * a refused run never starts and never takes a slot;
    * an operation is started at most once, and never after its signal was aborted;
    * once `close` was called, every operation that holds a slot has an aborted signal, no row is
      started any more, and some step brings the promise of `close` closer to resolving;
    * all calls of `close` that have resolved resolved to one number, the count of unsettled
      operations when the drain ended, which is zero unless the grace timer fired and some
      operation was unsettled at every moment since `close`. -/
theorem execution_slots (h : (machine τ maxConcurrent).Reachable c) :
    (c.active.Nodup ∧ (∀ i, i ∈ c.active ↔ ∃ r, c.runs[i]? = some r ∧
        (r.operation = .deferred ∨ r.operation = .running)) ∧
      c.active.length ≤ maxConcurrent) ∧
    (∀ (i : Nat) r code, c.runs[i]? = some r → r.operation = .refused code →
      ∀ c', (machine τ maxConcurrent).Leads c c' → i ∉ c'.active ∧ c'.startedAt i = 0) ∧
    (∀ (i : Nat) r, c.runs[i]? = some r → r.started ≤ 1 ∧
      (r.signal.isSome = true → ∀ c', (machine τ maxConcurrent).Leads c c' →
        c'.startedAt i = r.started)) ∧
    (c.closes ≠ [] →
      (∀ i ∈ c.active, ∃ r, c.runs[i]? = some r ∧ r.signal.isSome = true) ∧
      (∀ c', (machine τ maxConcurrent).Leads c c' → ∀ i, c'.startedAt i = c.startedAt i) ∧
      ((c.step .drainExpire).isSome ∨ (c.step .drainResume).isSome ∨
        ∀ k, c.closes[k]? = some none → (c.step (.closeReturn k)).isSome)) ∧
    (∀ (k n : Nat), c.closes[k]? = some (some n) →
      (∀ (k' n' : Nat), c.closes[k']? = some (some n') → n' = n) ∧
      ∃ c0 s0 c1, Resolved maxConcurrent n c0 s0 ∧ c0.step .drainResume = some c1 ∧
        (machine τ maxConcurrent).Leads c1 c ∧
        (s0.elapsed = false → n = 0) ∧
        (∀ c2, (machine τ maxConcurrent).Reachable c2 → c2.closing = true → c2.active = [] →
          (machine τ maxConcurrent).Leads c2 c0 → n = 0)) := by
  have hslots := Slots.of_reachable h
  have hdrain := Draining.of_reachable h
  refine ⟨⟨hslots.slots.nodup, fun i => mem_active_iff hslots, ?_⟩, ?_, ?_, ?_, ?_⟩
  · rw [← maxConcurrent_of_reachable h]
    exact hslots.bounded
  · intro i r code hi hop c' hlead
    obtain ⟨hout, r', hr', _, hzero⟩ := never_of_refused h hi hop hlead
    exact ⟨hout, by rw [startedAt_of_some hr', hzero]⟩
  · intro i r hi
    refine ⟨started_le_one (hslots.rows i r hi), fun hsignal c' hlead => ?_⟩
    obtain ⟨r', hr', hev⟩ := evolves_of_leads hlead hi
    rw [startedAt_of_some hr', hev.halted hsignal]
  · intro hcalled
    have hclosing : c.closing = true := by
      rw [hdrain.closing, hdrain.called]
      cases hc : c.closes with
      | nil => exact absurd hc hcalled
      | cons first rest => rfl
    refine ⟨fun i hi => ?_, fun c' hlead i => startedAt_of_closing h hclosing hlead i,
      close_progress hdrain hclosing⟩
    obtain ⟨r, hr, hocc⟩ := (hslots.slots.mem i).mp hi
    exact ⟨r, hr, hslots.halted hclosing i r hr hocc⟩
  · intro k n hk
    obtain ⟨s, hs, hphase⟩ := hdrain.closes k n hk
    refine ⟨fun k' n' hk' => ?_, ?_⟩
    · obtain ⟨s', hs', hphase'⟩ := hdrain.closes k' n' hk'
      rw [hs] at hs'
      obtain rfl := Option.some.inj hs'
      rw [hphase] at hphase'
      exact (DrainPhase.resolved.inj hphase').symm
    · obtain ⟨c0, s0, c1, hres, hc1, hlead⟩ := resolved_of_reachable h hs hphase
      refine ⟨c0, s0, c1, hres, hc1, hlead, fun helapsed => ?_, fun c2 hc2 hclosing hempty hl => ?_⟩
      · have hrace := (Draining.of_reachable hres.reachable).race s0 hres.shutdown
          (by simp [hres.decided])
        rcases hrace with hnil | htimer
        · rw [hres.remaining, hnil]
          rfl
        · rw [helapsed] at htimer
          exact absurd htimer (by simp)
      · have hnil : c0.active = [] := by
          refine List.eq_nil_iff_forall_not_mem.mpr (fun i hi => ?_)
          have := active_of_closing hc2 hclosing hl i hi
          rw [hempty] at this
          exact absurd this (by simp)
        rw [hres.remaining, hnil]
        rfl

/-- Two slots: the first call ignores its abort, the second has not been started when `close` is
    called, and a third call comes too late. -/
def closeOverlapping : List (Label Nat) :=
  [.run none, .start 0, .run none, .close, .run none, .start 1, .drainExpire, .drainResume,
    .closeReturn 0]

theorem execution_slots_closeOverlapping :
    ∃ c, (machine Nat 2).exec (machine Nat 2).init closeOverlapping = some c ∧
      c.active = [0] ∧ c.startedAt 1 = 0 ∧ c.startedAt 2 = 0 ∧ c.closes = [some 1] ∧
      c.active.Nodup := by
  refine ⟨_, rfl, rfl, rfl, rfl, rfl, ?_⟩
  exact (execution_slots (Machine.leads_of_exec
    (show (machine Nat 2).exec (machine Nat 2).init closeOverlapping = some _ from rfl))).1.1

end ExecutionController

end SecureMcp
