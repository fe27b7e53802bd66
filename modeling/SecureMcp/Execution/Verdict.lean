import Mathlib.Algebra.GroupWithZero.Nat
import SecureMcp.Execution.FirstCause

set_option autoImplicit false

/-! # How a `run` settles

Once a cause has reached a `run`, its promise jobs alone settle it, with the verdict over that
cause, and nothing changes it afterwards. -/

namespace SecureMcp

/-- How many jobs a job may still lead to, itself included. -/
def PromiseJob.weight : PromiseJob → Nat
  | .start => 5
  | .subscribe => 6
  | .adopt => 5
  | .unwrap | .raceWork | .raceAborted => 2
  | .cleanup | .resume => 1

namespace RunPromises

variable {τ : Type} {s s' : RunPromises τ} {l : Label τ}

/-! ## The jobs end -/

def weight (s : RunPromises τ) : Nat := (s.jobs.map PromiseJob.weight).sum

/-- The race is decided, or the operation has settled. -/
def Due (s : RunPromises τ) : Prop := s.HasSettled ∨ s.operation.settlement.isSome = true

theorem Sound.due (h : Sound s) (hhistory : History s) (hordered : Ordered s)
    (hidle : s.dispatching = false) (hoccurred : s.occurred ≠ []) : Due s := by
  have hreached : s.reached ≠ [] → Due s := by
    intro hany
    refine Or.inl (by_contra fun hwaits => ?_)
    have hnothing := h.waiting hwaits
    rw [hidle, if_neg Bool.false_ne_true, first, Option.map_eq_none_iff, List.head?_eq_none_iff] at hnothing
    exact hany hnothing
  have hhead : ∀ cause, s.reached.head? = some cause → s.reached ≠ [] := by
    rintro cause hcause hnil
    rw [hnil] at hcause
    exact absurd hcause (by simp)
  obtain ⟨cause, rest, hcons⟩ := List.exists_cons_of_ne_nil hoccurred
  have hfirst : s.occurred.head? = some cause := by rw [hcons]; rfl
  cases cause with
  | operation result =>
      have hsettled := (hhistory.settlement result).mp (List.mem_of_mem_head? hfirst)
      exact Or.inr (by rw [hsettled]; rfl)
  | timeout => exact hreached (hhead _ (hordered.timeout hfirst))
  | shutdown => exact hreached (hhead _ (hordered.shutdown hfirst))
  | cancelled =>
      rcases hordered.cancelled hfirst with ⟨-, hdispatching⟩ | hcancelled | hshutdown
      · exact absurd (hdispatching.symm.trans hidle) (by simp)
      · exact hreached (hhead _ hcancelled)
      · exact hreached (hhead _ hshutdown)

/-- When a `run` is due, the next job can run, and the operation is not called any more. -/
theorem Sound.progress (h : Sound s) (hidle : s.idle = true) (hdue : Due s)
    {job : PromiseJob} {rest : List PromiseJob} (hjobs : s.jobs = job :: rest) :
    ∃ s', s.run job rest = some s' ∧ s'.weight < s.weight ∧ s'.idle = true := by
  have hlighter : ∀ s' : RunPromises τ, s'.jobs = rest → s'.weight < s.weight := by
    intro s' hrest
    rw [weight, weight, hrest, hjobs, List.map_cons, List.sum_cons]
    cases job <;> simp [PromiseJob.weight]
  have hmore : ∀ (s' : RunPromises τ) (more : List PromiseJob), s'.jobs = rest ++ more →
      (more.map PromiseJob.weight).sum < job.weight → s'.weight < s.weight := by
    intro s' more hmore hless
    rw [weight, weight, hmore, hjobs, List.map_append, List.sum_append, List.map_cons, List.sum_cons]
    omega
  cases job with
  | start =>
      have haborted : s.aborted.isSome = true := by
        obtain ⟨-, hwork, ⟨-, hop⟩ | ⟨hne, -⟩ | ⟨hne, -⟩⟩ := h.fed.head hjobs rfl
        · rcases hdue with (hw | haborted) | hsettled
          · exact absurd hw (by rw [hwork]; simp)
          · exact haborted
          · exact absurd hsettled (by rw [hop]; simp [OperationCall.settlement])
        · exact absurd hne (by simp)
        · exact absurd hne (by simp)
      cases hsignal : s.signal with
      | none => exact absurd haborted (by rw [(h.unsignalled hsignal).2.2]; simp)
      | some reason =>
          have hrun : s.run .start rest = some ((s.take rest).settleWork (.error reason)) := by
            simp only [RunPromises.run, hsignal]
          exact ⟨_, hrun, hmore _ [.unwrap, .raceWork] rfl (by decide), hidle⟩
  | subscribe =>
      obtain ⟨-, -, ⟨hne, -⟩ | ⟨-, result, hop⟩ | ⟨hne, -⟩⟩ := h.fed.head hjobs rfl
      · exact absurd hne (by simp)
      · have hquiet := (idle_iff.mp hidle).2
        cases result with
        | none =>
            have hrun : s.run .subscribe rest =
                some { s with jobs := rest, operation := .returned true none } := by
              simp only [RunPromises.run, hop]
            exact ⟨_, hrun, hlighter _ rfl, idle_iff.mpr ⟨by simp, hquiet⟩⟩
        | some result =>
            have hrun : s.run .subscribe rest = some
                { s with jobs := rest ++ [.adopt], operation := .returned true (some result) } := by
              simp only [RunPromises.run, hop]
            exact ⟨_, hrun, hmore _ [.adopt] rfl (by decide), idle_iff.mpr ⟨by simp, hquiet⟩⟩
      · exact absurd hne (by simp)
  | adopt =>
      obtain ⟨-, -, ⟨hne, -⟩ | ⟨hne, -⟩ | ⟨-, result, hop⟩⟩ := h.fed.head hjobs rfl
      · exact absurd hne (by simp)
      · exact absurd hne (by simp)
      · have hrun : s.run .adopt rest =
            some (((s.take rest).reaches (.operation result)).settleWork result) := by
          simp only [RunPromises.run, hop]
        exact ⟨_, hrun, hmore _ [.unwrap, .raceWork] rfl (by decide), hidle⟩
  | unwrap => exact ⟨_, rfl, hmore _ [.cleanup] rfl (by decide), hidle⟩
  | cleanup => exact ⟨_, rfl, hlighter _ rfl, hidle⟩
  | resume => exact ⟨_, rfl, hlighter _ rfl, hidle⟩
  | raceWork | raceAborted =>
      refine ⟨_, rfl, ?_, ?_⟩
      · unfold RunPromises.settleRace
        split
        · exact hlighter _ rfl
        · exact hmore _ [.resume] rfl (by decide)
      · unfold RunPromises.settleRace
        split <;> exact hidle

/-- With an empty queue, a `run` that is due has settled. -/
theorem Sound.answered (h : Sound s) (hreturns : Returns s) (hdue : Due s) (hjobs : s.jobs = []) :
    s.result.isSome = true := by
  have hsettled : s.HasSettled := by
    rcases hdue with hsettled | hsettlement
    · exact hsettled
    · exact h.hasSettled_of_empty hjobs hsettlement
  obtain ⟨hfirst, hdecided⟩ := h.decided hsettled
  rw [RunPromises.decided, hjobs, List.findSome?_nil, Option.or_none] at hdecided
  rcases hreturns.answered (hdecided ▸ hfirst) with hresult | hresume
  · exact hresult
  · exact absurd hresume (by simp [hjobs])

/-- Once a cause has happened, the promise jobs alone settle a `run`. -/
theorem settles_of_occurred (h : (machine τ).Reachable s) (hidle : s.idle = true)
    (hoccurred : s.occurred ≠ []) :
    ∃ s', (machine τ).LeadsIn (fun _ l => l = .job) s s' ∧ s'.result.isSome = true := by
  refine Machine.leadsIn_of_decreasing
    (I := fun s => (machine τ).Reachable s ∧ s.idle = true ∧ s.occurred ≠ []) weight ?_ s
    ⟨h, hidle, hoccurred⟩
  rintro a ⟨ha, hquiet, hany⟩
  obtain ⟨hsound, hreturns⟩ := sound_of_reachable ha
  obtain ⟨hhistory, hordered⟩ := ordered_of_reachable ha
  have hdue := hsound.due hhistory hordered (idle_iff.mp hquiet).2 hany
  cases hjobs : a.jobs with
  | nil => exact Or.inl (hsound.answered hreturns hdue hjobs)
  | cons job rest =>
      obtain ⟨b, hrun, hless, hidle'⟩ := hsound.progress hquiet hdue hjobs
      have hstep : (machine τ).step a .job = some b := by
        simp only [machine, step, hquiet, hjobs, hrun]
      obtain ⟨happened, -, hmore, -, -⟩ := step_move (l := .job) hsound hstep
      refine Or.inr ⟨.job, b, rfl, hstep, ⟨ha.snoc hstep, hidle', ?_⟩, hless⟩
      rw [hmore]
      exact List.append_ne_nil_of_left_ne_nil hany _

/-! ## Once -/

/-- What a step leaves alone when it settles no promise that `run` awaits. -/
def SameRace (s s' : RunPromises τ) : Prop := s'.race = s.race ∧ s'.result = s.result

theorem onAbort_race : SameRace s s.onAbort := by
  unfold onAbort
  split <;> exact ⟨rfl, rfl⟩

theorem abortController_race (code : FailureCode) (cause : Cause τ) :
    SameRace s (s.abortController code cause) := by
  unfold abortController
  split
  · exact ⟨rfl, rfl⟩
  · dsimp only
    split
    · exact ⟨rfl, rfl⟩
    · exact onAbort_race

/-- A race that has settled stays as it is, and `run` returns what it has settled with. -/
theorem race_of_step (hstep : s.step l = some s') :
    (s.race.isSome = true → s'.race = s.race) ∧ (s'.result = s.result ∨ s'.result = s.race) := by
  have same : SameRace s s' →
      (s.race.isSome = true → s'.race = s.race) ∧ (s'.result = s.result ∨ s'.result = s.race) :=
    fun hsame => ⟨fun _ => hsame.1, Or.inl hsame.2⟩
  cases l with
  | leave threw =>
      simp only [step, leave] at hstep
      split at hstep
      · exact same (Option.some.inj hstep ▸ ⟨rfl, rfl⟩)
      · exact same (Option.some.inj hstep ▸ ⟨rfl, rfl⟩)
      · exact absurd hstep (by simp)
  | job =>
      simp only [step] at hstep
      split at hstep
      · next job rest _ _ =>
          cases job with
          | start | subscribe =>
              simp only [run] at hstep
              split at hstep <;>
                first | exact same (Option.some.inj hstep ▸ ⟨rfl, rfl⟩) | exact absurd hstep (by simp)
          | adopt =>
              simp only [run] at hstep
              split at hstep
              · exact same (Option.some.inj hstep ▸ ⟨rfl, rfl⟩)
              · exact absurd hstep (by simp)
          | unwrap | cleanup => exact same (Option.some.inj hstep ▸ ⟨rfl, rfl⟩)
          | raceWork | raceAborted =>
              obtain rfl := Option.some.inj hstep
              unfold settleRace
              split
              · exact ⟨fun _ => rfl, Or.inl rfl⟩
              · next hrace => exact ⟨fun hsome => absurd hsome (by simp [show s.race = none from hrace]), Or.inl rfl⟩
          | resume =>
              obtain rfl := Option.some.inj hstep
              exact ⟨fun _ => rfl, Or.inr rfl⟩
      · exact absurd hstep (by simp)
  | settle result =>
      simp only [step, settle] at hstep
      split at hstep
      · exact same (Option.some.inj hstep ▸ ⟨rfl, rfl⟩)
      · exact absurd hstep (by simp)
  | expire =>
      simp only [step, expire] at hstep
      split at hstep
      · exact same (Option.some.inj hstep ▸ abortController_race _ _)
      · exact absurd hstep (by simp)
  | close =>
      obtain rfl := Option.some.inj hstep
      refine same ?_
      unfold close
      split
      · exact abortController_race _ _
      · exact ⟨rfl, rfl⟩
  | abort reason =>
      simp only [step, abort] at hstep
      split at hstep
      · exact absurd hstep (by simp)
      · exact same (Option.some.inj hstep ▸ ⟨rfl, rfl⟩)
      · exact same (Option.some.inj hstep ▸ ⟨rfl, rfl⟩)
  | dispatch =>
      simp only [step, dispatch] at hstep
      split at hstep
      · exact same (Option.some.inj hstep ▸ onAbort_race)
      · exact absurd hstep (by simp)

theorem result_of_leads (h : (machine τ).Reachable s) {result : Except Thrown τ}
    (hresult : s.result = some result) (hleads : (machine τ).Leads s s') : s'.result = some result := by
  have key : s'.race = some result ∧ s'.result = some result := by
    refine hleads.invariant (I := fun a => a.race = some result ∧ a.result = some result)
      ⟨(sound_of_reachable h).2.result result hresult, hresult⟩ ?_
    rintro a l b ⟨hrace, hbefore⟩ hstep
    obtain ⟨hkeep, hreturns⟩ := race_of_step hstep
    refine ⟨(hkeep (by rw [hrace]; rfl)).trans hrace, ?_⟩
    rcases hreturns with hsame | hraced
    · exact hsame.trans hbefore
    · exact hraced.trans hrace
  exact key.2

/-! ## First cause wins -/

/-- In the order in which things happen, as opposed to the order in which they reach a `run`. -/
def FirstWins (s : RunPromises τ) : Prop :=
  ∀ result, s.result = some result → ∃ cause, s.occurred.head? = some cause ∧ result = cause.verdict

/-- A `run` settles, once, with the verdict over the first cause that has reached it. The deadline
    and `close` reach it when they happen; so does an abort of the caller, unless its listeners call
    `close` first; and the settlement of the operation, with the promise job that brings it, unless the
    caller aborts or `close` is called before that job: the deadline never comes in between. -/
theorem first_cause_wins (h : (machine τ).Reachable s) :
    (∀ result, s.result = some result →
      (∃ cause, s.reached.head? = some cause ∧ result = cause.verdict) ∧
        ∀ s', (machine τ).Leads s s' → s'.result = some result) ∧
    (s.idle = true → s.occurred ≠ [] →
      ∃ s', (machine τ).LeadsIn (fun _ l => l = .job) s s' ∧ s'.result.isSome = true) ∧
    (∀ cause ∈ s.reached, cause ∈ s.occurred) ∧
    (s.occurred.head? = some .timeout → s.reached.head? = some .timeout) ∧
    (s.occurred.head? = some .shutdown → s.reached.head? = some .shutdown) ∧
    (s.occurred.head? = some .cancelled → (s.reached = [] ∧ s.dispatching = true) ∨
      s.reached.head? = some .cancelled ∨ s.reached.head? = some .shutdown) ∧
    (∀ result, s.occurred.head? = some (.operation result) → (s.reached = [] ∧ s.jobs ≠ []) ∨
      s.reached.head? = some (.operation result) ∨ s.reached.head? = some .cancelled ∨
      s.reached.head? = some .shutdown) ∧
    (∀ result, s.occurred.head? = some (.operation result) → .cancelled ∉ s.occurred →
      .shutdown ∉ s.occurred → ∀ value, s.result = some value → value = result) := by
  obtain ⟨hsound, hreturns⟩ := sound_of_reachable h
  obtain ⟨hhistory, hordered⟩ := ordered_of_reachable h
  have hverdict : ∀ result, s.result = some result →
      ∃ cause, s.reached.head? = some cause ∧ result = cause.verdict := by
    intro result hresult
    have hrace := hreturns.result result hresult
    have hfirst : s.first = some result := by
      obtain ⟨-, hdecided⟩ := hsound.decided (hsound.race (by rw [hrace]; rfl))
      rw [← hdecided, RunPromises.decided, hrace]
      rfl
    obtain ⟨cause, hcause, hverdict⟩ := Option.map_eq_some_iff.mp hfirst
    exact ⟨cause, hcause, hverdict.symm⟩
  have hqueued : ∀ result, s.occurred.head? = some (.operation result) → s.reached = [] →
      s.jobs ≠ [] := by
    intro result hhead hempty hjobs
    have hsettlement := (hhistory.settlement result).mp (List.mem_of_mem_head? hhead)
    exact hsound.reached_ne_nil (hsound.hasSettled_of_empty hjobs (by rw [hsettlement]; rfl)) hempty
  refine ⟨fun result hresult =>
      ⟨hverdict result hresult, fun s' hleads => result_of_leads h hresult hleads⟩,
    settles_of_occurred h, hhistory.reached, hordered.timeout, hordered.shutdown, hordered.cancelled,
    fun result hhead => (hordered.operation result hhead).imp
      (fun hempty => ⟨hempty, hqueued result hhead hempty⟩) id,
    fun result hhead hcancelled hshutdown value hvalue => ?_⟩
  obtain ⟨cause, hcause, rfl⟩ := hverdict value hvalue
  have hin := hhistory.reached cause (List.mem_of_mem_head? hcause)
  rcases hordered.operation result hhead with hempty | hoperation | hother | hother
  · rw [hempty] at hcause
    exact absurd hcause (by simp)
  · obtain rfl := Option.some.inj (hcause.symm.trans hoperation)
    rfl
  · obtain rfl := Option.some.inj (hcause.symm.trans hother)
    exact absurd hin hcancelled
  · obtain rfl := Option.some.inj (hcause.symm.trans hother)
    exact absurd hin hshutdown

/-- The deadline expires, and the operation reacts by rejecting at once with the reason it is given. -/
theorem first_cause_wins_timeout : ∃ s : RunPromises Nat,
    s.occurred = [.timeout, .operation (.error (.runtimeFailure .timeout))] ∧
      ∀ s', (machine Nat).Leads s s' → s'.result = some (.error (.runtimeFailure .timeout)) := by
  let final : RunPromises Nat :=
    { jobs := [.unwrap, .raceWork], controller := some .timeout,
      signal := some (.runtimeFailure .timeout),
      operation := .returned true (some (.error (.runtimeFailure .timeout))),
      work := some (.error (.runtimeFailure .timeout)), aborted := some .timeout,
      race := some (.error (.runtimeFailure .timeout)),
      result := some (.error (.runtimeFailure .timeout)), timer := false, listening := false,
      occurred := [.timeout, .operation (.error (.runtimeFailure .timeout))],
      reached := [.timeout, .operation (.error (.runtimeFailure .timeout))] }
  have hexec : (machine Nat).exec (machine Nat).init [.job, .leave none, .job, .expire,
      .settle (.error (.runtimeFailure .timeout)), .job, .job, .job] = some final := rfl
  exact ⟨final, rfl, ((first_cause_wins (Machine.leads_of_exec hexec)).1 _ rfl).2⟩

/-- The operation settles, then the caller aborts, before the promise job that brings the settlement
    to the race. Or the caller aborts, and a listener of its signal calls `close`. -/
theorem overtaken :
    (∃ s : RunPromises Nat, (machine Nat).Reachable s ∧ s.occurred = [.operation (.ok 7), .cancelled] ∧
      ¬ FirstWins s) ∧
    (∃ s : RunPromises Nat, (machine Nat).Reachable s ∧ s.occurred = [.cancelled, .shutdown] ∧
      ¬ FirstWins s) := by
  refine ⟨?_, ?_⟩
  · let final : RunPromises Nat :=
      { jobs := [.cleanup], caller := some (.other "stop"), signal := some (.other "stop"),
        operation := .returned true (some (.ok 7)), work := some (.ok 7), aborted := some .cancelled,
        race := some (.error (.runtimeFailure .cancelled)),
        result := some (.error (.runtimeFailure .cancelled)), listening := false,
        occurred := [.operation (.ok 7), .cancelled], reached := [.cancelled, .operation (.ok 7)] }
    have hexec : (machine Nat).exec (machine Nat).init [.job, .leave none, .job, .settle (.ok 7),
        .abort (.other "stop"), .dispatch, .job, .job, .job, .job, .job] = some final := rfl
    refine ⟨final, Machine.leads_of_exec hexec, rfl, fun hwins => ?_⟩
    obtain ⟨cause, hcause, hverdict⟩ := hwins (.error (.runtimeFailure .cancelled)) rfl
    obtain rfl := Option.some.inj hcause
    exact absurd hverdict (by simp [Cause.verdict])
  · let final : RunPromises Nat :=
      { jobs := [.cleanup], caller := some (.other "stop"), signal := some (.other "stop"),
        controller := some .shutting_down, work := some (.error (.other "stop")),
        aborted := some .shutting_down, race := some (.error (.runtimeFailure .shutting_down)),
        result := some (.error (.runtimeFailure .shutting_down)), listening := false,
        occurred := [.cancelled, .shutdown], reached := [.shutdown, .cancelled] }
    have hexec : (machine Nat).exec (machine Nat).init [.abort (.other "stop"), .close, .dispatch,
        .job, .job, .job, .job, .job] = some final := rfl
    refine ⟨final, Machine.leads_of_exec hexec, rfl, fun hwins => ?_⟩
    obtain ⟨cause, hcause, hverdict⟩ := hwins (.error (.runtimeFailure .shutting_down)) rfl
    obtain rfl := Option.some.inj hcause
    exact absurd hverdict (by simp [Cause.verdict])

end RunPromises

end SecureMcp
