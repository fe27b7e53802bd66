import SecureMcp.Execution.Promises

set_option autoImplicit false

/-! # First cause wins

A `run` settles with the first cause that reaches it. `Sound` ties the promise queue to `reached`:
whichever promise of the race settles first has its job in the queue first (`decided`), and
everything that happens later finds the race decided. -/

namespace SecureMcp

namespace RunPromises

variable {τ : Type} {s s' : RunPromises τ} {l : Label τ}

/-! ## What the queue will do -/

/-- The jobs that bring `work` closer to its settlement. -/
def feeds : PromiseJob → Bool
  | .start | .subscribe | .adopt => true
  | _ => false

/-- What a job will settle the race with, if nothing has settled it before. -/
def offer (s : RunPromises τ) : PromiseJob → Option (Except Thrown τ)
  | .raceWork => s.work
  | .raceAborted => s.rejection
  | _ => none

/-- How the race has settled, or will. -/
def decided (s : RunPromises τ) : Option (Except Thrown τ) := s.race.or (s.jobs.findSome? s.offer)

/-- The verdict over the first cause that has reached this `run`. -/
def first (s : RunPromises τ) : Option (Except Thrown τ) := s.reached.head?.map Cause.verdict

/-- One of the two promises of the race has settled. -/
def HasSettled (s : RunPromises τ) : Prop := s.work.isSome = true ∨ s.aborted.isSome = true

/-- At most one job brings `work` closer to its settlement, and none does once it has settled. -/
def Fed (s : RunPromises τ) : Prop :=
  match s.operation with
  | .uncalled =>
    (s.jobs.filter feeds = [.start] ∧ s.work = none) ∨
      (s.jobs.filter feeds = [] ∧ s.work.isSome = true)
  | .running => s.jobs.filter feeds = [] ∧ s.work = none
  | .threw _ => s.jobs.filter feeds = [] ∧ s.work.isSome = true
  | .returned false _ => s.jobs.filter feeds = [.subscribe] ∧ s.work = none
  | .returned true none => s.jobs.filter feeds = [] ∧ s.work = none
  | .returned true (some _) =>
    (s.jobs.filter feeds = [.adopt] ∧ s.work = none) ∨
      (s.jobs.filter feeds = [] ∧ s.work.isSome = true)

structure Sound (s : RunPromises τ) : Prop where
  fed : Fed s
  raceWork : .raceWork ∈ s.jobs → s.work.isSome = true
  raceAborted : .raceAborted ∈ s.jobs → s.aborted.isSome = true
  /-- Nothing decides the race but one of its promises. -/
  race : s.race.isSome = true → s.HasSettled
  decided : s.HasSettled → s.first.isSome = true ∧ s.decided = s.first
  /-- Until one of them settles, nothing has reached this `run`, unless its controller was aborted
      while an abort of the caller was on its way. -/
  waiting : ¬ s.HasSettled → s.first =
    if s.dispatching then s.controller.map (fun code => .error (.runtimeFailure code)) else none
  signal : s.signal.isSome = true → s.dispatching = true ∨ s.aborted.isSome = true ∨ s.listening = false
  unsignalled : s.signal = none → s.dispatching = false ∧ s.controller = none ∧ s.aborted = none
  listening : s.listening = false → s.race.isSome = true

theorem Sound.init : Sound ({} : RunPromises τ) := by
  constructor <;> simp [Fed, feeds, HasSettled, first]

theorem idle_iff : s.idle = true ↔ s.operation ≠ .running ∧ s.dispatching = false := by
  unfold idle
  split
  · next hop => simp [hop]
  · next hop => simpa using fun _ => hop

theorem first_reaches (s : RunPromises τ) (cause : Cause τ) :
    (s.reaches cause).first = some (s.first.getD cause.verdict) := by
  rw [first, first, reaches]
  cases s.reached <;> rfl

/-- A later cause does not matter. -/
theorem first_reaches_of_isSome (h : s.first.isSome = true) (cause : Cause τ) :
    (s.reaches cause).first = s.first := by
  rw [first_reaches]
  obtain ⟨verdict, hverdict⟩ := Option.isSome_iff_exists.mp h
  rw [hverdict]
  rfl

/-- Before one of its promises settles, the queue offers the race nothing. -/
theorem Sound.decided_eq_none (h : Sound s) (hopen : ¬ s.HasSettled) : s.decided = none := by
  have hrace : s.race = none := by
    cases hr : s.race with
    | none => rfl
    | some _ => exact absurd (h.race (by rw [hr]; rfl)) hopen
  rw [RunPromises.decided, hrace, Option.none_or, List.findSome?_eq_none_iff]
  intro job hjob
  cases job with
  | raceWork => exact absurd (Or.inl (h.raceWork hjob)) hopen
  | raceAborted => exact absurd (Or.inr (h.raceAborted hjob)) hopen
  | _ => rfl

/-- With an empty queue, what the operation has settled with has been taken over. -/
theorem Sound.hasSettled_of_empty (h : Sound s) (hjobs : s.jobs = [])
    (hsettlement : s.operation.settlement.isSome = true) : s.HasSettled := by
  have hfed := h.fed
  unfold Fed at hfed
  split at hfed
  · next hop => exact absurd hsettlement (by rw [hop]; simp [OperationCall.settlement])
  · next hop => exact absurd hsettlement (by rw [hop]; simp [OperationCall.settlement])
  · exact Or.inl hfed.2
  · exact absurd hfed.1 (by simp [hjobs])
  · next hop => exact absurd hsettlement (by rw [hop]; simp [OperationCall.settlement])
  · rcases hfed with ⟨hadopt, -⟩ | ⟨-, hwork⟩
    · exact absurd hadopt (by simp [hjobs])
    · exact Or.inl hwork

/-- Where one of its promises has settled, something has reached this `run`. -/
theorem Sound.reached_ne_nil (h : Sound s) (hsettled : s.HasSettled) : s.reached ≠ [] := by
  intro hnil
  have hfirst := (h.decided hsettled).1
  rw [first, hnil] at hfirst
  exact absurd hfirst (by simp)

theorem findSome?_congr {α β : Type} {l : List α} {f g : α → Option β} (h : ∀ a ∈ l, f a = g a) :
    l.findSome? f = l.findSome? g := by
  induction l with
  | nil => rfl
  | cons a rest ih =>
      rw [List.findSome?_cons, List.findSome?_cons, h a List.mem_cons_self,
        ih (fun b hb => h b (List.mem_cons_of_mem a hb))]

/-- What later jobs offer only matters when nothing is decided. -/
theorem decided_append (s s' : RunPromises τ) (hrace : s'.race = s.race) (added : List PromiseJob)
    (hjobs : s'.jobs = s.jobs ++ added) (hoffer : ∀ job ∈ s.jobs, s'.offer job = s.offer job) :
    s'.decided = s.decided.or (added.findSome? s'.offer) := by
  rw [decided, decided, hrace, hjobs, List.findSome?_append, findSome?_congr hoffer, Option.or_assoc]

/-- What a step leaves alone when it only moves `work` forward. -/
structure SameSignals (s s' : RunPromises τ) : Prop where
  controller : s'.controller = s.controller
  signal : s'.signal = s.signal
  dispatching : s'.dispatching = s.dispatching
  aborted : s'.aborted = s.aborted
  listening : s'.listening = s.listening

/-- A step that only moves jobs which are no reactions of the race. -/
theorem Sound.shift (h : Sound s) (hsignals : SameSignals s s') (hwork : s'.work = s.work)
    (hrace : s'.race = s.race) (hreached : s'.reached = s.reached) (hfed : Fed s')
    (hsub : ∀ job ∈ s'.jobs, job = .raceWork ∨ job = .raceAborted → job ∈ s.jobs)
    (hsame : s'.jobs.findSome? s.offer = s.jobs.findSome? s.offer) : Sound s' := by
  have hoffer : s'.offer = s.offer := by
    funext job
    cases job <;> simp only [offer, rejection, hwork, hsignals.aborted]
  have hsettled : s'.HasSettled ↔ s.HasSettled := by
    rw [HasSettled, HasSettled, hwork, hsignals.aborted]
  have hfirst : s'.first = s.first := by rw [first, first, hreached]
  constructor
  case fed => exact hfed
  case raceWork => exact fun hjob => hwork ▸ h.raceWork (hsub _ hjob (Or.inl rfl))
  case raceAborted =>
    intro hjob
    rw [hsignals.aborted]
    exact h.raceAborted (hsub _ hjob (Or.inr rfl))
  case race => exact fun hr => hsettled.mpr (h.race (hrace ▸ hr))
  case decided =>
    intro hs
    rw [hfirst, RunPromises.decided, hrace, hoffer, hsame]
    exact h.decided (hsettled.mp hs)
  case waiting =>
    intro hs
    rw [hfirst, hsignals.dispatching, hsignals.controller]
    exact h.waiting (fun hold => hs (hsettled.mpr hold))
  case signal =>
    rw [hsignals.signal, hsignals.dispatching, hsignals.aborted, hsignals.listening]
    exact h.signal
  case unsignalled =>
    rw [hsignals.signal, hsignals.dispatching, hsignals.controller, hsignals.aborted]
    exact h.unsignalled
  case listening =>
    rw [hsignals.listening, hrace]
    exact h.listening

/-! ## Each step -/

/-- `work` settles. Either this decides the race, and is the first cause, or the race was decided
    before. -/
theorem Sound.settleWork (h : Sound s) (taken : List PromiseJob) {rest : List PromiseJob} (hjobs : s.jobs = taken ++ rest)
    (htaken : taken.findSome? s.offer = none) (result : Except Thrown τ)
    (hwork : s.work = none) {t : RunPromises τ} (hsignals : SameSignals s t)
    (ht : t.jobs = rest ++ [.unwrap, .raceWork] ∧ t.work = some result ∧ t.race = s.race)
    (hfirst : t.first.isSome = true)
    (hopen : ¬ s.HasSettled → t.first = some result) (hkeep : s.HasSettled → t.first = s.first)
    (hfed : Fed t) : Sound t := by
  obtain ⟨htjobs, htwork, htrace⟩ := ht
  have hsettled : t.HasSettled := Or.inl (by rw [htwork]; rfl)
  have hrest : ∀ other ∈ rest, t.offer other = s.offer other := by
    intro other hother
    have hmem : other ∈ s.jobs := by rw [hjobs]; exact List.mem_append_right _ hother
    cases other with
    | raceWork => exact absurd (h.raceWork hmem) (by rw [hwork]; simp)
    | raceAborted => simp only [offer, rejection, hsignals.aborted]
    | _ => rfl
  constructor
  case fed => exact hfed
  case raceWork => exact fun _ => by rw [htwork]; rfl
  case raceAborted =>
    intro hjob
    rw [htjobs] at hjob
    rw [hsignals.aborted]
    rcases List.mem_append.mp hjob with hin | hadded
    · exact h.raceAborted (by rw [hjobs]; exact List.mem_append_right _ hin)
    · exact absurd hadded (by simp)
  case race => exact fun _ => hsettled
  case decided =>
    intro _
    have hold : s.decided = s.race.or (rest.findSome? s.offer) := by
      rw [RunPromises.decided, hjobs, List.findSome?_append, htaken, Option.none_or]
    have hnew : t.decided = s.decided.or (some result) := by
      rw [hold, RunPromises.decided, htrace, htjobs, List.findSome?_append, findSome?_congr hrest,
        ← Option.or_assoc]
      congr 1
      simp only [List.findSome?_cons, offer, htwork]
    refine ⟨hfirst, ?_⟩
    by_cases hbefore : s.HasSettled
    · obtain ⟨hsome, hdecided⟩ := h.decided hbefore
      obtain ⟨value, hvalue⟩ := Option.isSome_iff_exists.mp hsome
      rw [hnew, hkeep hbefore, hdecided, hvalue]
      rfl
    · rw [hnew, h.decided_eq_none hbefore, hopen hbefore]
      rfl
  case waiting => exact fun hs => absurd hsettled hs
  case signal =>
    rw [hsignals.signal, hsignals.dispatching, hsignals.aborted, hsignals.listening]
    exact h.signal
  case unsignalled =>
    rw [hsignals.signal, hsignals.dispatching, hsignals.controller, hsignals.aborted]
    exact h.unsignalled
  case listening =>
    rw [hsignals.listening, htrace]
    exact h.listening

/-- A reaction of the race runs: the race settles as decided. -/
theorem Sound.settleRace (h : Sound s) {rest : List PromiseJob} {job : PromiseJob}
    (hjobs : s.jobs = job :: rest) (hfeeds : feeds job = false) (hoffer : (s.offer job).isSome = true)
    (hsettled : s.HasSettled) : Sound ((s.take rest).settleRace (s.offer job)) := by
  have hdecided := h.decided hsettled
  have hfilter : s.jobs.filter feeds = rest.filter feeds := by
    rw [hjobs, List.filter_cons_of_neg (by rw [hfeeds]; exact Bool.false_ne_true)]
  have hsub : ∀ other ∈ rest, other ∈ s.jobs := fun other hother => by
    rw [hjobs]; exact List.mem_cons_of_mem _ hother
  cases hrace : s.race with
  | some value =>
      have heq : (s.take rest).settleRace (s.offer job) = s.take rest := by
        simp only [RunPromises.settleRace, take, hrace]
      rw [heq]
      have hfed : Fed (s.take rest) := by
        have := h.fed
        rw [Fed, hfilter] at this
        exact this
      have hkeep : (s.take rest).decided = s.decided := by
        rw [RunPromises.decided, RunPromises.decided, hrace]
        show (s.race).or _ = _
        rw [hrace]
        rfl
      exact
        { fed := hfed
          raceWork := fun hjob => h.raceWork (hsub _ hjob)
          raceAborted := fun hjob => h.raceAborted (hsub _ hjob)
          race := h.race
          decided := fun hs => ⟨(h.decided hs).1, hkeep.trans (h.decided hs).2⟩
          waiting := h.waiting
          signal := h.signal
          unsignalled := h.unsignalled
          listening := h.listening }
  | none =>
      obtain ⟨value, hvalue⟩ := Option.isSome_iff_exists.mp hoffer
      have heq : (s.take rest).settleRace (s.offer job) =
          { s with jobs := rest ++ [.resume], race := some value } := by
        simp only [RunPromises.settleRace, take, hrace, hvalue]
      rw [heq]
      have hfed : Fed ({ s with jobs := rest ++ [.resume], race := some value } : RunPromises τ) := by
        have := h.fed
        rw [Fed, hfilter] at this
        rw [Fed, List.filter_append]
        simpa [feeds] using this
      have hvalue' : some value = s.first := by
        rw [← hdecided.2, RunPromises.decided, hrace, Option.none_or, hjobs, List.findSome?_cons, hvalue]
      exact
        { fed := hfed
          raceWork := fun hjob => h.raceWork (hsub _ (by simpa using hjob))
          raceAborted := fun hjob => h.raceAborted (hsub _ (by simpa using hjob))
          race := fun _ => hsettled
          decided := fun hs => ⟨(h.decided hs).1, hvalue'⟩
          waiting := h.waiting
          signal := h.signal
          unsignalled := h.unsignalled
          listening := fun _ => rfl }

/-- What a step leaves alone when it only moves the signals forward. -/
structure SameWork (s s' : RunPromises τ) : Prop where
  jobs : s'.jobs = s.jobs
  operation : s'.operation = s.operation
  work : s'.work = s.work
  race : s'.race = s.race
  aborted : s'.aborted = s.aborted
  listening : s'.listening = s.listening

theorem SameWork.fed (h : SameWork s s') (hfed : Fed s) : Fed s' := by
  rw [Fed, h.operation, h.jobs, h.work]
  exact hfed

theorem SameWork.hasSettled (h : SameWork s s') : s'.HasSettled ↔ s.HasSettled := by
  rw [HasSettled, HasSettled, h.work, h.aborted]

theorem SameWork.decided (h : SameWork s s') : s'.decided = s.decided := by
  have hoffer : s'.offer = s.offer := by
    funext job
    cases job <;> simp only [offer, rejection, h.work, h.aborted]
  rw [RunPromises.decided, RunPromises.decided, h.race, h.jobs, hoffer]

/-- The signals move on and no event is dispatched. -/
theorem Sound.signals (h : Sound s) (hsame : SameWork s s')
    (hkeep : s.HasSettled → s'.first = s.first)
    (hwaiting : ¬ s.HasSettled → s'.first =
      if s'.dispatching then s'.controller.map (fun code => .error (.runtimeFailure code)) else none)
    (hsignal : s'.signal.isSome = true →
      s'.dispatching = true ∨ s'.aborted.isSome = true ∨ s'.listening = false)
    (hunsignalled : s'.signal = none →
      s'.dispatching = false ∧ s'.controller = none ∧ s'.aborted = none) : Sound s' := by
  constructor
  case fed => exact hsame.fed h.fed
  case raceWork =>
    rw [hsame.jobs, hsame.work]
    exact h.raceWork
  case raceAborted =>
    rw [hsame.jobs, hsame.aborted]
    exact h.raceAborted
  case race =>
    rw [hsame.race, hsame.hasSettled]
    exact h.race
  case decided =>
    intro hs
    have hbefore := hsame.hasSettled.mp hs
    rw [hkeep hbefore, hsame.decided]
    exact h.decided hbefore
  case waiting => exact fun hs => hwaiting (fun hbefore => hs (hsame.hasSettled.mpr hbefore))
  case signal => exact hsignal
  case unsignalled => exact hunsignalled
  case listening =>
    rw [hsame.listening, hsame.race]
    exact h.listening

/-- The `abort` event of `signal`. Either this decides the race, over the first cause, or the race
    was decided before. -/
theorem Sound.onAbort (h : Sound s) (hsame : SameWork s s') (hsignal : s'.signal.isSome = true)
    (hfirst : s'.first.isSome = true)
    (hopen : ¬ s.HasSettled → s'.first = some (.error (.runtimeFailure s'.abortCode)))
    (hkeep : s.HasSettled → s'.first = s.first) : Sound s'.onAbort := by
  unfold RunPromises.onAbort
  split
  · next hlistens =>
      have hnone : s.aborted = none := by
        rw [← hsame.aborted]
        simpa using (Bool.and_eq_true_iff.mp hlistens).2
      have hsettled : ({ s' with aborted := some s'.abortCode, jobs := s'.jobs ++ [.raceAborted] } :
        RunPromises τ).HasSettled := Or.inr rfl
      have hoffer : ∀ job ∈ s.jobs, ({ s' with
          aborted := some s'.abortCode, jobs := s'.jobs ++ [.raceAborted] } : RunPromises τ).offer job =
            s.offer job := by
        intro job hjob
        cases job with
        | raceWork => exact hsame.work
        | raceAborted => exact absurd (h.raceAborted hjob) (by rw [hnone]; simp)
        | _ => rfl
      constructor
      case fed =>
        have hfed := hsame.fed h.fed
        rw [Fed] at hfed ⊢
        simpa [List.filter_append, feeds] using hfed
      case raceWork =>
        intro hjob
        show s'.work.isSome = true
        rw [hsame.work]
        exact h.raceWork (by rw [← hsame.jobs]; simpa using hjob)
      case raceAborted => exact fun _ => rfl
      case race => exact fun _ => hsettled
      case decided =>
        intro _
        refine ⟨hfirst, ?_⟩
        show _ = s'.first
        have hnew : RunPromises.decided { s' with
            aborted := some s'.abortCode, jobs := s'.jobs ++ [.raceAborted] } =
              s.decided.or (some (.error (.runtimeFailure s'.abortCode))) :=
          decided_append s { s' with aborted := some s'.abortCode, jobs := s'.jobs ++ [.raceAborted] }
            hsame.race [.raceAborted] (by rw [← hsame.jobs]) hoffer
        rw [hnew]
        by_cases hbefore : s.HasSettled
        · obtain ⟨hsome, hdecided⟩ := h.decided hbefore
          obtain ⟨value, hvalue⟩ := Option.isSome_iff_exists.mp hsome
          rw [hkeep hbefore, hdecided, hvalue]
          rfl
        · rw [hopen hbefore, h.decided_eq_none hbefore]
          rfl
      case waiting => exact fun hs => absurd hsettled hs
      case signal => exact fun _ => Or.inr (Or.inl rfl)
      case unsignalled => exact fun hs => absurd hsignal (by rw [show s'.signal = none from hs]; simp)
      case listening =>
        show s'.listening = false → s'.race.isSome = true
        rw [hsame.listening, hsame.race]
        exact h.listening
  · next hdeaf =>
      have hover : s'.aborted.isSome = true ∨ s'.listening = false := by
        rw [Bool.and_eq_true, not_and_or] at hdeaf
        rcases hdeaf with hlistening | haborted
        · exact Or.inr (by simpa using hlistening)
        · exact Or.inl (Option.isSome_iff_ne_none.mpr (by simpa using haborted))
      have hbefore : s.HasSettled := by
        rcases hover with haborted | hlistening
        · exact Or.inr (hsame.aborted ▸ haborted)
        · exact h.race (h.listening (hsame.listening ▸ hlistening))
      exact h.signals hsame hkeep (fun hs => absurd hbefore hs) (fun _ => Or.inr hover)
        (fun hs => absurd hsignal (by rw [hs]; simp))

/-- Causes that have happened, and timers, do not matter to the race. -/
theorem Sound.occurs (h : Sound s) (cause : Cause τ) (caller : Option Thrown) (timer : Bool) :
    Sound { s.occurs cause with caller, timer } :=
  ⟨h.fed, h.raceWork, h.raceAborted, h.race, h.decided, h.waiting, h.signal, h.unsignalled, h.listening⟩

theorem Sound.first_reaches (h : Sound s) (hsettled : s.HasSettled) (cause : Cause τ) :
    (s.reaches cause).first = s.first :=
  first_reaches_of_isSome (h.decided hsettled).1 cause

theorem Sound.abortController (h : Sound s) {code : FailureCode} {cause : Cause τ}
    (hverdict : cause.verdict = .error (.runtimeFailure code)) :
    Sound (s.abortController code cause) := by
  unfold RunPromises.abortController
  split
  · exact h
  · next hcontroller =>
      have hopen : ¬ s.HasSettled → (s.reaches cause).first = some (.error (.runtimeFailure code)) := by
        intro hwaits
        have hnothing := h.waiting hwaits
        rw [hcontroller, Option.map_none, ite_self] at hnothing
        rw [RunPromises.first_reaches, hnothing, Option.getD_none, hverdict]
      dsimp only
      split
      · next reason hsignal =>
          replace hsignal : s.signal = some reason := hsignal
          refine h.signals ⟨rfl, rfl, rfl, rfl, rfl, rfl⟩ (fun hs => h.first_reaches hs cause)
            (fun hwaits => ?_) h.signal (fun hnone => ?_)
          · have hdispatching : s.dispatching = true := by
              rcases h.signal (by rw [hsignal]; rfl) with hdispatching | haborted | hdeaf
              · exact hdispatching
              · exact absurd (Or.inr haborted) hwaits
              · exact absurd (h.race (h.listening hdeaf)) hwaits
            show (s.reaches cause).first = if s.dispatching then _ else _
            rw [hopen hwaits, hdispatching]
            rfl
          · exact absurd (hsignal.symm.trans hnone) (by simp)
      · next hsignal =>
          refine h.onAbort ⟨rfl, rfl, rfl, rfl, rfl, rfl⟩ rfl ?_ hopen
            (fun hs => h.first_reaches hs cause)
          show (s.reaches cause).first.isSome = true
          rw [RunPromises.first_reaches]
          rfl

theorem Sound.abort (h : Sound s) {reason : Thrown} (hstep : s.abort reason = some s') : Sound s' := by
  unfold RunPromises.abort at hstep
  split at hstep
  · exact absurd hstep (by simp)
  · obtain rfl := Option.some.inj hstep
    exact h.occurs .cancelled (some reason) s.timer
  · next hcaller hsignal =>
      obtain rfl := Option.some.inj hstep
      obtain ⟨hdispatching, hcontroller, haborted⟩ := h.unsignalled hsignal
      refine (h.occurs .cancelled (some reason) s.timer).signals ⟨rfl, rfl, rfl, rfl, rfl, rfl⟩
        (fun _ => rfl) (fun hwaits => ?_) (fun _ => Or.inl rfl) (fun hnone => absurd hnone (by simp))
      have hnothing := h.waiting hwaits
      rw [hdispatching, if_neg Bool.false_ne_true] at hnothing
      show s.first = if true = true then s.controller.map _ else none
      rw [hnothing, hcontroller]
      rfl

theorem Sound.dispatch (h : Sound s) (hstep : s.dispatch = some s') : Sound s' := by
  unfold RunPromises.dispatch at hstep
  split at hstep
  · next hdispatching =>
      obtain rfl := Option.some.inj hstep
      have hsignal : s.signal.isSome = true := by
        rw [Option.isSome_iff_ne_none]
        intro hnone
        exact absurd hdispatching (by rw [(h.unsignalled hnone).1]; exact Bool.false_ne_true)
      refine h.onAbort ⟨rfl, rfl, rfl, rfl, rfl, rfl⟩ hsignal ?_ (fun hwaits => ?_)
        (fun hs => h.first_reaches hs .cancelled)
      · show (s.reaches .cancelled).first.isSome = true
        rw [RunPromises.first_reaches]
        rfl
      · -- Only an abort of the controller can have come first while this one was on its way.
        have hwaiting := h.waiting hwaits
        rw [hdispatching, if_pos rfl] at hwaiting
        show (s.reaches .cancelled).first = some (.error (.runtimeFailure (s.controller.getD .cancelled)))
        rw [RunPromises.first_reaches, hwaiting]
        cases s.controller <;> rfl
  · exact absurd hstep (by simp)

/-! ### Jobs -/

/-- Which job feeds `work` says where its operation is. -/
theorem Fed.head (h : Fed s) {job : PromiseJob} {rest : List PromiseJob} (hjobs : s.jobs = job :: rest)
    (hfeeds : feeds job = true) : rest.filter feeds = [] ∧ s.work = none ∧
      ((job = .start ∧ s.operation = .uncalled) ∨
        (job = .subscribe ∧ ∃ result, s.operation = .returned false result) ∨
        (job = .adopt ∧ ∃ result, s.operation = .returned true (some result))) := by
  have hfilter : s.jobs.filter feeds = job :: rest.filter feeds := by
    rw [hjobs, List.filter_cons_of_pos hfeeds]
  have hone : ∀ other, s.jobs.filter feeds = [other] → job = other ∧ rest.filter feeds = [] := by
    intro other hother
    rw [hfilter] at hother
    exact List.cons.inj hother
  have hnone : s.jobs.filter feeds ≠ [] := by
    rw [hfilter]
    exact List.cons_ne_nil _ _
  unfold Fed at h
  split at h
  · next hop =>
      rcases h with ⟨hjob, hwork⟩ | ⟨hnil, _⟩
      · obtain ⟨rfl, hrest⟩ := hone _ hjob
        exact ⟨hrest, hwork, Or.inl ⟨rfl, hop⟩⟩
      · exact absurd hnil hnone
  · exact absurd h.1 hnone
  · exact absurd h.1 hnone
  · next result hop =>
      obtain ⟨rfl, hrest⟩ := hone _ h.1
      exact ⟨hrest, h.2, Or.inr (Or.inl ⟨rfl, result, hop⟩)⟩
  · exact absurd h.1 hnone
  · next result hop =>
      rcases h with ⟨hjob, hwork⟩ | ⟨hnil, _⟩
      · obtain ⟨rfl, hrest⟩ := hone _ hjob
        exact ⟨hrest, hwork, Or.inr (Or.inr ⟨rfl, result, hop⟩)⟩
      · exact absurd hnil hnone

/-- A job that is no reaction of the race leaves the queue, and such jobs enter it. -/
theorem Sound.requeue (h : Sound s) {job : PromiseJob} {rest : List PromiseJob}
    (added : List PromiseJob) (hjobs : s.jobs = job :: rest) (hjob : s.offer job = none) (hsignals : SameSignals s s')
    (hwork : s'.work = s.work) (hrace : s'.race = s.race) (hreached : s'.reached = s.reached)
    (hjobs' : s'.jobs = rest ++ added) (hadded : ∀ other ∈ added, other ≠ .raceWork ∧ other ≠ .raceAborted)
    (hfed : Fed s') : Sound s' := by
  refine h.shift hsignals hwork hrace hreached hfed (fun other hother hkind => ?_) ?_
  · rw [hjobs'] at hother
    rcases List.mem_append.mp hother with hin | hnew
    · rw [hjobs]
      exact List.mem_cons_of_mem _ hin
    · obtain ⟨hneWork, hneAborted⟩ := hadded other hnew
      rcases hkind with rfl | rfl
      · exact absurd rfl hneWork
      · exact absurd rfl hneAborted
  · have hnothing : added.findSome? s.offer = none := by
      rw [List.findSome?_eq_none_iff]
      intro other hother
      obtain ⟨hneWork, hneAborted⟩ := hadded other hother
      cases other with
      | raceWork => exact absurd rfl hneWork
      | raceAborted => exact absurd rfl hneAborted
      | _ => rfl
    rw [hjobs', hjobs, List.findSome?_append, hnothing, Option.or_none, List.findSome?_cons, hjob]

/-- `throwIfAborted` throws, or the operation is called. -/
theorem Sound.start (h : Sound s) {rest : List PromiseJob} (hjobs : s.jobs = .start :: rest)
    (hidle : s.dispatching = false) (hstep : s.run .start rest = some s') : Sound s' := by
  obtain ⟨hrest, hwork, ⟨-, hop⟩ | ⟨hne, -⟩ | ⟨hne, -⟩⟩ := h.fed.head hjobs rfl
  · simp only [RunPromises.run] at hstep
    split at hstep
    · next reason hsignal =>
        obtain rfl := Option.some.inj hstep
        -- The signal is aborted: its event has decided the race.
        have hsettled : s.HasSettled := by
          rcases h.signal (by rw [hsignal]; rfl) with hdispatching | haborted | hdeaf
          · exact absurd (hdispatching.symm.trans hidle) (by simp)
          · exact Or.inr haborted
          · exact h.race (h.listening hdeaf)
        refine h.settleWork [.start] hjobs rfl (.error reason) hwork
          ⟨rfl, rfl, rfl, rfl, rfl⟩ ⟨rfl, rfl, rfl⟩ (h.decided hsettled).1
          (fun hs => absurd hsettled hs) (fun _ => rfl) ?_
        rw [Fed, show ((s.take rest).settleWork (.error reason)).operation = .uncalled from hop]
        refine Or.inr ⟨?_, rfl⟩
        show List.filter feeds (rest ++ [.unwrap, .raceWork]) = []
        rw [List.filter_append, hrest]
        rfl
    · obtain rfl := Option.some.inj hstep
      exact h.requeue [] hjobs rfl ⟨rfl, rfl, rfl, rfl, rfl⟩ rfl rfl rfl (List.append_nil _).symm
        (by simp) ⟨hrest, hwork⟩
  · exact absurd hne (by simp)
  · exact absurd hne (by simp)

theorem Sound.leave (h : Sound s) {threw : Option Thrown} (hstep : s.leave threw = some s') :
    Sound s' := by
  have hfed := h.fed
  unfold RunPromises.leave at hstep
  split at hstep
  · next error hop hidle =>
      obtain rfl := Option.some.inj hstep
      rw [Fed, hop] at hfed
      obtain ⟨hfilter, hwork⟩ := hfed
      refine h.settleWork [] rfl rfl (.error error) hwork ⟨rfl, rfl, rfl, rfl, rfl⟩
        ⟨rfl, rfl, rfl⟩ ?_ (fun hwaits => ?_) (fun hs => h.first_reaches hs (.operation (.error error)))
        ⟨?_, rfl⟩
      · show (s.reaches _).first.isSome = true
        rw [RunPromises.first_reaches]
        rfl
      · have hnothing := h.waiting hwaits
        rw [hidle, if_neg Bool.false_ne_true] at hnothing
        show (s.reaches _).first = _
        rw [RunPromises.first_reaches, hnothing]
        rfl
      · show List.filter feeds (s.jobs ++ [.unwrap, .raceWork]) = []
        rw [List.filter_append, hfilter]
        rfl
  · next hop hidle =>
      obtain rfl := Option.some.inj hstep
      rw [Fed, hop] at hfed
      refine h.shift ⟨rfl, rfl, rfl, rfl, rfl⟩ rfl rfl rfl ⟨?_, hfed.2⟩ (fun job hjob hkind => ?_) ?_
      · show List.filter feeds (s.jobs ++ [.subscribe]) = [.subscribe]
        rw [List.filter_append, hfed.1]
        rfl
      · rcases List.mem_append.mp hjob with hin | hlast
        · exact hin
        · obtain rfl := List.mem_singleton.mp hlast
          exact absurd hkind (by simp)
      · show List.findSome? s.offer (s.jobs ++ [.subscribe]) = _
        rw [List.findSome?_append]
        exact Option.or_none
  · exact absurd hstep (by simp)

theorem Sound.run (h : Sound s) {job : PromiseJob} {rest : List PromiseJob} (hjobs : s.jobs = job :: rest)
    (hidle : s.dispatching = false) (hresume : job = .resume → s.race.isSome = true)
    (hstep : s.run job rest = some s') : Sound s' := by
  have hfed := h.fed
  cases job with
  | start => exact h.start hjobs hidle hstep
  | subscribe =>
      obtain ⟨hrest, hwork, ⟨hne, -⟩ | ⟨-, result, hop⟩ | ⟨hne, -⟩⟩ := h.fed.head hjobs rfl
      · exact absurd hne (by simp)
      · simp only [RunPromises.run, hop] at hstep
        cases result with
        | none =>
            obtain rfl := Option.some.inj hstep
            exact h.requeue [] hjobs rfl ⟨rfl, rfl, rfl, rfl, rfl⟩ rfl rfl rfl (List.append_nil _).symm
              (by simp) ⟨hrest, hwork⟩
        | some result =>
            obtain rfl := Option.some.inj hstep
            refine h.requeue [.adopt] hjobs rfl ⟨rfl, rfl, rfl, rfl, rfl⟩ rfl rfl rfl rfl (by simp)
              (Or.inl ⟨?_, hwork⟩)
            show List.filter feeds (rest ++ [.adopt]) = [.adopt]
            rw [List.filter_append, hrest]
            rfl
      · exact absurd hne (by simp)
  | adopt =>
      obtain ⟨hrest, hwork, ⟨hne, -⟩ | ⟨hne, -⟩ | ⟨-, result, hop⟩⟩ := h.fed.head hjobs rfl
      · exact absurd hne (by simp)
      · exact absurd hne (by simp)
      · simp only [RunPromises.run, hop] at hstep
        obtain rfl := Option.some.inj hstep
        refine h.settleWork [.adopt] hjobs rfl result hwork ⟨rfl, rfl, rfl, rfl, rfl⟩
          ⟨rfl, rfl, rfl⟩ ?_ (fun hwaits => ?_) (fun hs => h.first_reaches hs (.operation result)) ?_
        · show (s.reaches _).first.isSome = true
          rw [RunPromises.first_reaches]
          rfl
        · have hnothing := h.waiting hwaits
          rw [hidle, if_neg Bool.false_ne_true] at hnothing
          show (s.reaches _).first = _
          rw [RunPromises.first_reaches, hnothing]
          rfl
        · rw [Fed, show (((s.take rest).reaches (.operation result)).settleWork result).operation =
            .returned true (some result) from hop]
          refine Or.inr ⟨?_, rfl⟩
          show List.filter feeds (rest ++ [.unwrap, .raceWork]) = []
          rw [List.filter_append, hrest]
          rfl
  | unwrap =>
      obtain rfl := Option.some.inj hstep
      refine h.requeue [.cleanup] hjobs rfl ⟨rfl, rfl, rfl, rfl, rfl⟩ rfl rfl rfl rfl (by simp) ?_
      rw [Fed, hjobs] at hfed
      rw [Fed, List.filter_append]
      simpa [feeds] using hfed
  | cleanup =>
      obtain rfl := Option.some.inj hstep
      refine h.requeue [] hjobs rfl ⟨rfl, rfl, rfl, rfl, rfl⟩ rfl rfl rfl (List.append_nil _).symm (by simp) ?_
      rw [Fed, hjobs] at hfed
      exact hfed
  | raceWork =>
      obtain rfl := Option.some.inj hstep
      have hwork := h.raceWork (by rw [hjobs]; exact List.mem_cons_self)
      exact h.settleRace hjobs rfl hwork (Or.inl hwork)
  | raceAborted =>
      obtain rfl := Option.some.inj hstep
      have haborted := h.raceAborted (by rw [hjobs]; exact List.mem_cons_self)
      refine h.settleRace hjobs rfl ?_ (Or.inr haborted)
      show (s.aborted.map _).isSome = true
      rw [Option.isSome_map, haborted]
  | resume =>
      obtain rfl := Option.some.inj hstep
      have hrequeued : Sound ({ s with jobs := rest, result := s.race } : RunPromises τ) :=
        h.requeue [] hjobs rfl ⟨rfl, rfl, rfl, rfl, rfl⟩ rfl rfl rfl (List.append_nil _).symm (by simp)
          (by rw [Fed, hjobs] at hfed; exact hfed)
      exact ⟨hrequeued.fed, hrequeued.raceWork, hrequeued.raceAborted, hrequeued.race, hrequeued.decided,
        hrequeued.waiting, fun _ => Or.inr (Or.inr rfl), hrequeued.unsignalled, fun _ => hresume rfl⟩

theorem Sound.settle (h : Sound s) {result : Except Thrown τ} (hstep : s.settle result = some s') :
    Sound s' := by
  have hfed := h.fed
  unfold RunPromises.settle at hstep
  split at hstep
  · next subscribed hop =>
      obtain rfl := Option.some.inj hstep
      rw [Fed, hop] at hfed
      cases subscribed with
      | false =>
          exact h.shift ⟨rfl, rfl, rfl, rfl, rfl⟩ rfl rfl rfl hfed (fun _ hjob _ => hjob) rfl
      | true =>
          refine h.shift ⟨rfl, rfl, rfl, rfl, rfl⟩ rfl rfl rfl (Or.inl ⟨?_, hfed.2⟩)
            (fun job hjob hkind => ?_) ?_
          · show List.filter feeds (s.jobs ++ [.adopt]) = [.adopt]
            rw [List.filter_append, hfed.1]
            rfl
          · rcases List.mem_append.mp hjob with hin | hlast
            · exact hin
            · obtain rfl := List.mem_singleton.mp hlast
              exact absurd hkind (by simp)
          · show List.findSome? s.offer (s.jobs ++ [.adopt]) = _
            rw [List.findSome?_append]
            exact Option.or_none
  · exact absurd hstep (by simp)

/-! ## What `run` returns -/

/-- `run` returns what the race has settled with, once. -/
structure Returns (s : RunPromises τ) : Prop where
  result : ∀ value, s.result = some value → s.race = some value
  resume : .resume ∈ s.jobs → s.race.isSome = true
  /-- Once the race has settled, its reaction is on its way. -/
  answered : s.race.isSome = true → s.result.isSome = true ∨ .resume ∈ s.jobs

theorem Returns.init : Returns ({} : RunPromises τ) := by
  constructor <;> simp

/-- A step that leaves the race and what `run` returns alone. -/
theorem Returns.keep (h : Returns s) (hresult : s'.result = s.result) (hrace : s'.race = s.race)
    (hjobs : .resume ∈ s'.jobs ↔ .resume ∈ s.jobs) : Returns s' := by
  constructor
  case result => rw [hresult, hrace]; exact h.result
  case resume => rw [hjobs, hrace]; exact h.resume
  case answered => rw [hresult, hrace, hjobs]; exact h.answered

theorem Returns.onAbort (h : Returns s) : Returns s.onAbort := by
  unfold RunPromises.onAbort
  split
  · exact h.keep rfl rfl (by simp)
  · exact h

theorem Returns.abortController (h : Returns s) (code : FailureCode) (cause : Cause τ) :
    Returns (s.abortController code cause) := by
  unfold RunPromises.abortController
  split
  · exact h
  · dsimp only
    split
    · exact h.keep rfl rfl Iff.rfl
    · exact Returns.onAbort (h.keep rfl rfl Iff.rfl)

theorem Returns.settleRace (h : Returns s) {job : PromiseJob} {rest : List PromiseJob}
    (hjobs : s.jobs = job :: rest) (hne : job ≠ .resume) {value : Option (Except Thrown τ)}
    (hvalue : value.isSome = true) : Returns ((s.take rest).settleRace value) := by
  have hmem : .resume ∈ rest ↔ .resume ∈ s.jobs := by
    rw [hjobs, List.mem_cons]
    exact ⟨Or.inr, fun hor => hor.resolve_left (Ne.symm hne)⟩
  unfold RunPromises.settleRace
  split
  · exact h.keep rfl rfl hmem
  · next hrace =>
      replace hrace : s.race = none := hrace
      constructor
      case result =>
        intro result hresult
        exact absurd ((h.result result hresult).symm.trans hrace) (by simp)
      case resume => exact fun _ => hvalue
      case answered => exact fun _ => Or.inr (List.mem_append_right _ List.mem_cons_self)

theorem Returns.run (h : Returns s) (hsound : Sound s) {job : PromiseJob} {rest : List PromiseJob}
    (hjobs : s.jobs = job :: rest) (hstep : s.run job rest = some s') : Returns s' := by
  have hmem : job ≠ .resume → (.resume ∈ rest ↔ .resume ∈ s.jobs) := by
    intro hne
    rw [hjobs, List.mem_cons]
    exact ⟨Or.inr, fun hor => hor.resolve_left (Ne.symm hne)⟩
  cases job with
  | start =>
      simp only [RunPromises.run] at hstep
      split at hstep
      · obtain rfl := Option.some.inj hstep
        exact h.keep rfl rfl (by simpa [RunPromises.settleWork, take] using hmem (by simp))
      · obtain rfl := Option.some.inj hstep
        exact h.keep rfl rfl (hmem (by simp))
  | subscribe =>
      simp only [RunPromises.run] at hstep
      split at hstep
      · obtain rfl := Option.some.inj hstep
        exact h.keep rfl rfl (hmem (by simp))
      · obtain rfl := Option.some.inj hstep
        exact h.keep rfl rfl (by simpa using hmem (by simp))
      · exact absurd hstep (by simp)
  | adopt =>
      simp only [RunPromises.run] at hstep
      split at hstep
      · obtain rfl := Option.some.inj hstep
        exact h.keep rfl rfl (by simpa [RunPromises.settleWork, take, reaches] using hmem (by simp))
      · exact absurd hstep (by simp)
  | unwrap =>
      obtain rfl := Option.some.inj hstep
      exact h.keep rfl rfl (by simpa using hmem (by simp))
  | cleanup =>
      obtain rfl := Option.some.inj hstep
      exact h.keep rfl rfl (hmem (by simp))
  | raceWork =>
      obtain rfl := Option.some.inj hstep
      exact h.settleRace hjobs (by simp) (hsound.raceWork (by rw [hjobs]; exact List.mem_cons_self))
  | raceAborted =>
      obtain rfl := Option.some.inj hstep
      have haborted := hsound.raceAborted (by rw [hjobs]; exact List.mem_cons_self)
      exact h.settleRace hjobs (by simp) (by rw [rejection, Option.isSome_map, haborted])
  | resume =>
      obtain rfl := Option.some.inj hstep
      have hrace := h.resume (by rw [hjobs]; exact List.mem_cons_self)
      exact ⟨fun _ hvalue => hvalue, fun _ => hrace, fun _ => Or.inl hrace⟩

theorem Sound.returns_step (h : Sound s) (hreturns : Returns s) (hstep : s.step l = some s') :
    Sound s' ∧ Returns s' := by
  cases l with
  | leave threw =>
      refine ⟨h.leave hstep, ?_⟩
      simp only [step, RunPromises.leave] at hstep
      split at hstep
      · obtain rfl := Option.some.inj hstep
        exact hreturns.keep rfl rfl (by simp [RunPromises.settleWork, reaches, RunPromises.occurs])
      · obtain rfl := Option.some.inj hstep
        exact hreturns.keep rfl rfl (by simp)
      · exact absurd hstep (by simp)
  | job =>
      simp only [step] at hstep
      split at hstep
      · next job rest hquiet hjobs =>
          have hidle := (idle_iff.mp hquiet).2
          have hresume : job = .resume → s.race.isSome = true := fun heq =>
            hreturns.resume (by rw [hjobs, heq]; exact List.mem_cons_self)
          exact ⟨h.run hjobs hidle hresume hstep, hreturns.run h hjobs hstep⟩
      · exact absurd hstep (by simp)
  | settle result =>
      refine ⟨h.settle hstep, ?_⟩
      simp only [step, RunPromises.settle] at hstep
      split at hstep
      · next subscribed _ =>
          obtain rfl := Option.some.inj hstep
          exact hreturns.keep rfl rfl (by cases subscribed <;> simp)
      · exact absurd hstep (by simp)
  | expire =>
      simp only [step, expire] at hstep
      split at hstep
      · obtain rfl := Option.some.inj hstep
        refine ⟨Sound.abortController (h.occurs .timeout s.caller false) rfl,
          Returns.abortController ?_ _ _⟩
        exact hreturns.keep rfl rfl Iff.rfl
      · exact absurd hstep (by simp)
  | close =>
      obtain rfl := Option.some.inj hstep
      unfold close
      split
      · refine ⟨Sound.abortController (h.occurs .shutdown s.caller s.timer) rfl,
          Returns.abortController ?_ _ _⟩
        exact hreturns.keep rfl rfl Iff.rfl
      · exact ⟨h, hreturns⟩
  | abort reason =>
      refine ⟨h.abort hstep, ?_⟩
      simp only [step, RunPromises.abort] at hstep
      split at hstep
      · exact absurd hstep (by simp)
      · obtain rfl := Option.some.inj hstep
        exact hreturns.keep rfl rfl Iff.rfl
      · obtain rfl := Option.some.inj hstep
        exact hreturns.keep rfl rfl Iff.rfl
  | dispatch =>
      refine ⟨h.dispatch hstep, ?_⟩
      simp only [step, RunPromises.dispatch] at hstep
      split at hstep
      · obtain rfl := Option.some.inj hstep
        exact Returns.onAbort (hreturns.keep rfl rfl Iff.rfl)
      · exact absurd hstep (by simp)

theorem sound_of_reachable (h : (machine τ).Reachable s) : Sound s ∧ Returns s :=
  h.invariant (I := fun s => Sound s ∧ Returns s) ⟨.init, .init⟩
    (fun _ _ _ _ hs hstep => hs.1.returns_step hs.2 hstep)

/-! ## What happens first -/

/-- What a step adds to `occurred` and to `reached`. -/
inductive Move (s s' : RunPromises τ) : Option (Cause τ) → List (Cause τ) → Prop
  | quiet (hsettlement : s'.operation.settlement = s.operation.settlement)
      (hdispatching : s'.dispatching = s.dispatching) (hsignal : s'.signal = s.signal)
      (hcontroller : s'.controller = s.controller) : Move s s' none []
  /-- `work` takes over how the operation has settled. -/
  | adopt {result : Except Thrown τ} (hidle : s.dispatching = false)
      (hsettled : s.operation.settlement = some result)
      (hsettlement : s'.operation.settlement = s.operation.settlement)
      (hdispatching : s'.dispatching = s.dispatching) : Move s s' none [.operation result]
  | throw {error : Thrown} (hidle : s.dispatching = false) (hfresh : s.operation.settlement = none)
      (hsettlement : s'.operation.settlement = some (.error error))
      (hdispatching : s'.dispatching = s.dispatching) :
      Move s s' (some (.operation (.error error))) [.operation (.error error)]
  | settle {result : Except Thrown τ} (hfresh : s.operation.settlement = none)
      (hsettlement : s'.operation.settlement = some result)
      (hdispatching : s'.dispatching = s.dispatching) : Move s s' (some (.operation result)) []
  /-- What the operation had settled with has reached this `run`. -/
  | expire (hidle : s.dispatching = false)
      (htaken : s.operation.settlement.isSome = true → s.reached ≠ [])
      (hsettlement : s'.operation.settlement = s.operation.settlement)
      (hdispatching : s'.dispatching = s.dispatching) :
      Move s s' (some .timeout) (if s.controller.isSome then [] else [.timeout])
  | close (hsettlement : s'.operation.settlement = s.operation.settlement)
      (hdispatching : s'.dispatching = s.dispatching) :
      Move s s' (some .shutdown) (if s.controller.isSome then [] else [.shutdown])
  | abort (hsettlement : s'.operation.settlement = s.operation.settlement)
      (hdispatching : s'.dispatching = (s.dispatching || s.signal.isNone)) : Move s s' (some .cancelled) []
  | dispatch (hbegun : s.dispatching = true)
      (hsettlement : s'.operation.settlement = s.operation.settlement)
      (hdispatching : s'.dispatching = false) : Move s s' none [.cancelled]

/-- What an abort of the controller adds to `reached`. -/
theorem abortController_reached (code : FailureCode) (cause : Cause τ) :
    (s.abortController code cause).reached = s.reached ++ (if s.controller.isSome then [] else [cause]) ∧
      (s.abortController code cause).occurred = s.occurred ∧
      (s.abortController code cause).dispatching = s.dispatching ∧
      (s.abortController code cause).operation = s.operation := by
  unfold RunPromises.abortController
  split
  · next hcontroller => exact ⟨by simp [hcontroller], rfl, rfl, rfl⟩
  · next hcontroller =>
      dsimp only
      split
      · exact ⟨by simp [hcontroller, reaches], rfl, rfl, rfl⟩
      · unfold RunPromises.onAbort
        split <;> exact ⟨by simp [hcontroller, reaches], rfl, rfl, rfl⟩

theorem onAbort_reached : s.onAbort.reached = s.reached ∧ s.onAbort.occurred = s.occurred ∧
    s.onAbort.dispatching = s.dispatching ∧ s.onAbort.operation = s.operation := by
  unfold RunPromises.onAbort
  split <;> exact ⟨rfl, rfl, rfl, rfl⟩

theorem run_move {job : PromiseJob} {rest : List PromiseJob} (hidle : s.dispatching = false)
    (hfed : Fed s) (hjobs : s.jobs = job :: rest) (hstep : s.run job rest = some s') :
    s'.occurred = s.occurred ∧ ∃ more, s'.reached = s.reached ++ more ∧ Move s s' none more := by
  have quiet : s'.occurred = s.occurred → s'.reached = s.reached →
      s'.operation.settlement = s.operation.settlement → s'.dispatching = s.dispatching →
      s'.signal = s.signal → s'.controller = s.controller →
      s'.occurred = s.occurred ∧ ∃ more, s'.reached = s.reached ++ more ∧ Move s s' none more :=
    fun hoccurred hreached hsettlement hdispatching hsignal hcontroller =>
      ⟨hoccurred, [], hreached.trans (List.append_nil _).symm,
        .quiet hsettlement hdispatching hsignal hcontroller⟩
  cases job with
  | start =>
      obtain ⟨-, -, ⟨-, hop⟩ | ⟨hne, -⟩ | ⟨hne, -⟩⟩ := hfed.head hjobs rfl
      · simp only [RunPromises.run] at hstep
        split at hstep
        · obtain rfl := Option.some.inj hstep
          exact quiet rfl rfl rfl rfl rfl rfl
        · obtain rfl := Option.some.inj hstep
          exact quiet rfl rfl (by rw [hop]; rfl) rfl rfl rfl
      · exact absurd hne (by simp)
      · exact absurd hne (by simp)
  | subscribe =>
      simp only [RunPromises.run] at hstep
      split at hstep
      · next hop =>
          obtain rfl := Option.some.inj hstep
          exact quiet rfl rfl (by rw [hop]; rfl) rfl rfl rfl
      · next hop =>
          obtain rfl := Option.some.inj hstep
          exact quiet rfl rfl (by rw [hop]; rfl) rfl rfl rfl
      · exact absurd hstep (by simp)
  | adopt =>
      simp only [RunPromises.run] at hstep
      split at hstep
      · next hop =>
          obtain rfl := Option.some.inj hstep
          exact ⟨rfl, _, rfl, .adopt hidle (by rw [hop]; rfl) rfl rfl⟩
      · exact absurd hstep (by simp)
  | unwrap | cleanup | resume =>
      obtain rfl := Option.some.inj hstep
      exact quiet rfl rfl rfl rfl rfl rfl
  | raceWork | raceAborted =>
      obtain rfl := Option.some.inj hstep
      refine quiet ?_ ?_ ?_ ?_ ?_ ?_ <;> unfold RunPromises.settleRace <;> split <;> rfl

/-- What each step adds to `occurred` and to `reached`. -/
theorem step_move (hsound : Sound s) (hstep : s.step l = some s') : ∃ happened more,
    s'.occurred = s.occurred ++ happened.toList ∧ s'.reached = s.reached ++ more ∧
      Move s s' happened more := by
  cases l with
  | leave threw =>
      simp only [step, RunPromises.leave] at hstep
      split at hstep
      · next hop hidle =>
          obtain rfl := Option.some.inj hstep
          exact ⟨_, _, rfl, rfl, .throw hidle (by rw [hop]; rfl) rfl rfl⟩
      · next hop hidle =>
          obtain rfl := Option.some.inj hstep
          exact ⟨none, [], (List.append_nil _).symm, (List.append_nil _).symm,
            .quiet (by rw [hop]; rfl) rfl rfl rfl⟩
      · exact absurd hstep (by simp)
  | job =>
      simp only [step] at hstep
      split at hstep
      · next job rest hquiet hjobs =>
          obtain ⟨hoccurred, more, hreached, hmove⟩ :=
            run_move (idle_iff.mp hquiet).2 hsound.fed hjobs hstep
          exact ⟨none, more, hoccurred.trans (List.append_nil _).symm, hreached, hmove⟩
      · exact absurd hstep (by simp)
  | settle result =>
      simp only [step, RunPromises.settle] at hstep
      split at hstep
      · next hop =>
          obtain rfl := Option.some.inj hstep
          exact ⟨_, [], rfl, (List.append_nil _).symm, .settle (by rw [hop]; rfl) rfl rfl⟩
      · exact absurd hstep (by simp)
  | expire =>
      simp only [step, expire] at hstep
      split at hstep
      · next hfires =>
          obtain rfl := Option.some.inj hstep
          obtain ⟨hreached, hoccurred, hdispatching, hoperation⟩ := abortController_reached
            (s := { s.occurs .timeout with timer := false }) .timeout .timeout
          rw [Bool.and_eq_true, Bool.and_eq_true, List.isEmpty_iff] at hfires
          obtain ⟨⟨_, hquiet⟩, hempty⟩ := hfires
          exact ⟨some .timeout, _, hoccurred, hreached, .expire (idle_iff.mp hquiet).2
            (fun hsettlement => hsound.reached_ne_nil (hsound.hasSettled_of_empty hempty hsettlement))
            (congrArg _ hoperation) hdispatching⟩
      · exact absurd hstep (by simp)
  | close =>
      obtain rfl := Option.some.inj hstep
      unfold RunPromises.close
      split
      · obtain ⟨hreached, hoccurred, hdispatching, hoperation⟩ := abortController_reached
          (s := s.occurs .shutdown) .shutting_down .shutdown
        exact ⟨some .shutdown, _, hoccurred, hreached, .close (congrArg _ hoperation) hdispatching⟩
      · exact ⟨none, [], (List.append_nil _).symm, (List.append_nil _).symm, .quiet rfl rfl rfl rfl⟩
  | abort reason =>
      simp only [step, RunPromises.abort] at hstep
      split at hstep
      · exact absurd hstep (by simp)
      · next hsignal =>
          obtain rfl := Option.some.inj hstep
          exact ⟨_, [], rfl, (List.append_nil _).symm, .abort rfl (by rw [hsignal]; simp [occurs])⟩
      · next hsignal =>
          obtain rfl := Option.some.inj hstep
          exact ⟨_, [], rfl, (List.append_nil _).symm, .abort rfl (by rw [hsignal]; simp)⟩
  | dispatch =>
      simp only [step, RunPromises.dispatch] at hstep
      split at hstep
      · next hbegun =>
          obtain rfl := Option.some.inj hstep
          obtain ⟨hreached, hoccurred, hdispatching, hoperation⟩ := onAbort_reached
            (s := { s.reaches .cancelled with dispatching := false })
          exact ⟨none, _, hoccurred.trans (List.append_nil _).symm, hreached,
            .dispatch hbegun (congrArg _ hoperation) hdispatching⟩
      · exact absurd hstep (by simp)

/-- Nothing reaches this `run` that has not happened. -/
structure History (s : RunPromises τ) : Prop where
  settlement : ∀ result, .operation result ∈ s.occurred ↔ s.operation.settlement = some result
  reached : ∀ cause ∈ s.reached, cause ∈ s.occurred
  dispatching : s.dispatching = true → .cancelled ∈ s.occurred

theorem History.init : History ({} : RunPromises τ) := by
  constructor <;> simp [OperationCall.settlement]

theorem History.move (h : History s) {happened : Option (Cause τ)} {more : List (Cause τ)}
    (hoccurred : s'.occurred = s.occurred ++ happened.toList) (hreached : s'.reached = s.reached ++ more)
    (hmove : Move s s' happened more) : History s' := by
  have hkept : ∀ cause ∈ s.occurred, cause ∈ s'.occurred := fun cause hcause => by
    rw [hoccurred]
    exact List.mem_append_left _ hcause
  have hnew : ∀ cause, happened = some cause → cause ∈ s'.occurred := fun cause hcause => by
    rw [hoccurred, hcause]
    exact List.mem_append_right _ List.mem_cons_self
  constructor
  case settlement =>
    intro result
    rw [hoccurred, List.mem_append, h.settlement]
    cases hmove with
    | quiet hsame | adopt _ _ hsame | dispatch _ hsame => simp [hsame]
    | throw _ hfresh hsettled | settle hfresh hsettled => simp [hfresh, hsettled, eq_comm]
    | expire _ _ hsame | close hsame | abort hsame => simp [hsame]
  case reached =>
    intro cause hcause
    rw [hreached] at hcause
    rcases List.mem_append.mp hcause with hold | hmore
    · exact hkept _ (h.reached cause hold)
    · cases hmove with
      | quiet | settle | abort => exact absurd hmore (by simp)
      | adopt hidle hsettled =>
          obtain rfl := List.mem_singleton.mp hmore
          exact hkept _ ((h.settlement _).mpr hsettled)
      | throw =>
          obtain rfl := List.mem_singleton.mp hmore
          exact hnew _ rfl
      | expire | close =>
          split at hmore
          · exact absurd hmore (by simp)
          · obtain rfl := List.mem_singleton.mp hmore
            exact hnew _ rfl
      | dispatch hbegun =>
          obtain rfl := List.mem_singleton.mp hmore
          exact hkept _ (h.dispatching hbegun)
  case dispatching =>
    intro hdispatching
    cases hmove with
    | quiet _ hsame | settle _ _ hsame => exact hkept _ (h.dispatching (hsame ▸ hdispatching))
    | adopt _ _ _ hsame | throw _ _ _ hsame => exact hkept _ (h.dispatching (hsame ▸ hdispatching))
    | expire _ _ _ hsame | close _ hsame => exact hkept _ (h.dispatching (hsame ▸ hdispatching))
    | abort => exact hnew _ rfl
    | dispatch _ _ hdone => exact absurd (hdispatching.symm.trans hdone) (by simp)

/-- How the first cause to happen and the first one to reach this `run` go together. -/
structure Ordered (s : RunPromises τ) : Prop where
  nothing : s.occurred = [] → s.reached = [] ∧ s.signal = none ∧ s.controller = none
  timeout : s.occurred.head? = some .timeout → s.reached.head? = some .timeout
  shutdown : s.occurred.head? = some .shutdown → s.reached.head? = some .shutdown
  /-- On its way, an abort of the caller is only overtaken by `close`. -/
  cancelled : s.occurred.head? = some .cancelled → (s.reached = [] ∧ s.dispatching = true) ∨
    s.reached.head? = some .cancelled ∨ s.reached.head? = some .shutdown
  /-- On its way, a settlement of the operation is only overtaken by the caller and by `close`. -/
  operation : ∀ result, s.occurred.head? = some (.operation result) → s.reached = [] ∨
    s.reached.head? = some (.operation result) ∨ s.reached.head? = some .cancelled ∨
    s.reached.head? = some .shutdown

theorem Ordered.init : Ordered ({} : RunPromises τ) := by
  constructor <;> simp

theorem head?_append_of_ne_nil {α : Type} {l l' : List α} (h : l ≠ []) : (l ++ l').head? = l.head? := by
  cases l with
  | nil => exact absurd rfl h
  | cons a rest => rfl

/-- A step in which at most one cause happens, and after which `more` have reached this `run`. -/
theorem Ordered.next (h : Ordered s) (happened : Option (Cause τ)) (more : List (Cause τ))
    (hoccurred : s'.occurred = s.occurred ++ happened.toList) (hmore : s'.reached = s.reached ++ more)
    (hwaiting : s.reached = [] → s.dispatching = true → more = [] ∧ s'.dispatching = true ∨
      more.head? = some .cancelled ∨ more.head? = some .shutdown)
    (hsettled : s.reached = [] → ∀ result, s.occurred.head? = some (.operation result) → more = [] ∨
      more.head? = some (.operation result) ∨ more.head? = some .cancelled ∨
      more.head? = some .shutdown)
    (hfirst : s.occurred = [] → match happened with
      | none => more = [] ∧ s'.signal = s.signal ∧ s'.controller = s.controller
      | some (.operation result) => more = [] ∨ more.head? = some (.operation result)
      | some .timeout => more.head? = some .timeout
      | some .shutdown => more.head? = some .shutdown
      | some .cancelled => more = [] ∧ s'.dispatching = true) : Ordered s' := by
  have hkept : ∀ cause, s.reached.head? = some cause → s'.reached.head? = some cause := by
    intro cause hcause
    rw [hmore, head?_append_of_ne_nil, hcause]
    intro hnil
    rw [hnil] at hcause
    exact absurd hcause (by simp)
  by_cases hnil : s.occurred = []
  · obtain ⟨hnothing, hsignal, hcontroller⟩ := h.nothing hnil
    have hreached : s'.reached = more := by rw [hmore, hnothing, List.nil_append]
    replace hfirst := hfirst hnil
    rw [hnil, List.nil_append] at hoccurred
    cases happened with
    | none =>
        obtain ⟨rfl, hsame, hsame'⟩ := hfirst
        have hempty : ∀ cause, s'.occurred.head? ≠ some cause := by simp [hoccurred]
        exact ⟨fun _ => ⟨hreached, hsame.trans hsignal, hsame'.trans hcontroller⟩,
          fun hhead => absurd hhead (hempty _), fun hhead => absurd hhead (hempty _),
          fun hhead => absurd hhead (hempty _), fun _ hhead => absurd hhead (hempty _)⟩
    | some cause =>
        have hhead : s'.occurred.head? = some cause := by rw [hoccurred]; rfl
        constructor
        case nothing => exact fun hempty => absurd hhead (by simp [hempty])
        case timeout =>
          intro hcause
          obtain rfl := Option.some.inj (hhead.symm.trans hcause)
          exact hreached ▸ hfirst
        case shutdown =>
          intro hcause
          obtain rfl := Option.some.inj (hhead.symm.trans hcause)
          exact hreached ▸ hfirst
        case cancelled =>
          intro hcause
          obtain rfl := Option.some.inj (hhead.symm.trans hcause)
          exact Or.inl (hreached ▸ hfirst)
        case operation =>
          intro result hcause
          obtain rfl := Option.some.inj (hhead.symm.trans hcause)
          rw [hreached]
          exact hfirst.imp id Or.inl
  · -- Something had happened before: the heads stay.
    have hhead : s'.occurred.head? = s.occurred.head? := by
      rw [hoccurred, head?_append_of_ne_nil hnil]
    constructor
    case nothing =>
      intro hempty
      rw [hoccurred] at hempty
      exact absurd (List.append_eq_nil_iff.mp hempty).1 hnil
    case timeout => exact fun hcause => hkept _ (h.timeout (hhead ▸ hcause))
    case shutdown => exact fun hcause => hkept _ (h.shutdown (hhead ▸ hcause))
    case cancelled =>
      intro hcause
      rcases h.cancelled (hhead ▸ hcause) with ⟨hempty, hdispatching⟩ | hcancelled | hshutdown
      · rw [hmore, hempty, List.nil_append]
        rcases hwaiting hempty hdispatching with ⟨rfl, hstill⟩ | hmoreFirst
        · exact Or.inl ⟨rfl, hstill⟩
        · exact Or.inr hmoreFirst
      · exact Or.inr (Or.inl (hkept _ hcancelled))
      · exact Or.inr (Or.inr (hkept _ hshutdown))
    case operation =>
      intro result hcause
      rcases h.operation result (hhead ▸ hcause) with hempty | hoperation | hcancelled | hshutdown
      · rw [hmore, hempty, List.nil_append]
        exact hsettled hempty result (hhead ▸ hcause)
      · exact Or.inr (Or.inl (hkept _ hoperation))
      · exact Or.inr (Or.inr (Or.inl (hkept _ hcancelled)))
      · exact Or.inr (Or.inr (Or.inr (hkept _ hshutdown)))

theorem Ordered.move (h : Ordered s) (hhistory : History s) {happened : Option (Cause τ)}
    {more : List (Cause τ)} (hoccurred : s'.occurred = s.occurred ++ happened.toList)
    (hreached : s'.reached = s.reached ++ more) (hmove : Move s s' happened more) : Ordered s' := by
  have busy : s.dispatching = false → s.dispatching = true → False := fun hidle hdispatching =>
    absurd (hdispatching.symm.trans hidle) (by simp)
  refine h.next happened more hoccurred hreached (fun _ hdispatching => ?_)
    (fun hempty result hhead => ?_) (fun hnil => ?_)
  · cases hmove with
    | quiet _ hsame | settle _ _ hsame => exact Or.inl ⟨rfl, hsame.trans hdispatching⟩
    | adopt hidle | throw hidle | expire hidle => exact (busy hidle hdispatching).elim
    | close _ hsame =>
        split
        · exact Or.inl ⟨rfl, hsame.trans hdispatching⟩
        · exact Or.inr (Or.inr rfl)
    | abort _ hsame => exact Or.inl ⟨rfl, by rw [hsame, hdispatching]; rfl⟩
    | dispatch => exact Or.inr (Or.inl rfl)
  · have hsettlement := (hhistory.settlement result).mp (List.mem_of_mem_head? hhead)
    cases hmove with
    | quiet | settle | abort => exact Or.inl rfl
    | adopt _ hsettled =>
        obtain rfl := Option.some.inj (hsettlement.symm.trans hsettled)
        exact Or.inr (Or.inl rfl)
    | throw _ hfresh => exact absurd (hsettlement.symm.trans hfresh) (by simp)
    | expire _ htaken => exact absurd hempty (htaken (by rw [hsettlement]; rfl))
    | close =>
        split
        · exact Or.inl rfl
        · exact Or.inr (Or.inr (Or.inr rfl))
    | dispatch => exact Or.inr (Or.inr (Or.inl rfl))
  · obtain ⟨-, hsignal, hcontroller⟩ := h.nothing hnil
    cases hmove with
    | quiet _ _ hsame hsame' => exact ⟨rfl, hsame, hsame'⟩
    | adopt _ hsettled =>
        have hin := (hhistory.settlement _).mpr hsettled
        rw [hnil] at hin
        exact absurd hin (by simp)
    | throw => exact Or.inr rfl
    | settle => exact Or.inl rfl
    | expire | close =>
        rw [hcontroller]
        rfl
    | abort _ hsame => exact ⟨rfl, by rw [hsame, hsignal, Option.isNone_none, Bool.or_true]⟩
    | dispatch hbegun =>
        have hin := hhistory.dispatching hbegun
        rw [hnil] at hin
        exact absurd hin (by simp)

theorem ordered_of_reachable (h : (machine τ).Reachable s) : History s ∧ Ordered s := by
  refine h.invariant (I := fun s => History s ∧ Ordered s) ⟨.init, .init⟩ ?_
  intro a l b ha hs hstep
  obtain ⟨happened, more, hoccurred, hreached, hmove⟩ := step_move (sound_of_reachable ha).1 hstep
  exact ⟨hs.1.move hoccurred hreached hmove, hs.2.move hs.1 hoccurred hreached hmove⟩

end RunPromises

end SecureMcp
