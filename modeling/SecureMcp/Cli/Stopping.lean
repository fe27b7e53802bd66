import SecureMcp.Deployment.Hosts
import SecureMcp.Http.Shutdown

set_option autoImplicit false

/-! # How the command ends (`stop` of `src/cli.ts`)

A signal, or the end of standard input, closes the server once; the process ends with what its
`close` has counted, or by force. Exit code 0 is a promise to whoever starts the command: nothing
that was to be recorded before the dispatcher was closed is missing in the journal. -/

namespace SecureMcp

/-! ## What a call of `close` has counted -/

namespace AuditDispatcher

variable {ε : Type} {d d' : AuditDispatcher ε} {l : Label ε} {capacity : Nat}

/-- How a call of `close` goes on. -/
inductive Proceeds (d : AuditDispatcher ε) : ClosePhase → ClosePhase → Prop
  | waited (phase : ClosePhase) (h : phase = .draining ∨ phase = .drained) : Proceeds d phase .drained
  | counted : Proceeds d .drained (.awaitingSink d.pending.length)
  | resolved (remaining : Nat) : Proceeds d (.awaitingSink remaining) (.resolved remaining)
  | rejected (remaining : Nat) : Proceeds d (.awaitingSink remaining) .rejected

/-- What a step does to the calls of `close`. -/
inductive ClosesEffect (d d' : AuditDispatcher ε) : Prop
  | kept (h : d'.closes = d.closes)
  | called (c : CloseCall) (hphase : c.phase = .draining) (h : d'.closes = d.closes ++ [c])
  | proceeded (k : Nat) (c c' : CloseCall) (hk : d.closes[k]? = some c)
      (h : d'.closes = d.closes.set k c') (hproceeds : Proceeds d c.phase c'.phase)
      (hwrites : d'.writes = d.writes) (hpending : d'.pending = d.pending)

theorem closesEffect (h : d.step l = some d') : ClosesEffect d d' := by
  cases l with
  | close => exact Option.some.inj h ▸ .called _ rfl rfl
  | write event scope =>
      obtain rfl := Option.some.inj h
      refine .kept ?_
      show (d.write event scope).closes = d.closes
      unfold AuditDispatcher.write
      split <;> rfl
  | callSink i ret =>
      obtain ⟨w, -, h⟩ := Option.bind_eq_some_iff.mp h
      split at h
      · cases ret <;> exact Option.some.inj h ▸ .kept rfl
      · exact absurd h (by simp)
  | settle i ok | expire i =>
      obtain ⟨w, -, h⟩ := Option.bind_eq_some_iff.mp h
      split at h
      · exact Option.some.inj h ▸ .kept rfl
      · exact absurd h (by simp)
  | resume i =>
      obtain ⟨w, -, h⟩ := Option.bind_eq_some_iff.mp h
      split at h
      · exact Option.some.inj h ▸ .kept rfl
      · exact Option.some.inj h ▸ .kept rfl
      · exact absurd h (by simp)
  | drain k =>
      obtain ⟨c, hk, h⟩ := Option.bind_eq_some_iff.mp h
      split at h
      · next hready =>
          exact Option.some.inj h ▸ .proceeded k c _ hk rfl (.waited _ (Or.inl hready.1)) rfl rfl
      · exact absurd h (by simp)
  | closeExpire k =>
      obtain ⟨c, hk, h⟩ := Option.bind_eq_some_iff.mp h
      split at h
      · next hready =>
          simp only [Bool.and_eq_true, decide_eq_true_eq] at hready
          exact Option.some.inj h ▸ .proceeded k c _ hk rfl (.waited _ hready.1.2) rfl rfl
      · exact absurd h (by simp)
  | closeResume k =>
      obtain ⟨c, hk, h⟩ := Option.bind_eq_some_iff.mp h
      split at h
      · next hphase =>
          obtain rfl := Option.some.inj h
          exact .proceeded k c _ hk rfl (by rw [hphase]; exact .counted) rfl rfl
      · exact absurd h (by simp)
  | callSinkClose ret =>
      obtain ⟨c, -, h⟩ := Option.bind_eq_some_iff.mp h
      split at h
      · cases ret <;> exact Option.some.inj h ▸ .kept rfl
      · exact absurd h (by simp)
  | settleSinkClose ok | expireSinkClose =>
      obtain ⟨c, -, h⟩ := Option.bind_eq_some_iff.mp h
      split at h
      · exact Option.some.inj h ▸ .kept rfl
      · exact absurd h (by simp)
  | resumeSinkClose =>
      obtain ⟨c, -, h⟩ := Option.bind_eq_some_iff.mp h
      split at h
      · exact Option.some.inj h ▸ .kept rfl
      · exact Option.some.inj h ▸ .kept rfl
      · exact absurd h (by simp)
  | closeReturn k =>
      obtain ⟨c, hk, h⟩ := Option.bind_eq_some_iff.mp h
      obtain ⟨sink, -, h⟩ := Option.bind_eq_some_iff.mp h
      split at h
      · next hphase _ =>
          obtain rfl := Option.some.inj h
          exact .proceeded k c _ hk rfl (by rw [hphase]; exact .resolved _) rfl rfl
      · next hphase _ =>
          obtain rfl := Option.some.inj h
          exact .proceeded k c _ hk rfl (by rw [hphase]; exact .rejected _) rfl rfl
      · exact absurd h (by simp)

/-- A call that has resolved stays so. -/
theorem ClosesEffect.resolved (he : ClosesEffect d d') {k remaining : Nat} {c : CloseCall}
    (hk : d.closes[k]? = some c) (hphase : c.phase = .resolved remaining) :
    d'.closes[k]? = some c := by
  cases he with
  | kept h =>
      rw [h]
      exact hk
  | called c' _ h =>
      rw [h]
      exact Table.getElem?_append_of_some hk
  | proceeded j b b' hj h hproceeds =>
      have hne : k ≠ j := by
        rintro rfl
        obtain rfl := Option.some.inj (hk.symm.trans hj)
        rw [hphase] at hproceeds
        generalize b'.phase = after at hproceeds
        cases hproceeds with
        | waited _ hopen => exact absurd hopen (by simp)
      rw [h, Table.getElem?_set_of_ne hne]
      exact hk

/-- `remaining`, once it was read off. -/
def counted : ClosePhase → Option Nat
  | .awaitingSink remaining | .resolved remaining => some remaining
  | _ => none

/-- Where a call has counted, it had done so before, or it has just counted what is pending. -/
theorem ClosesEffect.counted (he : ClosesEffect d d') {k remaining : Nat} {c' : CloseCall}
    (hk : d'.closes[k]? = some c') (hcounted : counted c'.phase = some remaining) :
    (∃ c, d.closes[k]? = some c ∧ AuditDispatcher.counted c.phase = some remaining) ∨
      d'.pending.length = remaining := by
  cases he with
  | kept h => exact Or.inl ⟨c', h ▸ hk, hcounted⟩
  | called c hphase h =>
      rw [h] at hk
      rcases Table.getElem?_append_cases hk with hold | ⟨_, rfl⟩
      · exact Or.inl ⟨c', hold, hcounted⟩
      · rw [hphase] at hcounted
        cases hcounted
  | proceeded j b b' hj h hproceeds _ hpending =>
      rw [h] at hk
      rcases Table.getElem?_set_cases hk with ⟨rfl, rfl⟩ | ⟨_, hold⟩
      · generalize hbefore : b.phase = before at hproceeds
        generalize hafter : c'.phase = after at hproceeds hcounted
        cases hproceeds with
        | waited | rejected => cases hcounted
        | counted => exact Or.inr (by rw [hpending]; exact Option.some.inj hcounted)
        | resolved => exact Or.inl ⟨b, hj, by rw [hbefore]; exact hcounted⟩
      · exact Or.inl ⟨c', hold, hcounted⟩

/-- The first `n` writes are no longer pending. -/
def SettledUpTo (d : AuditDispatcher ε) (n : Nat) : Prop :=
  ∀ i < n, ∀ w, d.writes[i]? = some w → w.work.unsettled = false

/-- The dispatcher stays closed. -/
theorem closes_of_leads (h : (machine ε capacity).Leads d d') (hcloses : d.closes ≠ []) :
    d'.closes ≠ [] := by
  refine h.invariant (I := fun d => d.closes ≠ []) hcloses ?_
  intro a l b ha hstep hnil
  cases closingEffect hstep with
  | kept hsame | sink hsame =>
      rw [hnil] at hsame
      exact ha (List.length_eq_zero_iff.mp hsame.symm)
  | called _ _ _ hne => exact hne hnil

/-- A call of `close` made after these writes that has counted nothing has seen them settle. -/
theorem settledUpTo_of_counted {d₀ : AuditDispatcher ε} (h₀ : (machine ε capacity).Reachable d₀)
    (h : (machine ε capacity).Leads d₀ d) (hopen : d₀.closes = []) {k : Nat} {c : CloseCall}
    (hk : d.closes[k]? = some c) (hcounted : counted c.phase = some 0) :
    SettledUpTo d d₀.writes.length := by
  refine h.along (I := fun d => ∀ (k : Nat) c, d.closes[k]? = some c → counted c.phase = some 0 →
    SettledUpTo d d₀.writes.length) (by simp [hopen]) ?_ k c hk hcounted
  intro a l b ha hI hstep k c' hk' hzero
  rcases (closesEffect hstep).counted hk' hzero with ⟨c, hc, hcount⟩ | hnone
  · intro i hi w' hw'
    obtain ⟨w, hw, -⟩ := evolves_of_leads ha (List.getElem?_eq_getElem hi)
    obtain ⟨w'', hw'', hev⟩ := (step_effect hstep).evolves hw
    obtain rfl := Option.some.inj (hw''.symm.trans hw')
    rw [hev.work (hI k c hc hcount i hi w hw)]
    exact hI k c hc hcount i hi w hw
  · -- nothing is pending, so nothing has still to settle
    have hbooks := Accounting.of_reachable ((h₀.trans ha).snoc hstep)
    intro i _ w hw
    cases hwork : w.work.unsettled with
    | false => rfl
    | true =>
        have hmem := (hbooks.slots.mem i).mpr ⟨w, hw, hwork⟩
        rw [List.length_eq_zero_iff.mp hnone] at hmem
        cases hmem

/-- A race is decided once its sink call has settled. -/
theorem Accounting.decided (h : Accounting d) {i : Nat} {w : Write ε} (hi : d.writes[i]? = some w)
    (hwork : w.work.unsettled = false) : w.delivery ≠ .racing := by
  have hrow := h.rows i w hi
  intro hracing
  by_cases hrefused : w.work = .refused
  · rw [(hrow.refused hrefused).1] at hracing
    cases hracing
  · have hnone := (hrow.racing hrefused).mp hracing
    have hsink := hrow.sink
    rw [hnone] at hsink
    cases hcase : w.work with
    | refused => exact hrefused hcase
    | deferred | called =>
        rw [hcase] at hwork
        cases hwork
    | fulfilled | rejected =>
        rw [hcase] at hsink
        cases hsink

/-- The deliveries whose code after `await` is queued. -/
def queued (d : AuditDispatcher ε) : List Nat :=
  (List.range d.writes.length).filter (fun i =>
    (d.writes[i]?).any (fun w => !w.delivery.settled && w.delivery != .racing))

/-- None of these is queued any more. -/
def resumed (d : AuditDispatcher ε) (queue : List Nat) : Bool :=
  queue.all (fun i => (d.writes[i]?).all (fun w => w.delivery.settled))

theorem settled_or_queued {i : Nat} {w : Write ε} (hi : d.writes[i]? = some w)
    (hdecided : w.delivery ≠ .racing) : w.delivery.settled = true ∨ i ∈ d.queued := by
  cases hsettled : w.delivery.settled with
  | true => exact Or.inl rfl
  | false =>
      refine Or.inr (List.mem_filter.mpr ⟨List.mem_range.mpr (Table.lt_of_getElem? hi), ?_⟩)
      rw [hi, Option.any_some, hsettled]
      exact bne_iff_ne.mpr hdecided

end AuditDispatcher

/-! ## The command -/

/-- A process with the `close` that `main` has chosen for its transport. -/
structure ClosableHost (σ ℓ : Type) where
  host : AuditHost σ ℓ
  close : ℓ
  close_isSink : host.isSink close = false
  /-- The promise of `close`: pending, rejected, or what it was fulfilled with. -/
  closed : σ → Option (Option Nat)
  /-- How many operations of tools are in progress. -/
  active : σ → Nat
  drained : ∀ s s', host.machine.Reachable s → closed s = some (some 0) → host.machine.Leads s s' →
    active s' = 0
  counted : ∀ s, host.machine.Reachable s → closed s = some (some 0) →
    ∃ (k : Nat) (c : CloseCall), (host.audit s).closes[k]? = some c ∧ c.phase = .resolved 0

/-- A server that runs, with its collector, and the variables of `main`. -/
structure Command (σ : Type) where
  deployment : Deployment σ
  stopped : Bool := false
  protocolFailed : Bool := false
  /-- `close()` has settled, and these deliveries were queued before the handler that ends the
      process. -/
  closed : Option (Option Nat × List Nat) := none
  /-- The code of `process.exit`. -/
  exit : Option Nat := none

namespace Command

variable {σ ℓ : Type} (H : ClosableHost σ ℓ) (setup : JournalSetup)

/-- A step outside the process. -/
def isNetwork : Deployment.Label ℓ → Bool
  | .network _ => true
  | _ => false

/-- `remaining || protocolFailed || !runtime.audit.healthy ? 1 : 0`, or 1 where `close` failed. -/
def exitCode (s : Command σ) : Option Nat → Nat
  | some remaining =>
    if remaining != 0 || s.protocolFailed || !(H.host.audit s.deployment.host).healthy then 1 else 0
  | none => 1

inductive Label (ℓ : Type)
  /-- A step of the server, of its sink or of the collector; only the last goes on after the end. -/
  | deployment (label : Deployment.Label ℓ)
  /-- `onerror` of the transport. -/
  | protocolError
  /-- A signal, the end of the input, or the transport closing. -/
  | stop
  /-- The promise of `close` settles; `ok` is `false` where the transport could not be closed. -/
  | settled (ok : Bool)
  /-- The handler of this promise. -/
  | exit
  /-- The timer of `stop`. -/
  | forced

def step (s : Command σ) : Label ℓ → Option (Command σ)
  | .deployment label =>
    if s.exit.isSome && !isNetwork label then none
    else (s.deployment.step H.host setup label).map (fun deployment => { s with deployment })
  | .protocolError => if s.exit.isSome then none else some { s with protocolFailed := true }
  | .stop =>
    if s.exit.isSome then none
    else if s.stopped then some s
    else (s.deployment.step H.host setup (.host H.close)).map
      (fun deployment => { s with deployment, stopped := true })
  | .settled ok =>
    if s.stopped && s.closed.isNone && s.exit.isNone then
      (H.closed s.deployment.host).map (fun result =>
        { s with closed := some (if ok then result else none,
                    (H.host.audit s.deployment.host).queued) })
    else none
  | .exit =>
    match s.closed with
    | some (result, queue) =>
      if s.exit.isNone && (H.host.audit s.deployment.host).resumed queue then
        some { s with exit := some (s.exitCode H result) }
      else none
    | none => none
  | .forced => if s.stopped && s.exit.isNone then some { s with exit := some 1 } else none

def machine : Machine (Command σ) (Label ℓ) :=
  { init := { deployment := (Deployment.machine H.host setup).init }
    step := step H setup }

variable {H setup} {s s' s₀ : Command σ} {l : Label ℓ}

/-! ## What a step can do -/

inductive Effect (H : ClosableHost σ ℓ) (setup : JournalSetup) (s : Command σ) : Command σ → Prop
  /-- The server goes on, or `stop` closes it. -/
  | running (deployment : Deployment σ) (stopped : Bool) (hexit : s.exit = none)
      (hlead : (Deployment.machine H.host setup).Leads s.deployment deployment)
      (hstopped : s.stopped = true → stopped = true) :
      Effect H setup s { s with deployment, stopped }
  /-- The process has ended, and the collector goes on. -/
  | ended (deployment : Deployment σ) (hhost : deployment.host = s.deployment.host)
      (hlead : (Deployment.machine H.host setup).Leads s.deployment deployment) :
      Effect H setup s { s with deployment }
  | protocolError (hexit : s.exit = none) : Effect H setup s { s with protocolFailed := true }
  | settled (result : Option Nat) (hstopped : s.stopped = true) (hclosed : s.closed = none)
      (hexit : s.exit = none)
      (hresult : ∀ n, result = some n → H.closed s.deployment.host = some (some n)) :
      Effect H setup s
        { s with closed := some (result, (H.host.audit s.deployment.host).queued) }
  | exit (result : Option Nat) (queue : List Nat) (hclosed : s.closed = some (result, queue))
      (hexit : s.exit = none)
      (hresumed : (H.host.audit s.deployment.host).resumed queue = true) :
      Effect H setup s { s with exit := some (s.exitCode H result) }
  | forced (hstopped : s.stopped = true) (hexit : s.exit = none) :
      Effect H setup s { s with exit := some 1 }

theorem step_effect (h : s.step H setup l = some s') : Effect H setup s s' := by
  cases l with
  | deployment label =>
      simp only [step] at h
      split at h
      · exact absurd h (by simp)
      · next hgoes =>
          obtain ⟨deployment, hstep, rfl⟩ := Option.map_eq_some_iff.mp h
          cases hexit : s.exit with
          | none =>
              exact hexit ▸ .running deployment s.stopped hexit (Machine.Leads.single hstep) id
          | some code =>
              rw [hexit, Option.isSome_some, Bool.true_and] at hgoes
              refine hexit ▸ .ended deployment ?_ (Machine.Leads.single hstep)
              cases label with
              | network label =>
                  simp only [Deployment.step] at hstep
                  split at hstep
                  · exact absurd hstep (by simp)
                  · obtain ⟨network, -, rfl⟩ := Option.map_eq_some_iff.mp hstep
                    rfl
              | _ => exact absurd rfl hgoes
  | protocolError =>
      simp only [step] at h
      split at h
      · exact absurd h (by simp)
      · next hexit => exact Option.some.inj h ▸ .protocolError (by simpa using hexit)
  | stop =>
      simp only [step] at h
      split at h
      · exact absurd h (by simp)
      · next hexit =>
          have hnone : s.exit = none := by simpa using hexit
          split at h
          · next hstopped =>
              obtain rfl := Option.some.inj h
              exact .running s.deployment s.stopped hnone (Machine.Leads.refl _) id
          · obtain ⟨deployment, hstep, rfl⟩ := Option.map_eq_some_iff.mp h
            exact .running deployment true hnone (Machine.Leads.single (l := .host H.close) hstep)
              (fun _ => rfl)
  | settled ok =>
      simp only [step] at h
      split at h
      · next hready =>
          obtain ⟨result, hresult, rfl⟩ := Option.map_eq_some_iff.mp h
          simp only [Bool.and_eq_true, Option.isNone_iff_eq_none] at hready
          refine .settled _ hready.1.1 hready.1.2 hready.2 (fun n hn => ?_)
          split at hn
          · rw [hresult, hn]
          · cases hn
      · exact absurd h (by simp)
  | exit =>
      simp only [step] at h
      split at h
      · next result queue hclosed =>
          split at h
          · next hready =>
              obtain rfl := Option.some.inj h
              simp only [Bool.and_eq_true, Option.isNone_iff_eq_none] at hready
              exact .exit result queue hclosed hready.1 hready.2
          · exact absurd h (by simp)
      · exact absurd h (by simp)
  | forced =>
      simp only [step] at h
      split at h
      · next hready =>
          obtain rfl := Option.some.inj h
          simp only [Bool.and_eq_true, Option.isNone_iff_eq_none] at hready
          exact .forced hready.1 hready.2
      · exact absurd h (by simp)

theorem Effect.leads (he : Effect H setup s s') :
    (Deployment.machine H.host setup).Leads s.deployment s'.deployment := by
  cases he with
  | running deployment _ _ hlead | ended deployment _ hlead => exact hlead
  | _ => exact Machine.Leads.refl _

theorem leads_of_leads (h : (machine H setup).Leads s s') :
    (Deployment.machine H.host setup).Leads s.deployment s'.deployment :=
  h.rel (R := fun s s' => (Deployment.machine H.host setup).Leads s.deployment s'.deployment)
    (fun s => Machine.Leads.refl s.deployment) (fun _ _ _ => Machine.Leads.trans)
    (fun _ _ _ hstep => (step_effect hstep).leads)

theorem deployment_reachable (h : (machine H setup).Reachable s) :
    (Deployment.machine H.host setup).Reachable s.deployment :=
  leads_of_leads h

theorem host_reachable (h : (machine H setup).Reachable s) :
    H.host.machine.Reachable s.deployment.host :=
  Deployment.host_reachable (deployment_reachable h)

/-! ## The end of the process -/

/-- What was seen when the process ended with 0. -/
structure Clean (H : ClosableHost σ ℓ) (s : Command σ) (queue : List Nat) : Prop where
  closed : s.closed = some (some 0, queue)
  stopped : s.stopped = true
  resumed : (H.host.audit s.deployment.host).resumed queue = true
  protocol : s.protocolFailed = false
  healthy : (H.host.audit s.deployment.host).healthy = true

theorem clean_of_exitCode {result : Option Nat} (h : s.exitCode H result = 0) : result = some 0 ∧
    s.protocolFailed = false ∧ (H.host.audit s.deployment.host).healthy = true := by
  unfold exitCode at h
  cases result with
  | none => cases h
  | some remaining =>
      simp only at h
      split at h
      · cases h
      · next hgood =>
          simp only [Bool.or_eq_true, bne_iff_ne, Bool.not_eq_true', not_or, Bool.not_eq_true,
            Bool.not_eq_false, not_not] at hgood
          exact ⟨by rw [hgood.1.1], hgood.1.2, hgood.2⟩

/-- `close` was called before it has settled. -/
theorem stopped_of_closed (h : (machine H setup).Reachable s) (hclosed : s.closed ≠ none) :
    s.stopped = true := by
  refine h.invariant (I := fun s => s.closed ≠ none → s.stopped = true) (fun hne => absurd rfl hne) ?_
    hclosed
  intro a l b _ ha hstep
  cases step_effect hstep with
  | running deployment stopped _ _ hstopped => exact fun hne => hstopped (ha hne)
  | settled _ hstopped => exact fun _ => hstopped
  | _ => exact ha

theorem clean_of_exit (h : (machine H setup).Reachable s) (hexit : s.exit = some 0) :
    ∃ queue, Clean H s queue := by
  refine h.invariant (I := fun s => s.exit = some 0 → ∃ queue, Clean H s queue)
    (fun hnone => by cases hnone) ?_ hexit
  intro a l b hr ha hstep
  cases step_effect hstep with
  | running _ _ hnone | protocolError hnone =>
      intro hzero
      exact absurd (hnone.symm.trans hzero) (by simp)
  | settled _ _ _ hnone =>
      intro hzero
      exact absurd (hnone.symm.trans hzero) (by simp)
  | ended deployment hhost =>
      intro hzero
      obtain ⟨queue, hclean⟩ := ha hzero
      refine ⟨queue, hclean.closed, hclean.stopped, ?_, hclean.protocol, ?_⟩
      · rw [hhost]
        exact hclean.resumed
      · rw [hhost]
        exact hclean.healthy
  | exit result queue hclosed _ hresumed =>
      intro hzero
      obtain ⟨rfl, hprotocol, hhealthy⟩ := clean_of_exitCode (Option.some.inj hzero)
      have hstopped : a.stopped = true := stopped_of_closed hr (by rw [hclosed]; simp)
      exact ⟨queue, hclosed, hstopped, hresumed, hprotocol, hhealthy⟩
  | forced =>
      intro hzero
      cases hzero

theorem audit_leads (h : (machine H setup).Leads s s') :
    (AuditDispatcher.machine AuditEvent H.host.capacity).Leads (H.host.audit s.deployment.host)
      (H.host.audit s'.deployment.host) :=
  Deployment.audit_of_leads (leads_of_leads h)

/-- Where `close` was fulfilled with 0, the dispatcher had been closed by then. -/
theorem closes_of_closed (h : (machine H setup).Reachable s) {queue : List Nat}
    (hclosed : s.closed = some (some 0, queue)) : (H.host.audit s.deployment.host).closes ≠ [] := by
  refine h.invariant (I := fun s => ∀ queue, s.closed = some (some 0, queue) →
    (H.host.audit s.deployment.host).closes ≠ []) (fun queue hnone => by cases hnone) ?_ queue hclosed
  intro a l b hr ha hstep
  have hkept : (H.host.audit a.deployment.host).closes ≠ [] →
      (H.host.audit b.deployment.host).closes ≠ [] :=
    AuditDispatcher.closes_of_leads (audit_leads (Machine.Leads.single hstep))
  cases step_effect hstep with
  | settled result _ _ _ hresult =>
      intro queue hzero
      obtain ⟨rfl, -⟩ := Prod.mk.inj (Option.some.inj hzero)
      obtain ⟨k, c, hk, -⟩ := H.counted _ (host_reachable hr) (hresult 0 rfl)
      intro hnil
      rw [hnil] at hk
      cases hk
  | running | ended | protocolError | exit | forced => exact fun queue hzero => hkept (ha queue hzero)

/-- What `close` has seen of the first `n` writes. -/
structure Seen (H : ClosableHost σ ℓ) (setup : JournalSetup) (n : Nat) (s : Command σ)
    (queue : List Nat) : Prop where
  delivered : ∀ i < n, ∀ w, (H.host.audit s.deployment.host).writes[i]? = some w →
    w.delivery.settled = true ∨ i ∈ queue
  active : ∀ s', (machine H setup).Leads s s' → H.active s'.deployment.host = 0

theorem seen_of_closed (h₀ : (machine H setup).Reachable s₀) (h : (machine H setup).Leads s₀ s)
    (hopen : (H.host.audit s₀.deployment.host).closes = []) {queue : List Nat}
    (hclosed : s.closed = some (some 0, queue)) :
    Seen H setup (H.host.audit s₀.deployment.host).writes.length s queue := by
  refine h.along (I := fun s => ∀ queue, s.closed = some (some 0, queue) →
    Seen H setup (H.host.audit s₀.deployment.host).writes.length s queue) ?_ ?_ queue hclosed
  · exact fun queue hzero => absurd hopen (closes_of_closed h₀ hzero)
  · intro a l b hr ha hstep
    have hb : (machine H setup).Leads a b := Machine.Leads.single hstep
    -- what a step of the server leaves of an earlier observation
    have hkept : ∀ queue, a.closed = some (some 0, queue) →
        Seen H setup (H.host.audit s₀.deployment.host).writes.length b queue := by
      intro queue hzero
      obtain ⟨hdelivered, hactive⟩ := ha queue hzero
      refine ⟨fun i hi w' hw' => ?_, fun s' hs' => hactive s' (hb.trans hs')⟩
      obtain ⟨w, hw, -⟩ := AuditDispatcher.evolves_of_leads (audit_leads hr)
        (List.getElem?_eq_getElem hi)
      obtain ⟨w'', hw'', hev⟩ := AuditDispatcher.evolves_of_leads (audit_leads hb) hw
      obtain rfl := Option.some.inj (hw''.symm.trans hw')
      rcases hdelivered i hi w hw with hsettled | hqueued
      · rw [hev.delivery hsettled]
        exact Or.inl hsettled
      · exact Or.inr hqueued
    cases step_effect hstep with
    | settled result _ _ _ hresult =>
        intro queue hzero
        obtain ⟨rfl, rfl⟩ := Prod.mk.inj (Option.some.inj hzero)
        have hreached := host_reachable (h₀.trans hr)
        have hdone := hresult 0 rfl
        obtain ⟨k, c, hk, hphase⟩ := H.counted _ hreached hdone
        have haudit₀ := Deployment.audit_reachable (deployment_reachable h₀)
        have hsettled := AuditDispatcher.settledUpTo_of_counted haudit₀ (audit_leads hr) hopen hk
          (by rw [hphase]; rfl)
        have hbooks := AuditDispatcher.Accounting.of_reachable (haudit₀.trans (audit_leads hr))
        refine ⟨fun i hi w hw => ?_, fun s' hs' => ?_⟩
        · exact AuditDispatcher.settled_or_queued hw (hbooks.decided hw (hsettled i hi w hw))
        · exact H.drained _ _ hreached hdone (Deployment.host_of_leads (leads_of_leads (hb.trans hs')))
    | running | ended | protocolError | exit | forced => exact hkept

/-- What the exit code 0 says about everything that was to be recorded in `s₀` or before. -/
structure Finished (H : ClosableHost σ ℓ) (setup : JournalSetup) (s₀ s : Command σ) : Prop where
  stopped : s.stopped = true
  protocol : s.protocolFailed = false
  active : H.active s.deployment.host = 0
  /-- No write was refused, failed or timed out, be it an early or a late one. -/
  healthy : (H.host.audit s.deployment.host).healthy = true
  recorded : ∀ (i : Nat) w₀, (H.host.audit s₀.deployment.host).writes[i]? = some w₀ →
    (∃ w, (H.host.audit s.deployment.host).writes[i]? = some w ∧ w.delivery = .fulfilled) ∧
      s.deployment.OnDisk setup i w₀.event

/-- Exit code 0: whatever was to be recorded before the dispatcher was closed is on disk. -/
theorem finished_of_exit (h₀ : (machine H setup).Reachable s₀) (h : (machine H setup).Leads s₀ s)
    (hopen : (H.host.audit s₀.deployment.host).closes = []) (hexit : s.exit = some 0) :
    Finished H setup s₀ s := by
  have hreached : (machine H setup).Reachable s := h₀.trans h
  obtain ⟨queue, hclean⟩ := clean_of_exit hreached hexit
  obtain ⟨hdelivered, hactive⟩ := seen_of_closed h₀ h hopen hclean.closed
  refine ⟨hclean.stopped, hclean.protocol, hactive s (Machine.Leads.refl s), hclean.healthy, ?_⟩
  intro i w₀ hw₀
  obtain ⟨w, hw, hev⟩ := AuditDispatcher.evolves_of_leads (audit_leads h) hw₀
  have hdeployed := deployment_reachable hreached
  have hbooks := AuditDispatcher.Accounting.of_reachable (Deployment.audit_reachable hdeployed)
  have hsettled : w.delivery.settled = true := by
    rcases hdelivered i (Table.lt_of_getElem? hw₀) w hw with hsettled | hqueued
    · exact hsettled
    · have hrow := List.all_eq_true.mp hclean.resumed i hqueued
      rw [hw, Option.all_some] at hrow
      exact hrow
  have hfulfilled := hbooks.fulfilled_of_settled hclean.healthy hw hsettled
  refine ⟨⟨w, hw, hfulfilled⟩, ?_⟩
  rw [← hev.event]
  exact Deployment.onDisk_of_fulfilled hdeployed hw hfulfilled

end Command

/-! ## The two servers -/

namespace SecureRuntime

variable {δ : Type} {rt : RuntimeSetup} {s s' : SecureRuntime δ} {l : Label δ}

/-- The steps of `close`. -/
def Label.isClosing : Label δ → Bool
  | .close | .closeExecution | .disposed _ | .closeAudit => true
  | _ => false

theorem closing_kept (h : s.step rt l = some s') (hl : l.isClosing = false) :
    s'.closing = s.closing := by
  cases step_effect h with
  | quiet _ _ _ _ _ _ hquiet =>
      cases l with
      | tick | openRequest =>
          obtain rfl := Option.some.inj h
          rfl
      | close | closeExecution | disposed | closeAudit => cases hl
      | audit label =>
          obtain ⟨audit, -, rfl⟩ := Option.map_eq_some_iff.mp h
          rfl
      | execution label =>
          simp only [step] at h
          split at h
          · obtain ⟨execution, -, rfl⟩ := Option.map_eq_some_iff.mp h
            rfl
          · exact absurd h (by simp)
      | _ => exact absurd hquiet (by simp [Label.isQuiet])
  | _ => rfl

/-- `close` has resolved to at least what `audit.close` has. -/
def AuditClosed (s : SecureRuntime δ) (n : Nat) : Prop :=
  ∃ (k : Nat) (c : CloseCall) (pending : Nat), s.audit.closes[k]? = some c ∧
    c.phase = .resolved pending ∧ pending ≤ n

theorem AuditClosed.step {n : Nat} (ha : AuditClosed s n) (h : s.step rt l = some s') :
    AuditClosed s' n := by
  obtain ⟨k, c, pending, hk, hphase, hle⟩ := ha
  refine ⟨k, c, pending, ?_, hphase, hle⟩
  rcases (step_effect h).audit with hsame | ⟨label, hstep⟩
  · rw [hsame]
    exact hk
  · exact (AuditDispatcher.closesEffect hstep).resolved hk hphase

/-- `close` resolves with what `audit.close` has counted. -/
theorem auditClosed_or_before (h : s.step rt l = some s') {n : Nat}
    (hresolved : s'.closing = some (.resolved n)) :
    s.closing = some (.resolved n) ∨ AuditClosed s' n := by
  cases l with
  | close =>
      obtain rfl := Option.some.inj h
      cases hclosing : s.closing with
      | none => simp [close, hclosing] at hresolved
      | some closing => exact Or.inl (by simpa [close, hclosing] using hresolved)
  | closeExecution =>
      obtain ⟨closing, -, h⟩ := Option.bind_eq_some_iff.mp h
      cases closing with
      | awaitingExecution k =>
          obtain ⟨returned, -, h⟩ := Option.bind_eq_some_iff.mp h
          obtain ⟨remaining, -, h⟩ := Option.bind_eq_some_iff.mp h
          cases remaining <;> obtain rfl := Option.some.inj h <;> cases hresolved
      | _ => exact absurd h (by simp)
  | disposed ok =>
      obtain ⟨closing, -, h⟩ := Option.bind_eq_some_iff.mp h
      cases closing with
      | disposing => cases ok <;> obtain rfl := Option.some.inj h <;> cases hresolved
      | _ => exact absurd h (by simp)
  | closeAudit =>
      obtain ⟨closing, -, h⟩ := Option.bind_eq_some_iff.mp h
      cases closing with
      | awaitingAudit remaining k =>
          obtain ⟨c, hk, h⟩ := Option.bind_eq_some_iff.mp h
          split at h
          · next pending hphase =>
              obtain rfl := Option.some.inj h
              obtain rfl := RuntimeClosing.resolved.inj (Option.some.inj hresolved)
              exact Or.inr ⟨k, c, pending, hk, hphase, Nat.le_add_left _ _⟩
          · obtain rfl := Option.some.inj h
            cases hresolved
          · exact absurd h (by simp)
      | _ => exact absurd h (by simp)
  | _ => exact Or.inl (closing_kept h rfl ▸ hresolved)

theorem auditClosed_of_resolved (h : (machine rt δ).Reachable s) {n : Nat}
    (hclosing : s.closing = some (.resolved n)) : AuditClosed s n := by
  refine h.invariant (I := fun s => ∀ n, s.closing = some (.resolved n) → AuditClosed s n)
    (fun n hnone => by cases hnone) ?_ n hclosing
  intro a l b _ ha hstep n hresolved
  rcases auditClosed_or_before hstep hresolved with hbefore | hclosed
  · exact (ha n hbefore).step hstep
  · exact hclosed

/-- The promise of `close`, as its callers see it. -/
def closed (s : SecureRuntime δ) : Option (Option Nat) :=
  match s.closing with
  | some (.resolved remaining) => some (some remaining)
  | some .rejected => some none
  | _ => none

theorem resolved_of_closed {n : Nat} (h : s.closed = some (some n)) :
    s.closing = some (.resolved n) := by
  unfold closed at h
  split at h
  · next hclosing => rw [hclosing, Option.some.inj (Option.some.inj h)]
  · cases h
  · cases h

/-- Where `close` has resolved to 0, no operation is active, and none is later on. -/
theorem active_of_closed (h : (machine rt δ).Reachable s) (hclosed : s.closed = some (some 0))
    (hlead : (machine rt δ).Leads s s') : s'.execution.active.length = 0 := by
  have hstate := closed_of_reachable h
  unfold Closed at hstate
  rw [resolved_of_closed hclosed] at hstate
  obtain ⟨drain, remaining, hshutdown, hphase, hle⟩ := hstate
  have hactive := active_le_of_leads h hshutdown hphase hlead
  omega

theorem counted_of_closed (h : (machine rt δ).Reachable s) (hclosed : s.closed = some (some 0)) :
    ∃ (k : Nat) (c : CloseCall), s.audit.closes[k]? = some c ∧ c.phase = .resolved 0 := by
  obtain ⟨k, c, pending, hk, hphase, hle⟩ := auditClosed_of_resolved h (resolved_of_closed hclosed)
  obtain rfl := Nat.le_zero.mp hle
  exact ⟨k, c, hk, hphase⟩

end SecureRuntime

namespace AuditedMcpServer

variable {δ : Type} {server : ServerSetup} {s s' : AuditedMcpServer δ}

theorem runtime_leads_of_leads (h : (machine server δ).Reachable s)
    (hlead : (machine server δ).Leads s s') :
    (SecureRuntime.machine server.rt δ).Leads s.runtime s'.runtime := by
  refine hlead.along (I := fun b => (SecureRuntime.machine server.rt δ).Leads s.runtime b.runtime)
    (Machine.Leads.refl _) ?_
  intro a l b ha hruntime hstep
  obtain ⟨hgated, hreached⟩ := gated_of_reachable (h.trans ha)
  exact hruntime.trans (hgated.step (.of_reachable hreached) hstep).2

/-- The command over standard input and output: `runtime.close()`, and then the transport. -/
def closable (server : ServerSetup) (δ : Type) : ClosableHost (AuditedMcpServer δ) (Label δ) where
  host := host server δ
  close := .runtime .close
  close_isSink := rfl
  closed s := s.runtime.closed
  active s := s.runtime.execution.active.length
  drained _ _ h hclosed hlead :=
    SecureRuntime.active_of_closed (gated_of_reachable h).2 hclosed (runtime_leads_of_leads h hlead)
  counted _ h hclosed := SecureRuntime.counted_of_closed (gated_of_reachable h).2 hclosed

/-- An event is written, and acknowledged. -/
def recordedNote : List (Command.Label (Label String)) :=
  [.deployment (.host (.runtime (.audit (.write LoggedDispatcher.noteEvent none)))),
    .deployment (.callSink 0 0), .deployment (.network (.accept 0)),
    .deployment (.network (.sink (.connect 0 2))),
    .deployment (.network (.deliver 0 LoggedDispatcher.noteEvent.line.length)),
    .deployment (.network (.collector (.run 0))),
    .deployment (.network (.collector (.append 0 LoggedDispatcher.noteEvent.line.length))),
    .deployment (.network (.collector (.appended 0 true))),
    .deployment (.network (.collector (.synchronized 0 true []))),
    .deployment (.network (.answer 0 1 0)), .deployment (.settle 0)]

/-- The input ends before the code after `await` has run. -/
def endedInput : List (Command.Label (Label String)) :=
  [.stop, .deployment (.host (.runtime (.audit (.resume 0)))),
    .deployment (.host (.runtime (.execution .drainSettled))),
    .deployment (.host (.runtime (.execution .drainResume))),
    .deployment (.host (.runtime (.execution (.closeReturn 0)))),
    .deployment (.host (.runtime .closeExecution)), .deployment (.host (.runtime (.disposed true))),
    .deployment (.host (.runtime (.audit (.drain 0)))),
    .deployment (.host (.runtime (.audit (.closeResume 0)))), .deployment .callSinkClose,
    .deployment (.host (.runtime (.audit .resumeSinkClose))),
    .deployment (.host (.runtime (.audit (.closeReturn 0)))),
    .deployment (.host (.runtime .closeAudit)), .settled true, .exit]

theorem finished_of_exit_endedInput : ∃ s₀ s : Command (AuditedMcpServer String),
    (Command.machine (closable notesServer String) Collector.emptyJournal).exec
      (Command.machine (closable notesServer String) Collector.emptyJournal).init recordedNote =
        some s₀ ∧
    (Command.machine (closable notesServer String) Collector.emptyJournal).exec s₀ endedInput = some s ∧
    s₀.deployment.host.runtime.audit.writes.length = 1 ∧ s.exit = some 0 ∧
    Command.Finished (closable notesServer String) Collector.emptyJournal s₀ s := by
  have hrun : ((Command.machine (closable notesServer String) Collector.emptyJournal).exec
      (Command.machine (closable notesServer String) Collector.emptyJournal).init recordedNote).map
        (fun s => (s.deployment.host.runtime.audit.writes.length,
          s.deployment.host.runtime.audit.closes)) = some (1, []) := by
    decide +kernel
  obtain ⟨s₀, hexec₀, hstate⟩ := Option.map_eq_some_iff.mp hrun
  obtain ⟨hlength, hcloses⟩ := Prod.mk.inj hstate
  have hend : (((Command.machine (closable notesServer String) Collector.emptyJournal).exec
      (Command.machine (closable notesServer String) Collector.emptyJournal).init recordedNote).bind
        (fun s₀ => (Command.machine (closable notesServer String) Collector.emptyJournal).exec s₀
          endedInput)).map Command.exit = some (some 0) := by
    decide +kernel
  rw [hexec₀, Option.bind_some] at hend
  obtain ⟨s, hexec, hexit⟩ := Option.map_eq_some_iff.mp hend
  exact ⟨s₀, s, hexec₀, hexec, hlength, hexit,
    Command.finished_of_exit (Machine.leads_of_exec hexec₀) (Machine.leads_of_exec hexec) hcloses hexit⟩

end AuditedMcpServer

namespace HttpServer

variable {δ : Type} {setup : HttpSetup} {s : HttpServer δ}

/-- The promise of `HttpHandle.close`. -/
def handleClosed (s : HttpServer δ) : Option (Option Nat) :=
  match s.shutdown with
  | some .awaitingRuntime => s.runtime.closed
  | some .rejected => some none
  | _ => none

theorem closed_of_handleClosed {n : Nat} (h : s.handleClosed = some (some n)) :
    s.runtime.closed = some (some n) := by
  unfold handleClosed at h
  split at h
  · exact h
  · cases h
  · cases h

/-- The command over HTTP: `close` of the handle. -/
def closable (setup : HttpSetup) (δ : Type) : ClosableHost (HttpServer δ) (Label δ) where
  host := host setup δ
  close := .close
  close_isSink := rfl
  closed := handleClosed
  active s := s.runtime.execution.active.length
  drained _ _ h hclosed hlead :=
    SecureRuntime.active_of_closed (runtime_reachable h) (closed_of_handleClosed hclosed)
      (runtime_leads_of_leads hlead)
  counted _ h hclosed := SecureRuntime.counted_of_closed (runtime_reachable h) (closed_of_handleClosed hclosed)

end HttpServer

end SecureMcp
