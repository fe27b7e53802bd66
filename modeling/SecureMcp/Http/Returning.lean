import SecureMcp.Http.Lifecycle
import SecureMcp.Lib.Tally

set_option autoImplicit false

/-! # Slots are given back

A request keeps its slot until the `close` event of its response, the adapter and its audit writes have
come. None of these is up to the server, so what can be said of it is that nothing else is ever needed:
from every state the answers that are still owed (`answers`), and what the server does with them, empty
it (`vacant_of_answers`). And one of them cannot be done without: a request whose response does not emit
`close` keeps its slot (`holds_of_unclosed`).

Node emits the event for a response that is sent on its connection, and not for a pipelined one that
still waits behind another when the connection ends. Which responses are silent is therefore a parameter
of a run (`emits`). -/

namespace SecureMcp

variable {δ : Type}

/-! ## How far there is to go -/

def Delivery.remaining : Delivery → Nat
  | .racing => 2
  | .won | .lost => 1
  | .fulfilled | .rejected => 0

def DeliveryPhase.remaining : DeliveryPhase → Nat
  | .receiving _ => 2
  | .adapting => 1
  | .settled => 0

def EndingPhase.remaining : EndingPhase → Nat
  | .awaitingClose => 4
  | .awaitingDelivery => 3
  | .settling _ => 2
  | .writing _ => 1
  | .done => 0

def HttpExchange.remaining (e : HttpExchange) : Nat :=
  match e.phase with
  | .verifying => 1
  | .refused _ => 0
  | .admitted trace => (if e.response.closed then 0 else 1) + trace.delivery.remaining +
      trace.ending.remaining

theorem HttpExchange.remaining_of_trace {e : HttpExchange} {trace : Trace} (h : e.trace = some trace) :
    e.remaining = (if e.response.closed then 0 else 1) + trace.delivery.remaining +
      trace.ending.remaining := by
  rw [HttpExchange.remaining, HttpServer.admitted_of_trace h]

/-! ## The writes -/

namespace AuditDispatcher

variable {ε : Type} {d : AuditDispatcher ε}

/-- The sink is called, its promise is fulfilled, or `deliver` goes on after its race. -/
def Label.answers : Label ε → Bool
  | .callSink _ ret => ret == .returned
  | .settle _ ok => ok
  | .resume _ => true
  | _ => false

/-- A write that has not settled waits for the sink, or for nothing. -/
theorem answers_of_unsettled (hbooks : d.Accounting) {i : Nat} {w : Write ε}
    (hi : d.writes[i]? = some w) (hw : w.delivery.settled = false) :
    ∃ l d', Label.answers l = true ∧ d.step l = some d' ∧
      ∃ w' : Write ε, d'.writes = d.writes.set i w' ∧ w'.delivery.remaining < w.delivery.remaining := by
  -- a race that is open has a sink call that has not settled, or is still to be made
  have hracing : w.delivery = .racing → w.work = .deferred ∨ w.work = .called := by
    intro hracing
    have hrow := hbooks.rows i w hi
    cases hwork : w.work with
    | deferred => exact Or.inl rfl
    | called => exact Or.inr rfl
    | refused =>
        rw [(hrow.refused hwork).1] at hracing
        cases hracing
    | fulfilled | rejected =>
        have hnone := (hrow.racing (by simp [hwork])).mp hracing
        have hsink := hrow.sink
        rw [hwork, hnone] at hsink
        cases hsink
  cases hdelivery : w.delivery with
  | racing =>
      rcases hracing hdelivery with hwork | hwork
      · refine ⟨.callSink i .returned,
          { d with handed := d.handed ++ [i] }.settleWork i w true, rfl, ?_,
          w.settleWork true, rfl, ?_⟩
        · simp [step, callSink, hi, hwork]
        · simp [Write.settleWork, hdelivery, Delivery.settle, Delivery.remaining]
      · refine ⟨.settle i true, d.settleWork i w true, rfl, ?_, w.settleWork true, rfl, ?_⟩
        · simp [step, settle, hi, hwork]
        · simp [Write.settleWork, hdelivery, Delivery.settle, Delivery.remaining]
  | won =>
      refine ⟨.resume i, { d with writes := d.writes.set i { w with delivery := .fulfilled } }, rfl, ?_,
        { w with delivery := .fulfilled }, rfl, by simp [Delivery.remaining]⟩
      simp [step, resume, hi, hdelivery]
  | lost =>
      refine ⟨.resume i, { d with
        failures := d.failures + 1
        writes := d.writes.set i { w with delivery := .rejected } }, rfl, ?_,
        { w with delivery := .rejected }, rfl, by simp [Delivery.remaining]⟩
      simp [step, resume, hi, hdelivery]
  | fulfilled | rejected =>
      rw [hdelivery] at hw
      cases hw

end AuditDispatcher

namespace HttpServer

variable {setup : HttpSetup} {s s' : HttpServer δ} {l : Label δ}

/-! ## The snapshots of `scope.settle` -/

/-- The snapshot of this request consists of writes that were made. -/
def SnapshotMade (s : HttpServer δ) (trace : Trace) : Prop :=
  ∀ snapshot, trace.ending = .settling snapshot → ∀ i ∈ snapshot, i < s.nextWrite

/-- Every admitted request. -/
def Snapshots (s : HttpServer δ) : Prop :=
  ∀ (x : Nat) e, s.exchanges[x]? = some e → ∀ trace, e.trace = some trace → SnapshotMade s trace

theorem Effect.nextWrite_le (he : Effect setup s l s') : s.nextWrite ≤ s'.nextWrite := by
  refine Nat.le_of_not_lt (fun hlt => ?_)
  obtain ⟨w, hw⟩ : ∃ w, s.runtime.audit.writes[s'.nextWrite]? = some w :=
    ⟨_, List.getElem?_eq_getElem hlt⟩
  obtain ⟨w', hw', _⟩ := he.writesKept s'.nextWrite w hw
  exact Nat.lt_irrefl _ (Table.lt_of_getElem? hw')

theorem SnapshotMade.moves {e : HttpExchange} {trace trace' : Trace} {response : HttpResponse}
    (h : SnapshotMade s trace) (hmoves : Moves s e trace response trace') : SnapshotMade s trace' := by
  cases hmoves with
  | awaiting hending hclosed =>
      intro snapshot hsnapshot
      cases hsnapshot
  | settling new hready hknown =>
      intro snapshot hsnapshot
      obtain rfl := EndingPhase.settling.inj hsnapshot
      exact hknown
  | _ => exact h

theorem Snapshots.effect (h : Snapshots s) (he : Effect setup s l s') : Snapshots s' := by
  have hkept : ∀ {trace : Trace}, SnapshotMade s trace → SnapshotMade s' trace :=
    fun hmade snapshot hs i hi => Nat.lt_of_lt_of_le (hmade snapshot hs i hi) he.nextWrite_le
  have hold : ∀ (x : Nat) e, s.exchanges[x]? = some e → ∀ trace, e.trace = some trace →
      SnapshotMade s' trace := fun x e hx trace htrace => hkept (h x e hx trace htrace)
  have hset : ∀ {x : Nat} {e' : HttpExchange}, (∀ trace, e'.trace = some trace → SnapshotMade s' trace) →
      ∀ (y : Nat) e, (s.exchanges.set x e')[y]? = some e → ∀ trace, e.trace = some trace →
        SnapshotMade s' trace := fun hnew => Table.forall_set hold hnew
  cases he with
  | counted | closing | runtime => exact hold
  | listened request endpoint hbound =>
      exact Table.forall_append hold (fun _ htrace => absurd htrace (by simp [HttpExchange.trace]))
  | refused x e response reason counters hx hphase =>
      exact hset (fun _ htrace => absurd htrace (by simp [HttpExchange.trace]))
  | untraced x e response hx htrace =>
      exact hset (fun _ hother => absurd (htrace.symm.trans hother) (by simp))
  | admitted x e principal uuid hx hphase =>
      refine hset (fun trace htrace snapshot hs => ?_)
      obtain rfl := Option.some.inj htrace
      cases hs
  | moved x e trace trace' response hx htrace hmoves =>
      refine hset (fun other hother => ?_)
      obtain rfl := Option.some.inj hother
      exact hkept ((h x e hx trace htrace).moves hmoves)
  | attempted x e trace hx htrace | released x e trace write hx htrace =>
      refine hset (fun other hother snapshot hs => ?_)
      obtain rfl := Option.some.inj hother
      cases hs
  | responding x e trace status hx htrace | invoked x e trace call runtime hx htrace
  | observed x e trace event hx htrace =>
      refine hset (fun other hother => ?_)
      obtain rfl := Option.some.inj hother
      exact hold x e hx trace htrace

theorem snapshots_of_reachable (h : (machine setup δ).Reachable s) : Snapshots s :=
  h.invariant (I := Snapshots) (by simp [Snapshots, machine])
    (fun _ _ _ _ hs hstep => hs.effect (step_effect hstep))

/-! ## The answers that are owed -/

/-- What the verifier, the client, the adapter and the sink owe a request, and what the server does
    with it. No request comes, and neither the adapter nor the sink fails. -/
def answers : Label δ → Bool
  | .verified _ principal _ => principal.isNone
  | .received _ | .closed _ | .terminal _ => true
  | .adapted _ ok => ok
  | .runtime (.audit label) => label.answers
  | _ => false

/-- The `close` events that come, where these responses are `silent`. -/
def emits (silent : Nat → Bool) : Label δ → Bool
  | .closed x => !silent x
  | _ => true

/-- No request is being verified or holds a slot. -/
def Vacant (s : HttpServer δ) : Prop :=
  ∀ e ∈ s.exchanges, e.isVerifying = false ∧ e.holds = false

/-- What the requests have before them, and what their writes have. -/
def weight (s : HttpServer δ) : ℕ ×ₗ ℕ :=
  toLex ((s.exchanges.map HttpExchange.remaining).sum,
    (s.runtime.audit.writes.map (fun w => w.delivery.remaining)).sum)

/-- One request is nearer to its end. -/
theorem weight_of_set {x : Nat} {e e' : HttpExchange} (hx : s.exchanges[x]? = some e)
    (hexchanges : s'.exchanges = s.exchanges.set x e') (hless : e'.remaining < e.remaining) :
    s'.weight < s.weight := by
  have hsum := Tally.sum_set HttpExchange.remaining e' hx
  refine Machine.lex_first ?_
  rw [hexchanges]
  omega

/-- A write that has not settled is nearer to its end after an answer. -/
theorem answers_of_write (hs : (machine setup δ).Reachable s) {i : Nat} {w : Write AuditEvent}
    (hi : s.runtime.audit.writes[i]? = some w) (hw : w.delivery.settled = false) :
    ∃ l s', answers l = true ∧ s.step setup l = some s' ∧ s'.weight < s.weight := by
  have hbooks := AuditDispatcher.Accounting.of_reachable
    (SecureRuntime.audit_reachable (runtime_reachable hs))
  obtain ⟨l, d, hanswers, hstep, w', hwrites, hless⟩ :=
    AuditDispatcher.answers_of_unsettled hbooks hi hw
  have hnotWrite : ∀ event scope, l ≠ .write event scope := by
    rintro event scope rfl
    cases hanswers
  have hforeign : isForeign (δ := δ) (.audit l) = true := by
    cases l with
    | write event scope => exact absurd rfl (hnotWrite event scope)
    | _ => rfl
  refine ⟨.runtime (.audit l), { s with runtime := { s.runtime with audit := d } }, hanswers, ?_, ?_⟩
  · simp only [step, SecureRuntime.step, if_pos hforeign, hstep, Option.map_some]
  · have hsum := Tally.sum_set (fun w : Write AuditEvent => w.delivery.remaining) w' hi
    refine Machine.lex_later rfl ?_
    show (d.writes.map (fun w => w.delivery.remaining)).sum < _
    rw [hwrites]
    omega

/-- A verification that fails is over. -/
theorem verified_nearer (setup : HttpSetup) {x : Nat} {e : HttpExchange} (hx : s.exchanges[x]? = some e)
    (hphase : e.phase = .verifying) :
    ∃ s' e', s.verified setup x none [] = some s' ∧ s'.exchanges = s.exchanges.set x e' ∧
      e'.remaining < e.remaining := by
  have hbefore : e.remaining = 1 := by rw [HttpExchange.remaining, hphase]
  simp only [verified, hx, hphase, Option.bind_eq_bind, Option.bind_some]
  cases e.response.destroyed with
  | true => exact ⟨_, { e with phase := .refused none }, rfl, rfl, by rw [hbefore]; exact Nat.one_pos⟩
  | false =>
      refine ⟨_, { e with
        response := { e.response with headersSent := true, ended := true, statusCode := 401 }
        phase := .refused (some .unauthorized) }, rfl, rfl, ?_⟩
      rw [hbefore]
      exact Nat.one_pos

theorem closed_nearer {x : Nat} {e : HttpExchange} {trace : Trace} (hx : s.exchanges[x]? = some e)
    (htrace : e.trace = some trace) (hopen : e.response.closed = false) :
    ∃ s' e', s.closed x = some s' ∧ s'.exchanges = s.exchanges.set x e' ∧
      e'.remaining < e.remaining := by
  have hbefore := HttpExchange.remaining_of_trace htrace
  simp only [closed, hx, hopen, admitted_of_trace htrace, Option.bind_eq_bind, Option.bind_some,
    Bool.false_eq_true, if_false]
  refine ⟨_, _, rfl, rfl, ?_⟩
  rw [hbefore, hopen]
  simp [HttpExchange.remaining]

section Settled

/-! Where every write has settled, the server itself goes on, or the verifier, the client or the adapter
is still to answer. -/

variable (hsettled : ∀ (i : Nat) w, s.runtime.audit.writes[i]? = some w → w.delivery.settled = true)

include hsettled

theorem hasSettled_of_lt {i : Nat} (hi : i < s.nextWrite) : s.hasSettled i = true :=
  hasSettled_iff.mpr ⟨_, List.getElem?_eq_getElem hi, hsettled i _ (List.getElem?_eq_getElem hi)⟩

/-- `scope.settle` has nothing to wait for. -/
theorem settle_of_settled (x : Nat) (e : HttpExchange) (trace : Trace) :
    (s.settle x e trace).exchanges = s.exchanges.set x { e with
      phase := .admitted { trace with
        ending := .writing s.nextWrite
        attempts := trace.attempts ++ [s.nextWrite] } } := by
  have hnone : s.unsettled x = [] := by
    refine List.filter_eq_nil_iff.mpr (fun i hi => ?_)
    obtain ⟨w, hw, hdelivery⟩ := hasSettled_iff.mp
      (hasSettled_of_lt hsettled (List.mem_range.mp hi))
    simp [hw, hdelivery]
  rw [settle, hnone]
  rfl

/-- The delivery goes on from the `received` record. -/
theorem received_nearer {x write : Nat} {e : HttpExchange} {trace : Trace}
    (hx : s.exchanges[x]? = some e) (htrace : e.trace = some trace)
    (hlife : Lifecycle s.runtime x e trace) (hdelivery : trace.delivery = .receiving write) :
    ∃ s' e', s.received x = some s' ∧ s'.exchanges = s.exchanges.set x e' ∧
      e'.remaining < e.remaining := by
  have hbefore := HttpExchange.remaining_of_trace htrace
  rw [hdelivery] at hbefore
  obtain ⟨hwrite, -, -⟩ := hlife.receiving write hdelivery
  obtain ⟨w, hw, -, -⟩ := hlife.received
  rw [← hwrite] at hw
  have hover := hsettled write w hw
  simp only [received, hx, htrace, hdelivery, hw, Option.bind_eq_bind, Option.bind_some]
  cases hwd : w.delivery with
  | fulfilled =>
      refine ⟨_, _, rfl, rfl, ?_⟩
      rw [hbefore]
      cases e.response.destroyed <;> simp [HttpExchange.remaining, DeliveryPhase.remaining]
  | rejected =>
      refine ⟨_, _, rfl, rfl, ?_⟩
      rw [hbefore]
      simp [HttpExchange.remaining, DeliveryPhase.remaining]
  | _ =>
      rw [hwd] at hover
      cases hover

/-- A request that holds a slot is nearer to its end after an answer, or after a step of `terminal`. -/
theorem answers_of_holds {x : Nat} {e : HttpExchange} {trace : Trace}
    (hx : s.exchanges[x]? = some e) (htrace : e.trace = some trace)
    (hlife : Lifecycle s.runtime x e trace)
    (hmade : SnapshotMade s trace)
    (hending : trace.ending ≠ .done) :
    ∃ l s', answers l = true ∧ s.step setup l = some s' ∧ s'.weight < s.weight := by
  have hbefore := HttpExchange.remaining_of_trace htrace
  cases hphase : trace.ending with
  | awaitingClose =>
      cases hclosed : e.response.closed with
      | true =>
          refine ⟨.terminal x, s.setExchange x { e with
            phase := .admitted { trace with ending := .awaitingDelivery } }, rfl, ?_,
            weight_of_set hx rfl ?_⟩
          · simp [step, terminal, hx, htrace, hphase, hclosed]
          · rw [hbefore, hphase, hclosed]
            simp [HttpExchange.remaining, EndingPhase.remaining, hclosed]
      | false =>
          obtain ⟨s', e', hstep, hexchanges, hless⟩ := closed_nearer hx htrace hclosed
          exact ⟨.closed x, s', rfl, hstep, weight_of_set hx hexchanges hless⟩
  | awaitingDelivery =>
      cases hdelivery : trace.delivery with
      | receiving write =>
          obtain ⟨s', e', hstep, hexchanges, hless⟩ :=
            received_nearer hsettled hx htrace hlife hdelivery
          exact ⟨.received x, s', rfl, hstep, weight_of_set hx hexchanges hless⟩
      | adapting =>
          refine ⟨.adapted x true, s.setExchange x { e with
            phase := .admitted { trace with delivery := .settled } }, rfl, ?_, weight_of_set hx rfl ?_⟩
          · simp [step, adapted, hx, htrace, hdelivery]
          · rw [hbefore, hdelivery]
            simp [HttpExchange.remaining, DeliveryPhase.remaining]
      | settled =>
          refine ⟨.terminal x, s.settle x e trace, rfl, ?_,
            weight_of_set hx (settle_of_settled hsettled x e trace) ?_⟩
          · simp [step, terminal, hx, htrace, hphase, hdelivery]
          · rw [hbefore, hphase]
            simp [HttpExchange.remaining, EndingPhase.remaining]
  | settling snapshot =>
      have hall : snapshot.all s.hasSettled = true := List.all_eq_true.mpr
        (fun i hi => hasSettled_of_lt hsettled (hmade snapshot hphase i hi))
      refine ⟨.terminal x, s.settle x e trace, rfl, ?_,
        weight_of_set hx (settle_of_settled hsettled x e trace) ?_⟩
      · show s.terminal x = _
        simp only [terminal, hx, htrace, hphase, hall, Option.bind_eq_bind, Option.bind_some, if_true]
      · rw [hbefore, hphase]
        simp [HttpExchange.remaining, EndingPhase.remaining]
  | writing write =>
      have hwritten : s.hasSettled write = true := by
        have hrecorded := hlife.ending
        unfold Ending at hrecorded
        rw [hphase] at hrecorded
        obtain ⟨_, _, _, _, _, _, w, _, _, hw, _⟩ := hrecorded
        exact hasSettled_iff.mpr ⟨w, hw, hsettled write w hw⟩
      refine ⟨.terminal x, { s with requests := s.requests - 1 }.setExchange x { e with
        phase := .admitted { trace with ending := .done } }, rfl, ?_, weight_of_set hx rfl ?_⟩
      · simp [step, terminal, hx, htrace, hphase, hwritten]
      · rw [hbefore, hphase]
        simp [HttpExchange.remaining, EndingPhase.remaining]
  | done => exact absurd hphase hending

end Settled

/-- From every state, the answers that are owed give back every slot. -/
theorem vacant_of_answers (hs : (machine setup δ).Reachable s) :
    ∃ s', (machine setup δ).LeadsIn (fun _ l => answers l = true) s s' ∧ s'.Vacant := by
  refine Machine.leadsIn_of_decreasing (I := (machine setup δ).Reachable) weight
    (fun now hnow => ?_) s hs
  by_cases hvacant : now.Vacant
  · exact Or.inl hvacant
  · refine Or.inr ?_
    obtain ⟨l, next, hanswers, hstep, hless⟩ : ∃ l next, answers l = true ∧
        now.step setup l = some next ∧ next.weight < now.weight := by
      by_cases hsettled : ∀ (i : Nat) w, now.runtime.audit.writes[i]? = some w →
          w.delivery.settled = true
      · -- nothing is left to the sink, so some request goes on
        obtain ⟨e, he, hbusy⟩ : ∃ e ∈ now.exchanges, ¬ (e.isVerifying = false ∧ e.holds = false) := by
          unfold Vacant at hvacant
          push Not at hvacant
          obtain ⟨e, he, hbusy⟩ := hvacant
          exact ⟨e, he, fun ⟨hverifying, hholds⟩ => hbusy hverifying hholds⟩
        obtain ⟨x, hx⟩ := List.getElem?_of_mem he
        cases hphase : e.phase with
        | verifying =>
            obtain ⟨next, e', hstep, hexchanges, hless⟩ := verified_nearer setup hx hphase
            exact ⟨.verified x none [], next, rfl, hstep, weight_of_set hx hexchanges hless⟩
        | refused reason =>
            exact absurd ⟨by rw [HttpExchange.isVerifying, hphase],
              by rw [HttpExchange.holds, HttpExchange.trace, hphase]⟩ hbusy
        | admitted trace =>
            have htrace : e.trace = some trace := by rw [HttpExchange.trace, hphase]
            refine answers_of_holds hsettled hx htrace
              ((Rows.of_reachable hnow).1 x e trace hx htrace)
              (snapshots_of_reachable hnow x e hx trace htrace) (fun hdone => hbusy ⟨?_, ?_⟩)
            · exact isVerifying_of_trace htrace
            · rw [holds_of_trace htrace, hdone]
              rfl
      · push Not at hsettled
        obtain ⟨i, w, hi, hw⟩ := hsettled
        exact answers_of_write hnow hi (Bool.eq_false_iff.mpr hw)
    exact ⟨l, next, hanswers, hstep, hnow.snoc hstep, hless⟩

/-! ## The `close` event -/

/-- Only its `close` event brings an admitted request to where it gives its slot back. -/
theorem Effect.unclosed (he : Effect setup s l s') (hrows : Rows s) {x : Nat} {e : HttpExchange}
    (hl : l ≠ .closed x) (hx : s.exchanges[x]? = some e) (hholds : e.holds = true)
    (hopen : e.response.closed = false) :
    ∃ e', s'.exchanges[x]? = some e' ∧ e'.holds = true ∧ e'.response.closed = false := by
  have hset : ∀ {y : Nat} {a b : HttpExchange}, s.exchanges[y]? = some a →
      (x = y → a = e → b.holds = true ∧ b.response.closed = false) →
      ∃ e', (s.exchanges.set y b)[x]? = some e' ∧ e'.holds = true ∧ e'.response.closed = false := by
    intro y a b hy hnew
    by_cases hxy : x = y
    · subst hxy
      obtain rfl := Option.some.inj (hy.symm.trans hx)
      exact ⟨b, Table.getElem?_set_of_some hy, hnew rfl rfl⟩
    · exact ⟨e, by rw [Table.getElem?_set_of_ne hxy]; exact hx, hholds, hopen⟩
  have huntraced : ∀ {a : HttpExchange}, a.trace = none → a ≠ e := by
    rintro a hnone rfl
    rw [HttpExchange.holds, hnone] at hholds
    cases hholds
  have htraced : ∀ {a : HttpExchange} {trace : Trace}, a.trace = some trace → a = e →
      trace.ending ≠ .done := by
    rintro a trace htrace rfl hdone
    rw [holds_of_trace htrace, hdone] at hholds
    cases hholds
  cases he with
  | counted | closing | runtime => exact ⟨e, hx, hholds, hopen⟩
  | listened request endpoint hbound =>
      exact ⟨e, Table.getElem?_append_of_some hx, hholds, hopen⟩
  | refused y a response reason counters hy hphase | admitted y a principal uuid hy hphase =>
      exact hset hy (fun _ heq => absurd heq (huntraced (trace_of_verifying hphase)))
  | untraced y a response hy htrace => exact hset hy (fun _ heq => absurd heq (huntraced htrace))
  | moved y a trace trace' response hy htrace hmoves hclosed =>
      refine hset hy (fun hxy heq => ⟨?_, ?_⟩)
      · rw [holds_of_trace rfl, bne_iff_ne]
        exact fun hdone => htraced htrace heq (hmoves.ending.mp hdone)
      · refine Bool.eq_false_iff.mpr (fun hnow => ?_)
        subst hxy heq
        rcases hclosed hnow with hbefore | hlabel
        · exact absurd (hopen.symm.trans hbefore) (by simp)
        · exact hl hlabel
  | attempted y a trace hy htrace =>
      refine hset hy (fun _ heq => ⟨?_, heq ▸ hopen⟩)
      rw [holds_of_trace rfl, bne_iff_ne]
      exact fun hdone => absurd hdone (by simp)
  | released y a trace write hy htrace hending =>
      -- the terminal record is made after the event
      refine hset hy (fun _ heq => ?_)
      have hwritten := (hrows y a trace hy htrace).ending
      unfold Ending at hwritten
      rw [hending] at hwritten
      rw [heq, hopen] at hwritten
      exact absurd hwritten.2.1 (by simp)
  | responding y a trace status hy htrace | invoked y a trace call runtime hy htrace
  | observed y a trace event hy htrace =>
      refine hset hy (fun _ heq => ⟨?_, heq ▸ hopen⟩)
      have hending := htraced htrace heq
      rw [holds_of_trace rfl, bne_iff_ne]
      exact hending

/-- A slot is kept as long as the response has not emitted `close`. -/
theorem holds_of_unclosed {x : Nat} {e : HttpExchange} (hs : (machine setup δ).Reachable s)
    (hx : s.exchanges[x]? = some e) (hholds : e.holds = true) (hopen : e.response.closed = false)
    (h : (machine setup δ).LeadsIn (fun _ l => l ≠ .closed x) s s') :
    ∃ e', s'.exchanges[x]? = some e' ∧ e'.holds = true ∧ e'.response.closed = false := by
  refine (h.invariant (I := fun t => (machine setup δ).Reachable t ∧
    ∃ e', t.exchanges[x]? = some e' ∧ e'.holds = true ∧ e'.response.closed = false)
    ⟨hs, e, hx, hholds, hopen⟩ ?_).2
  rintro a l b ⟨ha, e, hx, hholds, hopen⟩ hl hstep
  exact ⟨ha.snoc hstep,
    (step_effect hstep).unclosed (Rows.of_reachable ha).1 hl hx hholds hopen⟩

end HttpServer

end SecureMcp
