import SecureMcp.Http.Scope

set_option autoImplicit false

/-! # What waits for the `received` record

The delivery of a request goes on only when its `received` record has settled, and nothing is read or
dispatched for it before that record was acknowledged. -/

namespace SecureMcp

variable {δ : Type}

namespace HttpServer

variable {setup : HttpSetup} {s s' : HttpServer δ} {l : Label δ}

/-- The delivery is past the `received` record. -/
def Trace.IsOpen (trace : Trace) : Prop := ∀ write, trace.delivery ≠ .receiving write

/-- Something was done for the request. -/
def Trace.IsBegun (trace : Trace) : Prop := trace.delivery = .adapting ∨ trace.fetch ≠ .idle

structure Opened (r : SecureRuntime δ) (trace : Trace) : Prop where
  settled : Trace.IsOpen trace → r.Settled trace.received
  begun : Trace.IsBegun trace → r.Delivered trace.received .fulfilled
  dispatched : trace.dispatched = true → trace.fetch ≠ .idle
  called : trace.invocations ≠ [] ∨ trace.observed ≠ [] → trace.dispatched = true

theorem Opened.kept {r r' : SecureRuntime δ} {trace : Trace} (h : Opened r trace)
    (hkept : SecureRuntime.WritesKept r r') : Opened r' trace :=
  ⟨fun hopen => (h.settled hopen).kept hkept, fun hbegun => (h.begun hbegun).kept hkept rfl,
    h.dispatched, h.called⟩

theorem settled_of_delivered {r : SecureRuntime δ} {write : Nat} {delivery : Delivery}
    (h : r.Delivered write delivery) (hsettled : delivery.settled = true) : r.Settled write := by
  obtain ⟨w, hw, rfl⟩ := h
  exact ⟨w, hw, hsettled⟩

/-- The threads of a request go on. -/
theorem Opened.moves {x : Nat} {e : HttpExchange} {trace trace' : Trace} {response : HttpResponse}
    (h : Opened s.runtime trace) (hlife : Lifecycle s.runtime x e trace)
    (hmoves : Moves s e trace response trace') : Opened s.runtime trace' := by
  cases hmoves with
  | delivered write delivery hdelivery hwrite hnew =>
      obtain ⟨rfl, hfetch, hdispatched⟩ := hlife.receiving write hdelivery
      exact ⟨fun _ => settled_of_delivered hwrite rfl, fun _ => hwrite, h.dispatched, h.called⟩
  | adapted hdelivery =>
      have hbegun := h.begun (Or.inl hdelivery)
      exact ⟨fun _ => settled_of_delivered hbegun rfl, fun _ => hbegun, h.dispatched, h.called⟩
  | caught hdelivery =>
      rcases hdelivery with ⟨write, hdelivery, hwrite⟩ | hdelivery
      · obtain ⟨rfl, hfetch, hdispatched⟩ := hlife.receiving write hdelivery
        refine ⟨fun _ => settled_of_delivered hwrite rfl, fun hbegun => ?_, h.dispatched, h.called⟩
        rcases hbegun with hadapting | hreading
        · exact absurd hadapting (by simp)
        · exact absurd hfetch hreading
      · have hbegun := h.begun (Or.inl hdelivery)
        exact ⟨fun _ => settled_of_delivered hbegun rfl, fun _ => hbegun, h.dispatched, h.called⟩
  | reading hdelivery hfetch =>
      exact ⟨h.settled, fun _ => h.begun (Or.inl hdelivery), fun _ => by simp, h.called⟩
  | handling hfetch =>
      refine ⟨h.settled, fun _ => h.begun ?_, fun _ => by simp, fun _ => rfl⟩
      rcases hfetch with hreading | ⟨hdelivery, _⟩
      · exact Or.inr (by simp [hreading])
      · exact Or.inl hdelivery
  | fetchFailed hfetch =>
      refine ⟨h.settled, fun _ => h.begun (Or.inr ?_), fun _ => by simp, h.called⟩
      rcases hfetch with hreading | hhandling | ⟨write, status, hrecording, _⟩
      · simp [hreading]
      · simp [hhandling]
      · simp [hrecording]
  | passed write status hfetch hwrite =>
      exact ⟨h.settled, fun _ => h.begun (Or.inr (by simp [hfetch])), fun _ => by simp, h.called⟩
  | head | ended | finished | destroyed | closed | expired | awaiting | settling =>
      exact ⟨h.settled, h.begun, h.dispatched, h.called⟩

/-- Every admitted request. -/
def AllOpened (s : HttpServer δ) : Prop :=
  ∀ (x : Nat) e trace, s.exchanges[x]? = some e → e.trace = some trace → Opened s.runtime trace

theorem AllOpened.effect (h : AllOpened s) (hrows : Rows s) (he : Effect setup s l s') :
    AllOpened s' := by
  have hold : ∀ (x : Nat) e, s.exchanges[x]? = some e → ∀ trace, e.trace = some trace →
      Opened s'.runtime trace := fun x e hx trace htrace => (h x e trace hx htrace).kept he.writesKept
  have hset : ∀ {x : Nat} {e' : HttpExchange},
      (∀ trace, e'.trace = some trace → Opened s'.runtime trace) →
      ∀ (y : Nat) e, (s.exchanges.set x e')[y]? = some e → ∀ trace, e.trace = some trace →
        Opened s'.runtime trace := fun hnew => Table.forall_set hold hnew
  have hthread : ∀ {x : Nat} {e' : HttpExchange} {trace' : Trace}, e'.trace = some trace' →
      Opened s'.runtime trace' →
      ∀ (y : Nat) e trace, (s.exchanges.set x e')[y]? = some e → e.trace = some trace →
        Opened s'.runtime trace := by
    intro x e' trace' htrace' hnew y e trace hy
    refine hset (fun other hother => ?_) y e hy trace
    obtain rfl := Option.some.inj (htrace'.symm.trans hother)
    exact hnew
  cases he with
  | counted | closing | runtime => exact fun x e trace hx => hold x e hx trace
  | listened request endpoint hbound =>
      intro x e trace hx htrace
      rcases Table.getElem?_append_cases hx with hx | ⟨_, rfl⟩
      · exact hold x e hx trace htrace
      · exact absurd htrace (by simp [HttpExchange.trace])
  | refused x e response reason counters hx hphase =>
      exact fun y b trace hy => hset
        (fun other hother => absurd hother (by simp [HttpExchange.trace])) y b hy trace
  | admitted x e principal uuid hx hphase =>
      refine hthread rfl ⟨fun hopen => ?_, fun hbegun => ?_, fun hd => ?_, fun hc => ?_⟩
      · exact absurd rfl (hopen _)
      · exact absurd hbegun (by simp [Trace.IsBegun, newTrace])
      · exact absurd hd (by simp [newTrace])
      · exact absurd hc (by simp [newTrace])
  | untraced x e response hx htrace =>
      refine fun y b trace hy => hset (fun other hother => ?_) y b hy trace
      exact absurd (htrace.symm.trans hother) (by simp)
  | moved x e trace trace' response hx htrace hmoves =>
      exact hthread rfl ((h x e trace hx htrace).moves (hrows x e trace hx htrace) hmoves)
  | responding x e trace status hx htrace hfetch =>
      have hk := hold x e hx trace htrace
      refine hthread rfl ⟨hk.settled, fun _ => hk.begun ?_, fun _ => by simp, hk.called⟩
      rcases hfetch with ⟨hdelivery, _⟩ | hreading | hhandling
      · exact Or.inl hdelivery
      · exact Or.inr (by simp [hreading])
      · exact Or.inr (by simp [hhandling])
  | attempted x e trace hx htrace | released x e trace write hx htrace =>
      have hk := hold x e hx trace htrace
      exact hthread rfl ⟨hk.settled, hk.begun, hk.dispatched, hk.called⟩
  | invoked x e trace call runtime hx htrace hdispatched =>
      have hk := hold x e hx trace htrace
      exact hthread rfl ⟨hk.settled, hk.begun, hk.dispatched, fun _ => hdispatched⟩
  | observed x e trace event hx htrace hdispatched =>
      have hk := hold x e hx trace htrace
      exact hthread rfl ⟨hk.settled, hk.begun, hk.dispatched, fun _ => hdispatched⟩

theorem allOpened_of_reachable (h : (machine setup δ).Reachable s) : AllOpened s :=
  h.invariant (I := AllOpened) (by simp [AllOpened, machine])
    (fun _ _ _ ha hs hstep => hs.effect (Rows.of_reachable ha).1 (step_effect hstep))

/-- A request that is not in the table before a step, or not admitted. -/
theorem Effect.fresh (he : Effect setup s l s') {x : Nat} {e' : HttpExchange} {trace' : Trace}
    (hx' : s'.exchanges[x]? = some e') (htrace' : e'.trace = some trace')
    (hnew : ∀ e trace, s.exchanges[x]? = some e → e.trace ≠ some trace) :
    trace'.attempts = [] ∧ trace'.received = s.runtime.audit.writes.length := by
  have hset : ∀ {y : Nat} {e b : HttpExchange} {trace : Trace}, s.exchanges[y]? = some e →
      e.trace = some trace → (s.exchanges.set y b)[x]? = some e' → False := by
    intro y e b trace hy htrace hget
    rcases Table.getElem?_set_cases hget with ⟨rfl, rfl⟩ | ⟨_, hin⟩
    · exact hnew e trace hy htrace
    · exact hnew e' trace' hin htrace'
  have hnone : ∀ {y : Nat} {b : HttpExchange}, b.trace = none →
      (s.exchanges.set y b)[x]? = some e' → False := by
    intro y b hb hget
    rcases Table.getElem?_set_cases hget with ⟨rfl, rfl⟩ | ⟨_, hin⟩
    · exact absurd (hb.symm.trans htrace') (by simp)
    · exact hnew e' trace' hin htrace'
  cases he with
  | counted | closing | runtime => exact absurd htrace' (hnew e' trace' hx')
  | listened request endpoint hbound =>
      rcases Table.getElem?_append_cases hx' with hin | ⟨_, rfl⟩
      · exact absurd htrace' (hnew e' trace' hin)
      · exact absurd htrace' (by simp [HttpExchange.trace])
  | refused y e response reason counters hy hphase => exact (hnone rfl hx').elim
  | admitted y e principal uuid hy hphase =>
      rcases Table.getElem?_set_cases hx' with ⟨rfl, rfl⟩ | ⟨_, hin⟩
      · obtain rfl := Option.some.inj htrace'
        exact ⟨rfl, rfl⟩
      · exact absurd htrace' (hnew e' trace' hin)
  | untraced y e response hy hnotrace =>
      have hsame : ({ e with response } : HttpExchange).trace = none := hnotrace
      exact (hnone hsame hx').elim
  | moved y e trace new response hy htrace | responding y e trace status hy htrace
  | attempted y e trace hy htrace | released y e trace write hy htrace
  | invoked y e trace call runtime hy htrace | observed y e trace event hy htrace =>
      exact (hset hy htrace hx').elim

end HttpServer

end SecureMcp
