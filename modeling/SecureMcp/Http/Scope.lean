import SecureMcp.Http.Lifecycle

set_option autoImplicit false

/-! # The audit scope of a request

Every write has an origin: one of the three threads of a request, what the handler does in the scope
of the request, or other code, which runs in no scope. So the `received` record is the first write of
its scope and the only one of its kind, and the terminal record is the last. -/

namespace SecureMcp

variable {δ : Type}

namespace HttpServer

variable {setup : HttpSetup} {s s' : HttpServer δ} {l : Label δ}

/-! ## What a request keeps -/

/-- The step makes the terminal record of this request. -/
def Attempts (s s' : HttpServer δ) (x : Nat) (e : HttpExchange) (trace trace' : Trace) : Prop :=
  Ready trace ∧ s.unsettled x = [] ∧ trace'.attempts = trace.attempts ++ [s.nextWrite] ∧
    s'.runtime = (s.write (s.traceEvent trace trace.terminal e.response.statusCode) none).runtime

structure Persists (s s' : HttpServer δ) (x : Nat) (e : HttpExchange) (trace trace' : Trace) :
    Prop where
  received : trace'.received = trace.received
  event : trace'.event = trace.event
  invocations : ∀ j ∈ trace.invocations, j ∈ trace'.invocations
  responses : ∀ write ∈ trace.responses, write ∈ trace'.responses
  observed : ∀ write ∈ trace.observed, write ∈ trace'.observed
  attempts : trace'.attempts = trace.attempts ∨ Attempts s s' x e trace trace'
  /-- No step moves `terminal` and makes another record as well. -/
  ending : trace'.ending = trace.ending ∨ s'.runtime = s.runtime ∨ Attempts s s' x e trace trace'

theorem Persists.refl (x : Nat) (e : HttpExchange) (trace : Trace) :
    Persists s s' x e trace trace :=
  ⟨rfl, rfl, fun _ hj => hj, fun _ hw => hw, fun _ hw => hw, Or.inl rfl, Or.inl rfl⟩

theorem Moves.persists {x : Nat} {e : HttpExchange} {trace trace' : Trace} {response : HttpResponse}
    (h : Moves s e trace response trace') (hruntime : s'.runtime = s.runtime) :
    Persists s s' x e trace trace' := by
  cases h <;>
    exact ⟨rfl, rfl, fun _ hj => hj, fun _ hw => hw, fun _ hw => hw, Or.inl rfl,
      Or.inr (Or.inl hruntime)⟩

/-- An admitted request stays one, and keeps what belongs to its records. -/
theorem Effect.persists (he : Effect setup s l s') {y : Nat} {b : HttpExchange} {trace : Trace}
    (hy : s.exchanges[y]? = some b) (htrace : b.trace = some trace) :
    ∃ b' trace', s'.exchanges[y]? = some b' ∧ b'.trace = some trace' ∧
      Persists s s' y b trace trace' := by
  have hset : ∀ {x : Nat} {e e' : HttpExchange}, s.exchanges[x]? = some e →
      (∀ old, e.trace = some old → ∃ new, e'.trace = some new ∧ Persists s s' x e old new) →
      ∃ b' trace', (s.exchanges.set x e')[y]? = some b' ∧ b'.trace = some trace' ∧
        Persists s s' y b trace trace' := by
    intro x e e' hx hnew
    by_cases hyx : y = x
    · subst hyx
      obtain rfl := Option.some.inj (hx.symm.trans hy)
      obtain ⟨new, hnew, hpersists⟩ := hnew trace htrace
      exact ⟨e', new, Table.getElem?_set_of_some hx, hnew, hpersists⟩
    · exact ⟨b, trace, by rw [Table.getElem?_set_of_ne hyx]; exact hy, htrace, .refl y b trace⟩
  have hthread : ∀ {x : Nat} {e e' : HttpExchange} {old new : Trace}, s.exchanges[x]? = some e →
      e.trace = some old → e'.trace = some new → Persists s s' x e old new →
      ∃ b' trace', (s.exchanges.set x e')[y]? = some b' ∧ b'.trace = some trace' ∧
        Persists s s' y b trace trace' := by
    intro x e e' old new hx hold hnew hpersists
    refine hset hx (fun other hother => ⟨new, hnew, ?_⟩)
    obtain rfl := Option.some.inj (hold.symm.trans hother)
    exact hpersists
  cases he with
  | counted | closing | runtime => exact ⟨b, trace, hy, htrace, .refl y b trace⟩
  | listened => exact ⟨b, trace, Table.getElem?_append_of_some hy, htrace, .refl y b trace⟩
  | refused x e response reason counters hx hphase =>
      exact hset hx (fun old hold => absurd hold (by simp [trace_of_verifying hphase]))
  | admitted x e principal uuid hx hphase =>
      exact hset hx (fun old hold => absurd hold (by simp [trace_of_verifying hphase]))
  | untraced x e response hx hnone =>
      exact hset hx (fun old hold => absurd hold (by simp [hnone]))
  | moved x e old new response hx hold hmoves => exact hthread hx hold rfl (hmoves.persists rfl)
  | responding x e old status hx hold =>
      exact hthread hx hold rfl ⟨rfl, rfl, fun _ hj => hj, fun _ => List.mem_append_left _,
        fun _ hw => hw, Or.inl rfl, Or.inl rfl⟩
  | attempted x e old hx hold hready hsettled =>
      refine hthread hx hold rfl ⟨rfl, rfl, fun _ hj => hj, fun _ hw => hw, fun _ hw => hw,
        Or.inr ?_, Or.inr (Or.inr ?_)⟩
      · exact ⟨hready, hsettled, rfl, rfl⟩
      · exact ⟨hready, hsettled, rfl, rfl⟩
  | released x e old write hx hold =>
      exact hthread hx hold rfl ⟨rfl, rfl, fun _ hj => hj, fun _ hw => hw, fun _ hw => hw,
        Or.inl rfl, Or.inr (Or.inl rfl)⟩
  | invoked x e old call runtime hx hold =>
      exact hthread hx hold rfl ⟨rfl, rfl, fun _ => List.mem_append_left _, fun _ hw => hw,
        fun _ hw => hw, Or.inl rfl, Or.inl rfl⟩
  | observed x e old event hx hold =>
      exact hthread hx hold rfl ⟨rfl, rfl, fun _ hj => hj, fun _ hw => hw,
        fun _ => List.mem_append_left _, Or.inl rfl, Or.inl rfl⟩

/-! ## Where a write comes from -/

/-- Who has just handed this write to the dispatcher. -/
inductive Origin (s' : HttpServer δ) (l : Label δ) (write : Nat) (w : Write AuditEvent) : Prop
  | received (x : Nat) (e : HttpExchange) (trace : Trace) (hx : s'.exchanges[x]? = some e)
      (htrace : e.trace = some trace) (hscope : w.scope = some x) (hwrite : write = trace.received)
      (hdelivery : trace.delivery = .receiving write)
  | response (x : Nat) (e : HttpExchange) (trace : Trace) (status : Nat)
      (hx : s'.exchanges[x]? = some e) (htrace : e.trace = some trace) (hscope : w.scope = some x)
      (hwrite : write ∈ trace.responses) (hfetch : trace.fetch = .recording write status)
      (houtcome : w.event.outcome = .response)
  | observed (x : Nat) (e : HttpExchange) (trace : Trace) (hx : s'.exchanges[x]? = some e)
      (htrace : e.trace = some trace) (hscope : w.scope = some x) (hwrite : write ∈ trace.observed)
      (hkind : w.event.kind = some .protocol)
  | terminal (x : Nat) (e : HttpExchange) (trace : Trace) (hx : s'.exchanges[x]? = some e)
      (htrace : e.trace = some trace) (hscope : w.scope = none) (hwrite : write ∈ trace.attempts)
      (hending : trace.ending = .writing write)
  | call (hrecords : s'.runtime.Records write w)
  | other (hscope : w.scope = none) (hlabel : ∃ event, l = .runtime (.audit (.write event none)))

/-- A new row of the dispatcher is the one that this write made. -/
theorem write_new {event : AuditEvent} {scope : Option Nat} {write : Nat} {w : Write AuditEvent}
    (hw : (s.write event scope).runtime.audit.writes[write]? = some w)
    (hnew : s.runtime.audit.writes[write]? = none) :
    write = s.nextWrite ∧ w.event = event ∧ w.scope = scope := by
  obtain ⟨w', hwrites, _, hevent, hscope⟩ := write_last s event scope
  rw [hwrites] at hw
  rcases Table.getElem?_append_cases hw with hold | ⟨hlast, rfl⟩
  · exact absurd (hnew.symm.trans hold) (by simp)
  · exact ⟨hlast, hevent, hscope⟩

theorem Effect.origin (he : Effect setup s l s') {write : Nat} {w : Write AuditEvent}
    (hw : s'.runtime.audit.writes[write]? = some w)
    (hnew : s.runtime.audit.writes[write]? = none) :
    write = s.runtime.audit.writes.length ∧ Origin s' l write w := by
  have hsame : s'.runtime.audit.writes = s.runtime.audit.writes → False := by
    intro heq
    rw [heq, hnew] at hw
    exact absurd hw (by simp)
  cases he with
  | admitted x e principal uuid hx hphase =>
      obtain ⟨rfl, hevent, hscope⟩ := write_new hw hnew
      exact ⟨rfl, .received x _ _ (Table.getElem?_set_of_some hx) rfl hscope rfl rfl⟩
  | responding x e trace status hx htrace =>
      obtain ⟨rfl, hevent, hscope⟩ := write_new hw hnew
      exact ⟨rfl, .response x _ _ status (Table.getElem?_set_of_some hx) rfl hscope (by simp) rfl
        (by rw [hevent]; rfl)⟩
  | attempted x e trace hx htrace =>
      obtain ⟨rfl, hevent, hscope⟩ := write_new hw hnew
      exact ⟨rfl, .terminal x _ _ (Table.getElem?_set_of_some hx) rfl hscope (by simp) rfl⟩
  | observed x e trace event hx htrace hdispatched hkind =>
      obtain ⟨rfl, hevent, hscope⟩ := write_new hw hnew
      exact ⟨rfl, .observed x _ _ (Table.getElem?_set_of_some hx) rfl hscope (by simp)
        (by rw [hevent]; exact hkind)⟩
  | invoked x e trace call runtime hx htrace hdispatched hscope hstep =>
      obtain ⟨hlast, hlabel | hrecords⟩ := (SecureRuntime.step_effect hstep).newWrite hw hnew
      · exact absurd hlabel (by simp)
      · exact ⟨hlast, .call hrecords⟩
  | closing runtime closing shutdown hruntime =>
      rcases hruntime with rfl | ⟨label, hlabel, hstep⟩
      · exact absurd rfl hsame
      · obtain ⟨hlast, hwritten | hrecords⟩ := (SecureRuntime.step_effect hstep).newWrite hw hnew
        · rcases hlabel with rfl | rfl <;> exact absurd hwritten (by simp)
        · exact ⟨hlast, .call hrecords⟩
  | runtime label runtime hlabel hforeign hstep =>
      obtain ⟨hlast, hwritten | hrecords⟩ := (SecureRuntime.step_effect hstep).newWrite hw hnew
      · subst hwritten
        have hscope : w.scope = none := by simpa [isForeign] using hforeign
        exact ⟨hlast, .other hscope ⟨w.event, by rw [hlabel, hscope]⟩⟩
      · exact ⟨hlast, .call hrecords⟩
  | _ => exact absurd rfl hsame

/-! ## Scopes -/

structure Scoped (s : HttpServer δ) : Prop where
  /-- A call in a scope is one the handler of that request made. -/
  calls : ∀ (j : Nat) inv x, s.runtime.invocations[j]? = some inv → inv.call.scope = some x →
    ∃ e trace, s.exchanges[x]? = some e ∧ e.trace = some trace ∧ j ∈ trace.invocations
  /-- The `received` record is the first write of its scope and the only one of its kind. -/
  writes : ∀ (i : Nat) w x, s.runtime.audit.writes[i]? = some w → w.scope = some x →
    ∃ e trace, s.exchanges[x]? = some e ∧ e.trace = some trace ∧ trace.received ≤ i ∧
      (w.event.kind = some .http → w.event.outcome = .received → i = trace.received)

/-- A new call in a scope is made by the handler of that request. -/
theorem Effect.call_scope (he : Effect setup s l s') {j x : Nat} {inv : Invocation δ}
    (hj : s'.runtime.invocations[j]? = some inv) (hscope : inv.call.scope = some x) :
    (∃ old, s.runtime.invocations[j]? = some old ∧ old.call = inv.call) ∨
      ∃ e trace, s'.exchanges[x]? = some e ∧ e.trace = some trace ∧ j ∈ trace.invocations := by
  have hrange : j < s'.runtime.invocations.length := Table.lt_of_getElem? hj
  cases he with
  | invoked y e trace call runtime hx htrace hdispatched hcall hstep =>
      rcases (SecureRuntime.step_effect hstep).call_origin hj with hold | ⟨hlabel, hnone⟩
      · exact Or.inl hold
      · obtain rfl := SecureRuntime.Label.invoke.inj hlabel
        obtain rfl := Option.some.inj (hcall.symm.trans hscope)
        have hlast : j = s.runtime.invocations.length := by
          rw [List.getElem?_eq_none_iff] at hnone
          have hlength := SecureRuntime.invoke_length hstep
          simp only [setExchange] at hrange
          omega
        subst hlast
        exact Or.inr ⟨_, _, Table.getElem?_set_of_some hx, rfl, by simp⟩
  | closing runtime closing shutdown hruntime =>
      rcases hruntime with rfl | ⟨label, hlabel, hstep⟩
      · exact Or.inl ⟨inv, hj, rfl⟩
      · rcases (SecureRuntime.step_effect hstep).call_origin hj with hold | ⟨hinvoke, _⟩
        · exact Or.inl hold
        · rcases hlabel with rfl | rfl <;> exact absurd hinvoke (by simp)
  | runtime label runtime hlabel hforeign hstep =>
      rcases (SecureRuntime.step_effect hstep).call_origin hj with hold | ⟨rfl, _⟩
      · exact Or.inl hold
      · -- other code runs in no scope
        rw [isForeign, hscope] at hforeign
        exact absurd hforeign (by simp)
  | _ => exact Or.inl ⟨inv, hj, rfl⟩

/-- A step makes at most one write. -/
theorem Effect.writes_length (he : Effect setup s l s') :
    s'.runtime.audit.writes.length ≤ s.runtime.audit.writes.length + 1 := by
  by_contra hmore
  have hnext : s.runtime.audit.writes.length + 1 < s'.runtime.audit.writes.length := by omega
  obtain ⟨hlast, _⟩ := he.origin (List.getElem?_eq_getElem hnext)
    (List.getElem?_eq_none_iff.mpr (by omega))
  omega

theorem Scoped.effect (h : Scoped s) (hrows : Rows s') (he : Effect setup s l s') : Scoped s' := by
  have hcalls : ∀ (j : Nat) inv x, s'.runtime.invocations[j]? = some inv →
      inv.call.scope = some x →
      ∃ e trace, s'.exchanges[x]? = some e ∧ e.trace = some trace ∧ j ∈ trace.invocations := by
    intro j inv x hj hscope
    rcases he.call_scope hj hscope with ⟨old, hold, hcall⟩ | hnew
    · obtain ⟨e, trace, hx, htrace, hmem⟩ := h.calls j old x hold (by rw [hcall]; exact hscope)
      obtain ⟨e', trace', hx', htrace', hpersists⟩ := he.persists hx htrace
      exact ⟨e', trace', hx', htrace', hpersists.invocations j hmem⟩
    · exact hnew
  refine ⟨hcalls, fun i w x hw hscope => ?_⟩
  cases hold : s.runtime.audit.writes[i]? with
  | some w0 =>
      obtain ⟨w1, hw1, hev⟩ := he.writesKept i w0 hold
      obtain rfl := Option.some.inj (hw1.symm.trans hw)
      obtain ⟨e, trace, hx, htrace, hle, honly⟩ :=
        h.writes i w0 x hold (by rw [← hev.scope]; exact hscope)
      obtain ⟨e', trace', hx', htrace', hpersists⟩ := he.persists hx htrace
      refine ⟨e', trace', hx', htrace', by rw [hpersists.received]; exact hle, ?_⟩
      rw [hev.event, hpersists.received]
      exact honly
  | none =>
      obtain ⟨hlast, horigin⟩ := he.origin hw hold
      have hafter : ∀ (y : Nat) (e : HttpExchange) (trace : Trace), s'.exchanges[y]? = some e →
          e.trace = some trace →
          trace.received ≤ i := by
        intro y e trace hy htrace
        have hlt := (hrows y e trace hy htrace).received_lt
        have hlength := he.writes_length
        omega
      cases horigin with
      | received y e trace hy htrace hsame hwrite =>
          obtain rfl := Option.some.inj (hsame.symm.trans hscope)
          exact ⟨e, trace, hy, htrace, hafter y e trace hy htrace, fun _ _ => hwrite⟩
      | response y e trace status hy htrace hsame hwrite hfetch houtcome =>
          obtain rfl := Option.some.inj (hsame.symm.trans hscope)
          refine ⟨e, trace, hy, htrace, hafter y e trace hy htrace, fun _ hreceived => ?_⟩
          rw [houtcome] at hreceived
          exact absurd hreceived (by simp)
      | observed y e trace hy htrace hsame hwrite hkind =>
          obtain rfl := Option.some.inj (hsame.symm.trans hscope)
          refine ⟨e, trace, hy, htrace, hafter y e trace hy htrace, fun hhttp _ => ?_⟩
          rw [hkind] at hhttp
          exact absurd hhttp (by simp)
      | terminal y e trace hy htrace hnone => exact absurd (hnone.symm.trans hscope) (by simp)
      | call hrecords =>
          obtain ⟨j, inv, outcome, clock, hj, hsame, hevent, _⟩ := hrecords
          obtain ⟨e, trace, hx, htrace, _⟩ := hcalls j inv x hj (hsame.symm.trans hscope)
          refine ⟨e, trace, hx, htrace, hafter x e trace hx htrace, fun hhttp _ => ?_⟩
          rw [hevent] at hhttp
          exact absurd hhttp (by simp [recordEvent])
      | other hnone => exact absurd (hnone.symm.trans hscope) (by simp)

theorem Scoped.of_reachable (h : (machine setup δ).Reachable s) : Scoped s :=
  h.invariant (I := Scoped) ⟨by simp [machine, SecureRuntime.machine],
    by simp [machine, SecureRuntime.machine]⟩
    (fun _ _ _ ha hs hstep => hs.effect (Rows.of_reachable (ha.snoc hstep)).1 (step_effect hstep))

end HttpServer

end SecureMcp
