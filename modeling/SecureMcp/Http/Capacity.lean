import SecureMcp.Http.Pending

set_option autoImplicit false

/-! # Admission never exhausts the audit capacity

Under the assumptions of `assumed` each pending sink write is in a slot of a request that holds one
of the `requestCapacity` places, and no request has more than three slots. So a write finds room: the
only way to lose a record is a sink that fails. -/

namespace SecureMcp

variable {δ : Type}

namespace HttpServer

variable {setup : HttpSetup} {s s' : HttpServer δ} {l : Label δ} {r r' : SecureRuntime δ} {x : Nat}
  {e : HttpExchange} {trace trace' : Trace}

/-! ## To whom a write belongs -/

theorem Owns.kept {i : Nat} {w w' : Write AuditEvent} (h : Owns s.runtime x trace i w)
    (hp : Persists s s' x e trace trace')
    (hgrows : ∀ (j : Nat) inv, s.runtime.invocations[j]? = some inv →
      ∃ inv', s'.runtime.invocations[j]? = some inv' ∧ SecureRuntime.Grows inv inv')
    (hev : w.Evolves w') : Owns s'.runtime x trace' i w' := by
  rcases h with ⟨hscope, hkind⟩ | ⟨hscope, hmem⟩
  · refine Or.inl ⟨hev.scope.trans hscope, ?_⟩
    rcases hkind with rfl | hresponse | hobserved | ⟨j, hj, inv, hinv, hrecord⟩
    · exact Or.inl hp.received.symm
    · exact Or.inr (Or.inl (hp.responses i hresponse))
    · exact Or.inr (Or.inr (Or.inl (hp.observed i hobserved)))
    · obtain ⟨inv', hinv', hgrown⟩ := hgrows j inv hinv
      exact Or.inr (Or.inr (Or.inr
        ⟨j, hp.invocations j hj, inv', hinv', hgrown.records i hrecord⟩))
  · refine Or.inr ⟨hev.scope.trans hscope, ?_⟩
    rcases hp.attempts with hsame | ⟨_, _, happend, _⟩
    · rw [hsame]
      exact hmem
    · rw [happend]
      exact List.mem_append_left _ hmem

/-- Every call and every write is one of an admitted request. -/
structure Belonging (s : HttpServer δ) : Prop where
  calls : ∀ (j : Nat) inv, s.runtime.invocations[j]? = some inv →
    ∃ x, inv.call.scope = some x
  writes : ∀ (i : Nat) w, s.runtime.audit.writes[i]? = some w →
    ∃ (x : Nat) (e : HttpExchange) (trace : Trace), s.exchanges[x]? = some e ∧
      e.trace = some trace ∧ Owns s.runtime x trace i w

theorem Effect.calls_scoped (he : Effect setup s l s') (hrequest : ofRequest l = true)
    (h : ∀ (j : Nat) inv, s.runtime.invocations[j]? = some inv → ∃ x, inv.call.scope = some x)
    (j : Nat) (inv : Invocation δ) (hj : s'.runtime.invocations[j]? = some inv) :
    ∃ x, inv.call.scope = some x := by
  have hkept : (∃ old, s.runtime.invocations[j]? = some old ∧ old.call = inv.call) →
      ∃ x, inv.call.scope = some x := by
    rintro ⟨old, hold, hcall⟩
    obtain ⟨x, hx⟩ := h j old hold
    exact ⟨x, by rw [← hcall]; exact hx⟩
  cases he with
  | invoked y e trace call runtime hx htrace hdispatched hscope hstep =>
      rcases (SecureRuntime.step_effect hstep).call_origin hj with hold | ⟨hlabel, _⟩
      · exact hkept hold
      · obtain rfl := SecureRuntime.Label.invoke.inj hlabel
        exact ⟨y, hscope⟩
  | closing runtime closing shutdown hruntime =>
      rcases hruntime with rfl | ⟨label, hlabel, hstep⟩
      · exact h j inv hj
      · rcases (SecureRuntime.step_effect hstep).call_origin hj with hold | ⟨hinvoke, _⟩
        · exact hkept hold
        · rcases hlabel with rfl | rfl <;> exact absurd hinvoke (by simp)
  | runtime label runtime hlabel hforeign hstep =>
      rcases (SecureRuntime.step_effect hstep).call_origin hj with hold | ⟨hinvoke, _⟩
      · exact hkept hold
      · rw [hlabel, hinvoke] at hrequest
        exact absurd hrequest (by simp [ofRequest])
  | _ => exact h j inv hj

theorem Belonging.effect (h : Belonging s) (hscoped : Scoped s') (hrequest : ofRequest l = true)
    (he : Effect setup s l s') : Belonging s' := by
  have hcalls := he.calls_scoped hrequest h.calls
  refine ⟨hcalls, fun i w hw => ?_⟩
  cases hold : s.runtime.audit.writes[i]? with
  | some w0 =>
      obtain ⟨w1, hw1, hev⟩ := he.writesKept i w0 hold
      obtain rfl := Option.some.inj (hw1.symm.trans hw)
      obtain ⟨x, e, trace, hx, htrace, howns⟩ := h.writes i w0 hold
      obtain ⟨e', trace', hx', htrace', hp⟩ := he.persists hx htrace
      exact ⟨x, e', trace', hx', htrace',
        howns.kept hp (fun j inv => SecureRuntime.grows_of_leads he.runtime_leads) hev⟩
  | none =>
      obtain ⟨_, horigin⟩ := he.origin hw hold
      cases horigin with
      | received y e trace hy htrace hscope hwrite =>
          exact ⟨y, e, trace, hy, htrace, Or.inl ⟨hscope, Or.inl hwrite⟩⟩
      | response y e trace status hy htrace hscope hwrite =>
          exact ⟨y, e, trace, hy, htrace, Or.inl ⟨hscope, Or.inr (Or.inl hwrite)⟩⟩
      | observed y e trace hy htrace hscope hwrite =>
          exact ⟨y, e, trace, hy, htrace, Or.inl ⟨hscope, Or.inr (Or.inr (Or.inl hwrite))⟩⟩
      | terminal y e trace hy htrace hscope hwrite =>
          exact ⟨y, e, trace, hy, htrace, Or.inr ⟨hscope, hwrite⟩⟩
      | call hrecords =>
          obtain ⟨j, inv, outcome, clock, hj, hscope, _, hrecord, _⟩ := hrecords
          obtain ⟨y, hy⟩ := hcalls j inv hj
          obtain ⟨e, trace, hx, htrace, hmem⟩ := hscoped.calls j inv y hj hy
          exact ⟨y, e, trace, hx, htrace, Or.inl ⟨hscope.trans hy,
            Or.inr (Or.inr (Or.inr ⟨j, hmem, inv, hj, hrecord⟩))⟩⟩
      | other _ hlabel =>
          obtain ⟨event, rfl⟩ := hlabel
          exact absurd hrequest (by simp [ofRequest])

theorem Belonging.of_reachableIn
    (h : (machine setup δ).ReachableIn (fun s l => s.assumed setup l = true) s) : Belonging s := by
  refine h.invariant (I := Belonging)
    ⟨by simp [machine, SecureRuntime.machine], by simp [machine, SecureRuntime.machine]⟩ ?_
  intro a l b ha hbelonging hok hstep
  have hrequest : ofRequest l = true := by
    simp only [assumed, Bool.and_eq_true] at hok
    exact hok.1.1
  exact hbelonging.effect (Scoped.of_reachable (ha.snoc hok hstep).reachable) hrequest
    (step_effect hstep)

/-! ## Every unsettled write is in a slot -/

/-- The slots of a request that has not made its terminal record and was received. -/
theorem slots_open (hlate : ¬ trace.Late) (hdelivery : ∀ write, trace.delivery ≠ .receiving write) :
    slots r trace =
      trace.invocations.flatMap r.awaited ++ trace.observed ++ trace.fetch.awaits.toList := by
  unfold slots
  split
  · next write hending => exact absurd (Or.inr ⟨write, hending⟩) hlate
  · next write hreceiving _ => exact absurd hreceiving (hdelivery write)
  · rfl

theorem slots_writing {write : Nat} (h : trace.ending = .writing write) :
    slots r trace = [write] := by
  simp [slots, h]

theorem slots_receiving {write : Nat} (hlate : ¬ trace.Late)
    (h : trace.delivery = .receiving write) : slots r trace = [write] := by
  unfold slots
  split
  · next other hending => exact absurd (Or.inr ⟨other, hending⟩) hlate
  · next other hreceiving _ =>
      rw [DeliveryPhase.receiving.inj (hreceiving.symm.trans h)]
  · next _ hother => exact absurd h (hother write)

theorem mem_slots_response {write status : Nat} (hl : Lifecycle r x e trace) (hlate : ¬ trace.Late)
    (hfetch : trace.fetch = .recording write status) : write ∈ slots r trace := by
  rw [slots_open hlate (fun other hreceiving => ?_)]
  · simp [hfetch, FetchPhase.awaits]
  · exact absurd (hfetch.symm.trans (hl.receiving other hreceiving).2.1) (by simp)

theorem mem_slots_observed {write : Nat} (h : Occupied r x trace) (hl : Lifecycle r x e trace)
    (hlate : ¬ trace.Late) (hobserved : write ∈ trace.observed) : write ∈ slots r trace := by
  rw [slots_open hlate (fun other hreceiving => ?_)]
  · simp [hobserved]
  · simp [(h.idle (hl.receiving other hreceiving).2.2).2] at hobserved

theorem mem_slots_call {write j : Nat} {inv : Invocation δ} (h : Occupied r x trace)
    (hl : Lifecycle r x e trace) (hlate : ¬ trace.Late) (hj : j ∈ trace.invocations)
    (hinv : r.invocations[j]? = some inv) (hawaits : inv.Awaits write) :
    write ∈ slots r trace := by
  rw [slots_open hlate (fun other hreceiving => ?_)]
  · have hmem : write ∈ r.awaited j := by
      rw [SecureRuntime.awaited, hinv]
      rcases hawaits with hop | hcaller
      · simp [hop]
      · simp [hcaller]
    simp only [List.mem_append, List.mem_flatMap]
    exact Or.inl (Or.inl ⟨j, hj, hmem⟩)
  · simp [(h.idle (hl.receiving other hreceiving).2.2).1] at hj

/-- A write of this request that has not settled is in one of its slots, which it still holds. -/
theorem Owns.mem_slots {i : Nat} {w : Write AuditEvent} (h : Owns r x trace i w)
    (ho : Occupied r x trace) (hl : Lifecycle r x e trace)
    (hcalls : ∀ (j : Nat) inv, r.invocations[j]? = some inv → r.RecordsAwaited inv)
    (hw : r.audit.writes[i]? = some w) (hunsettled : w.delivery.settled = false) :
    trace.ending ≠ .done ∧ i ∈ slots r trace := by
  have hnot : ¬ r.Settled i := by
    rintro ⟨w', hw', hsettled⟩
    obtain rfl := Option.some.inj (hw.symm.trans hw')
    exact absurd (hunsettled.symm.trans hsettled) (by simp)
  rcases h with ⟨hscope, hkind⟩ | ⟨hscope, hmem⟩
  · have hlate : ¬ trace.Late := by
      intro hlate
      exact absurd (hunsettled.symm.trans (ho.drained hlate i w hw hscope)) (by simp)
    refine ⟨fun hdone => hlate (Or.inl hdone), ?_⟩
    rcases hkind with rfl | hresponse | hobserved | ⟨j, hj, inv, hinv, hrecord⟩
    · rcases ho.received with hreceiving | hsettled
      · simp [slots_receiving hlate hreceiving]
      · exact absurd hsettled hnot
    · rcases ho.responses i hresponse with hsettled | ⟨status, hfetch⟩
      · exact absurd hsettled hnot
      · exact mem_slots_response hl hlate hfetch
    · exact mem_slots_observed ho hl hlate hobserved
    · rcases hcalls j inv hinv i hrecord with hsettled | hawaits
      · exact absurd hsettled hnot
      · exact mem_slots_call ho hl hlate hj hinv hawaits
  · have hending := hl.ending
    unfold Ending at hending
    cases hphase : trace.ending with
    | awaitingClose =>
        simp only [hphase] at hending
        simp [hending] at hmem
    | awaitingDelivery | settling snapshot =>
        simp only [hphase] at hending
        simp [hending.1] at hmem
    | writing write =>
        simp only [hphase] at hending
        rw [hending.1, List.mem_singleton] at hmem
        exact ⟨by simp, by rw [slots_writing hphase, hmem]; exact List.mem_singleton_self _⟩
    | done =>
        simp only [hphase] at hending
        obtain ⟨_, _, write, hattempts, _, hsettled, _⟩ := hending
        rw [hattempts, List.mem_singleton] at hmem
        exact absurd (hmem ▸ hsettled) hnot

/-! ## A new write is in a slot -/

theorem Effect.audit (he : Effect setup s l s') :
    s'.runtime.audit = s.runtime.audit ∨
      ∃ l', s.runtime.audit.step l' = some s'.runtime.audit := by
  cases he with
  | admitted | responding | attempted | observed => exact Or.inr ⟨.write _ _, rfl⟩
  | invoked x e trace call runtime hx htrace hdispatched hscope hstep =>
      exact (SecureRuntime.step_effect hstep).audit
  | closing runtime closing shutdown hruntime =>
      rcases hruntime with rfl | ⟨label, _, hstep⟩
      · exact Or.inl rfl
      · exact (SecureRuntime.step_effect hstep).audit
  | runtime label runtime hlabel hforeign hstep => exact (SecureRuntime.step_effect hstep).audit
  | _ => exact Or.inl rfl

/-- A request that was not admitted before the step has not made its terminal record. -/
theorem Effect.unstarted (he : Effect setup s l s') {e' : HttpExchange}
    (hx' : s'.exchanges[x]? = some e') (htrace' : e'.trace = some trace')
    (hnone : ∀ (e : HttpExchange) (trace : Trace), s.exchanges[x]? = some e →
      e.trace ≠ some trace) : ¬ trace'.Late := by
  have hset : ∀ {y : Nat} {b : HttpExchange},
      (∀ trace, b.trace = some trace → ¬ trace.Late ∨
        ∃ e old, s.exchanges[y]? = some e ∧ e.trace = some old) →
      (s.exchanges.set y b)[x]? = some e' → ¬ trace'.Late := by
    intro y b hb hget
    rcases Table.getElem?_set_cases hget with ⟨rfl, rfl⟩ | ⟨_, hold⟩
    · rcases hb trace' htrace' with hearly | ⟨e, old, hx, htrace⟩
      · exact hearly
      · exact absurd htrace (hnone e old hx)
    · exact absurd htrace' (hnone e' trace' hold)
  cases he with
  | counted | closing | runtime => exact absurd htrace' (hnone e' trace' hx')
  | listened request endpoint =>
      rcases Table.getElem?_append_cases hx' with hold | ⟨_, rfl⟩
      · exact absurd htrace' (hnone e' trace' hold)
      · exact absurd htrace' (by simp [HttpExchange.trace])
  | refused y e response reason counters hy hphase =>
      exact hset (fun trace htrace => absurd htrace (by simp [HttpExchange.trace])) hx'
  | untraced y e response hy hno =>
      refine hset (b := { e with response }) (fun trace htrace => ?_) hx'
      exact absurd (hno.symm.trans htrace) (by simp)
  | admitted y e principal uuid hy hphase =>
      refine hset (fun trace htrace => Or.inl ?_) hx'
      obtain rfl := Option.some.inj htrace
      simp [Trace.Late, newTrace]
  | moved y e old new response hy hold
  | responding y e old status hy hold | attempted y e old hy hold
  | released y e old write hy hold | invoked y e old call runtime hy hold
  | observed y e old event hy hold => exact hset (fun _ _ => Or.inr ⟨e, old, hy, hold⟩) hx'

/-- A request in whose scope a write starts has not made its terminal record. -/
theorem Occupants.not_late (h : Occupants s) (hrows : Rows s)
    (hnothing : s.startsNothing setup l = true) (hstep : s.step setup l = some s') {i : Nat}
    {w : Write AuditEvent} (hw : s'.runtime.audit.writes[i]? = some w)
    (hnew : s.runtime.audit.writes[i]? = none) (hscope : w.scope = some x) {e' : HttpExchange}
    (hx' : s'.exchanges[x]? = some e') (htrace' : e'.trace = some trace') : ¬ trace'.Late := by
  have he := step_effect hstep
  by_cases hstarted : ∃ e trace, s.exchanges[x]? = some e ∧ e.trace = some trace
  · obtain ⟨e, trace, hx, htrace⟩ := hstarted
    obtain ⟨b, new, hb, hbtrace, hp⟩ := he.persists hx htrace
    obtain rfl := Option.some.inj (hb.symm.trans hx')
    obtain rfl := Option.some.inj (hbtrace.symm.trans htrace')
    rcases hp.ending with hsame | hsame | ⟨_, _, _, hruntime⟩
    · intro hlate
      have hold : trace.Late := by
        rw [Trace.Late, ← hsame]
        exact hlate
      exact scope_of_startsNothing hnothing hstep hw hnew
        ((h x e trace hx htrace).isDrained (hrows x e trace hx htrace) hx htrace hold) hscope
    · rw [hsame, hnew] at hw
      exact absurd hw (by simp)
    · rw [hruntime] at hw
      have hnone := (write_new hw hnew).2.2
      exact absurd (hnone.symm.trans hscope) (by simp)
  · exact he.unstarted hx' htrace' (fun e trace hx htrace => hstarted ⟨e, trace, hx, htrace⟩)

/-- Accepted or not, a new write is in a slot of a request that holds its place. -/
theorem new_mem_slots (hassumed : s.assumed setup l = true) (hstep : s.step setup l = some s')
    (h : Occupants s) (hrows : Rows s) (h' : Occupants s') (hrows' : Rows s')
    (hscoped : Scoped s') (hbelonging : Belonging s') {i : Nat} {w : Write AuditEvent}
    (hw : s'.runtime.audit.writes[i]? = some w) (hnew : s.runtime.audit.writes[i]? = none) :
    ∃ (x : Nat) (e : HttpExchange) (trace : Trace), s'.exchanges[x]? = some e ∧
      e.trace = some trace ∧ trace.ending ≠ .done ∧ i ∈ slots s'.runtime trace := by
  simp only [assumed, Bool.and_eq_true] at hassumed
  obtain ⟨⟨hrequest, _⟩, hnothing⟩ := hassumed
  have hopen : ∀ {x : Nat} {e : HttpExchange} {trace : Trace}, w.scope = some x →
      s'.exchanges[x]? = some e → e.trace = some trace → ¬ trace.Late :=
    fun hscope hx htrace => h.not_late hrows hnothing hstep hw hnew hscope hx htrace
  cases ((step_effect hstep).origin hw hnew).2 with
  | received x e trace hx htrace hscope hwrite hdelivery =>
      have hlate := hopen hscope hx htrace
      refine ⟨x, e, trace, hx, htrace, fun hdone => hlate (Or.inl hdone), ?_⟩
      simp [slots_receiving hlate hdelivery]
  | response x e trace status hx htrace hscope hwrite hfetch =>
      have hlate := hopen hscope hx htrace
      exact ⟨x, e, trace, hx, htrace, fun hdone => hlate (Or.inl hdone),
        mem_slots_response (hrows' x e trace hx htrace) hlate hfetch⟩
  | observed x e trace hx htrace hscope hwrite =>
      have hlate := hopen hscope hx htrace
      exact ⟨x, e, trace, hx, htrace, fun hdone => hlate (Or.inl hdone),
        mem_slots_observed (h' x e trace hx htrace) (hrows' x e trace hx htrace) hlate hwrite⟩
  | terminal x e trace hx htrace hscope hwrite hending =>
      exact ⟨x, e, trace, hx, htrace, by simp [hending], by simp [slots_writing hending]⟩
  | call hrecords =>
      obtain ⟨j, inv, outcome, clock, hj, hscope, _, _, hawaits⟩ := hrecords
      obtain ⟨x, hcall⟩ := hbelonging.calls j inv hj
      obtain ⟨e, trace, hx, htrace, hmem⟩ := hscoped.calls j inv x hj hcall
      have hlate := hopen (hscope.trans hcall) hx htrace
      exact ⟨x, e, trace, hx, htrace, fun hdone => hlate (Or.inl hdone),
        mem_slots_call (h' x e trace hx htrace) (hrows' x e trace hx htrace) hlate hmem hj hawaits⟩
  | other _ hlabel =>
      obtain ⟨event, rfl⟩ := hlabel
      exact absurd hrequest (by simp [ofRequest])

/-! ## Counting slots -/

/-- The slots of a row, while it holds its place. -/
def heldBy (r : SecureRuntime δ) (e : HttpExchange) : List Nat :=
  match e.trace with
  | some trace => if trace.ending = .done then [] else slots r trace
  | none => []

theorem mem_heldBy {i : Nat} (htrace : e.trace = some trace) (hending : trace.ending ≠ .done)
    (hi : i ∈ slots r trace) : i ∈ heldBy r e := by
  simpa [heldBy, htrace, hending] using hi

/-- Distinct writes, each in a slot of a request that holds its place, are at most three for each
    place. -/
theorem Occupants.length_le (h : Occupants s) {ids : List Nat} (hnodup : ids.Nodup)
    (hheld : ∀ i ∈ ids, ∃ (x : Nat) (e : HttpExchange) (trace : Trace), s.exchanges[x]? = some e ∧
      e.trace = some trace ∧ trace.ending ≠ .done ∧ i ∈ slots s.runtime trace) :
    ids.length ≤ 3 * s.exchanges.countP HttpExchange.holds := by
  refine Table.length_le_of_held (f := heldBy s.runtime) hnodup (fun i hi => ?_) (fun e he => ?_)
  · obtain ⟨x, e, trace, hx, htrace, hending, hmem⟩ := hheld i hi
    exact ⟨e, List.mem_of_getElem? hx, mem_heldBy htrace hending hmem⟩
  · obtain ⟨x, hx⟩ := List.getElem?_of_mem he
    unfold heldBy HttpExchange.holds
    cases htrace : e.trace with
    | none => simp
    | some trace =>
        by_cases hdone : trace.ending = .done
        · simp [hdone]
        · simpa [hdone] using (h x e trace hx htrace).length_slots_le

/-- The pending writes of the state before a step are still in slots after it, and so is the write
    that the step makes: so before the step there was room for one more. -/
theorem room_of_write (h : (machine setup δ).ReachableIn (fun s l => s.assumed setup l = true) s)
    (hassumed : s.assumed setup l = true) (hstep : (machine setup δ).step s l = some s')
    (hhealthy : s.runtime.audit.healthy = true)
    (hwrites : s.runtime.audit.writes.length < s'.runtime.audit.writes.length) :
    s.runtime.audit.pending.length < setup.rt.config.maxPending := by
  have h' := h.snoc hassumed hstep
  have he := step_effect hstep
  have hoccupants := Occupants.of_reachableIn h'
  have hrows := (Rows.of_reachable h'.reachable).1
  have hbelonging := Belonging.of_reachableIn h'
  have hbooks := AuditDispatcher.Accounting.of_reachable
    (SecureRuntime.audit_reachable (runtime_reachable h.reachable))
  have hnew : s.runtime.audit.writes[s.nextWrite]? = none :=
    List.getElem?_eq_none_iff.mpr (Nat.le_refl _)
  -- a delivery that has not settled before the step has not settled after it
  have hkept : ∀ i ∈ s.runtime.audit.pending, ∃ w, s'.runtime.audit.writes[i]? = some w ∧
      w.delivery.settled = false := by
    intro i hi
    obtain ⟨w, hw, hunsettled⟩ := hbooks.unsettled hhealthy hi
    rcases he.audit with hsame | ⟨l', hl'⟩
    · exact ⟨w, by rw [hsame]; exact hw, hunsettled⟩
    · rcases AuditDispatcher.write_or_length hl' with ⟨event, scope, _, hwritten⟩ | hlength
      · obtain ⟨last, hrow, _⟩ := AuditDispatcher.write_row s.runtime.audit event scope
        refine ⟨w, ?_, hunsettled⟩
        rw [hwritten, hrow]
        exact Table.getElem?_append_of_some hw
      · omega
  have hheld : ∀ i ∈ s.runtime.audit.pending ++ [s.nextWrite],
      ∃ (x : Nat) (e : HttpExchange) (trace : Trace), s'.exchanges[x]? = some e ∧
        e.trace = some trace ∧ trace.ending ≠ .done ∧ i ∈ slots s'.runtime trace := by
    intro i hi
    rcases List.mem_append.mp hi with hpending | hlast
    · obtain ⟨w, hw, hunsettled⟩ := hkept i hpending
      obtain ⟨x, e, trace, hx, htrace, howns⟩ := hbelonging.writes i w hw
      obtain ⟨hending, hmem⟩ := howns.mem_slots (hoccupants x e trace hx htrace)
        (hrows x e trace hx htrace)
        (SecureRuntime.recordsAwaited_of_reachable (runtime_reachable h'.reachable)) hw hunsettled
      exact ⟨x, e, trace, hx, htrace, hending, hmem⟩
    · rw [List.mem_singleton.mp hlast]
      exact new_mem_slots hassumed hstep (Occupants.of_reachableIn h)
        (Rows.of_reachable h.reachable).1 hoccupants hrows (Scoped.of_reachable h'.reachable)
        hbelonging (List.getElem?_eq_getElem hwrites) hnew
  have hnodup : (s.runtime.audit.pending ++ [s.nextWrite]).Nodup := by
    rw [List.nodup_append]
    refine ⟨hbooks.slots.nodup, List.nodup_singleton _, ?_⟩
    rintro i hi j hj rfl
    rw [List.mem_singleton.mp hj] at hi
    exact absurd (hbooks.slots.lt hi) (Nat.lt_irrefl _)
  have htotal := hoccupants.length_le hnodup hheld
  have hcounters := Counters.of_reachable h'.reachable
  have hrequests := hcounters.requests_le
  rw [hcounters.requests] at hrequests
  have hcapacity : setup.requestCapacity ≤ setup.rt.config.maxPending / 3 := Nat.min_le_right _ _
  rw [List.length_append, List.length_singleton] at htotal
  omega

/-! ## Every run -/

/-- This write is in the scope of this request, or its terminal record. -/
def isOf (s : HttpServer δ) (x : Nat) (trace : Trace) (i : Nat) : Bool :=
  (s.runtime.audit.writes[i]?).any (fun w => w.scope == some x) || trace.attempts.contains i

theorem Owns.isOf {i : Nat} {w : Write AuditEvent} (h : Owns s.runtime x trace i w)
    (hw : s.runtime.audit.writes[i]? = some w) : s.isOf x trace i = true := by
  unfold HttpServer.isOf
  rcases h with ⟨hscope, _⟩ | ⟨_, hmem⟩
  · simp [hw, hscope]
  · simp [hmem]

/-- The terminal record runs in no scope. -/
theorem Lifecycle.attempts_scope (h : Lifecycle r x e trace) {i : Nat} {w : Write AuditEvent}
    (hmem : i ∈ trace.attempts) (hw : r.audit.writes[i]? = some w) : w.scope = none := by
  have hrecorded : ∀ write, trace.attempts = [write] →
      (∃ outcome status, Recorded r trace write none outcome status) → w.scope = none := by
    rintro write hone ⟨outcome, status, w', time, durationMs, hw', hscope, _⟩
    rw [hone, List.mem_singleton] at hmem
    subst hmem
    obtain rfl := Option.some.inj (hw.symm.trans hw')
    exact hscope
  have hending := h.ending
  unfold Ending at hending
  cases hphase : trace.ending with
  | awaitingClose =>
      simp only [hphase] at hending
      simp [hending] at hmem
  | awaitingDelivery | settling snapshot =>
      simp only [hphase] at hending
      simp [hending.1] at hmem
  | writing write =>
      simp only [hphase] at hending
      exact hrecorded write hending.1 hending.2.2.2.2
  | done =>
      simp only [hphase] at hending
      obtain ⟨_, _, write, hone, _, _, hrecord⟩ := hending
      exact hrecorded write hone hrecord

/-- The pending writes of one request are in its slots. -/
theorem pending_of_request
    (h : (machine setup δ).ReachableIn (fun s l => s.assumed setup l = true) s)
    (hhealthy : s.runtime.audit.healthy = true) (hx : s.exchanges[x]? = some e)
    (htrace : e.trace = some trace) :
    (s.runtime.audit.pending.filter (s.isOf x trace)).length ≤ 3 := by
  have hbooks := AuditDispatcher.Accounting.of_reachable
    (SecureRuntime.audit_reachable (runtime_reachable h.reachable))
  have hrow := (Occupants.of_reachableIn h) x e trace hx htrace
  have hlife := (Rows.of_reachable h.reachable).1 x e trace hx htrace
  have hsub : s.runtime.audit.pending.filter (s.isOf x trace) ⊆ slots s.runtime trace := by
    intro i hi
    obtain ⟨hpending, hof⟩ := List.mem_filter.mp hi
    obtain ⟨w, hw, hunsettled⟩ := hbooks.unsettled hhealthy hpending
    have howns : Owns s.runtime x trace i w := by
      simp only [isOf, hw, Option.any_some, Bool.or_eq_true, beq_iff_eq, List.contains_eq_mem,
        decide_eq_true_eq] at hof
      rcases hof with hscope | hmem
      · obtain ⟨y, b, other, hy, hother, howns⟩ := (Belonging.of_reachableIn h).writes i w hw
        rcases howns with ⟨hsame, hkind⟩ | ⟨hnone, _⟩
        · obtain rfl := Option.some.inj (hsame.symm.trans hscope)
          obtain rfl := Option.some.inj (hx.symm.trans hy)
          obtain rfl := Option.some.inj (htrace.symm.trans hother)
          exact Or.inl ⟨hsame, hkind⟩
        · exact absurd (hnone.symm.trans hscope) (by simp)
      · exact Or.inr ⟨hlife.attempts_scope hmem hw, hmem⟩
    exact (howns.mem_slots hrow hlife
      (SecureRuntime.recordsAwaited_of_reachable (runtime_reachable h.reachable)) hw
      hunsettled).2
  exact Nat.le_trans ((hbooks.slots.nodup.filter _).length_le_of_subset hsub) hrow.length_slots_le

/-- A step from a state that has lost nothing drops nothing. -/
theorem dropped_of_step
    (h : (machine setup δ).ReachableIn (fun s l => s.assumed setup l = true) s)
    (hassumed : s.assumed setup l = true) (hstep : (machine setup δ).step s l = some s')
    (hhealthy : s.runtime.audit.healthy = true) :
    s'.runtime.audit.dropped = s.runtime.audit.dropped := by
  rcases (step_effect hstep).audit with hsame | ⟨l', hl'⟩
  · rw [hsame]
  · rcases AuditDispatcher.write_or_length hl' with ⟨event, scope, _, hwritten⟩ | hlength
    · obtain ⟨last, hrow, _⟩ := AuditDispatcher.write_row s.runtime.audit event scope
      have hroom := room_of_write h hassumed hstep hhealthy (by rw [hwritten, hrow]; simp)
      have hcapacity := AuditDispatcher.capacity_of_reachable
        (SecureRuntime.audit_reachable (runtime_reachable h.reachable))
      have haccepts : s.runtime.audit.refuses = false := by
        rw [AuditDispatcher.refuses, hhealthy, hcapacity]
        simpa using hroom
      rw [hwritten, AuditDispatcher.write, haccepts]
      rfl
    · exact (AuditDispatcher.step_effect hl').dropped hlength

/-- HTTP admission never exhausts the audit capacity: every write belongs to an admitted request;
    while nothing was lost at most three pending writes belong to any one of them, and a write finds
    fewer pending writes than the capacity; and nothing is dropped before the sink has failed. -/
theorem audit_capacity_suffices (setup : HttpSetup) (s : HttpServer δ)
    (h : (machine setup δ).ReachableIn (fun s l => s.assumed setup l = true) s) :
    (∀ i < s.nextWrite, ∃ (x : Nat) (e : HttpExchange) (trace : Trace),
      s.exchanges[x]? = some e ∧ e.trace = some trace ∧ s.isOf x trace i = true) ∧
    (s.runtime.audit.healthy = true →
      ∀ (x : Nat) (e : HttpExchange) (trace : Trace), s.exchanges[x]? = some e →
        e.trace = some trace → (s.runtime.audit.pending.filter (s.isOf x trace)).length ≤ 3) ∧
    (s.runtime.audit.healthy = true → ∀ l s', s.assumed setup l = true →
      (machine setup δ).step s l = some s' → s.nextWrite < s'.nextWrite →
      s.runtime.audit.pending.length < setup.rt.config.maxPending) ∧
    (s.runtime.audit.failures = 0 → s.runtime.audit.dropped = 0) := by
  refine ⟨fun i hi => ?_, fun hhealthy x e trace => pending_of_request h hhealthy,
    fun hhealthy l s' hassumed hstep => room_of_write h hassumed hstep hhealthy, ?_⟩
  · have hw := List.getElem?_eq_getElem hi
    obtain ⟨x, e, trace, hx, htrace, howns⟩ := (Belonging.of_reachableIn h).writes i _ hw
    exact ⟨x, e, trace, hx, htrace, howns.isOf hw⟩
  · refine h.invariant (I := fun s => s.runtime.audit.failures = 0 → s.runtime.audit.dropped = 0)
      (fun _ => rfl) (fun a l b ha hzero hassumed hstep hfailures => ?_)
    have hbefore : a.runtime.audit.failures = 0 := by
      rcases (step_effect hstep).audit with hsame | ⟨l', hl'⟩
      · rw [← hsame]
        exact hfailures
      · have hmono := (AuditDispatcher.step_effect hl').mono
        omega
    rw [dropped_of_step ha hassumed hstep
      (AuditDispatcher.healthy_iff.mpr ⟨hbefore, hzero hbefore⟩)]
    exact hzero hbefore

/-- The sink is slow: the deadline of a call fires while its `success` record is pending, and the
    response is prepared before either record has settled. -/
def slowSink : List (Label String) :=
  [.listen notesRequest, .verified 0 (some SecureRuntime.notesCall.principal) noteId,
    .runtime (.audit (.callSink 0 .returned)), .runtime (.audit (.resume 0)), .received 0, .fetch 0,
    .text 0 (some false), .invoke 0 (js "notes") SecureRuntime.notesArgs none none noteId,
    .runtime (.start 0), .runtime (.validated 0 (.success "a")),
    .runtime (.audit (.callSink 1 .returned)), .runtime (.audit (.resume 1)),
    .runtime (.admitted 0), .runtime (.handled 0 (.ok SecureRuntime.notesResult)),
    .runtime (.execution (.expire 0)), .runtime (.answered 0), .fetched 0 (some 200)]

theorem audit_capacity_suffices_slowSink :
    ∃ s e trace, (machine notesServer String).execIn (fun s l => s.assumed notesServer l)
        (machine notesServer String).init slowSink = some s ∧
      s.exchanges[0]? = some e ∧ e.trace = some trace ∧
      s.runtime.audit.pending.filter (s.isOf 0 trace) = [2, 3, 4] ∧
      (s.runtime.audit.pending.filter (s.isOf 0 trace)).length ≤ 3 ∧
      s.runtime.audit.dropped = 0 := by
  have hrun : ∃ s e trace, (machine notesServer String).execIn (fun s l => s.assumed notesServer l)
        (machine notesServer String).init slowSink = some s ∧
      s.exchanges[0]? = some e ∧ e.trace = some trace ∧
      s.runtime.audit.pending.filter (s.isOf 0 trace) = [2, 3, 4] ∧
      s.runtime.audit.healthy = true ∧ s.runtime.audit.failures = 0 :=
    ⟨_, _, _, rfl, rfl, rfl, rfl, rfl, rfl⟩
  obtain ⟨s, e, trace, hexec, hx, htrace, hpending, hhealthy, hfailures⟩ := hrun
  obtain ⟨_, hthree, _, hdropped⟩ :=
    audit_capacity_suffices notesServer s (Machine.leadsIn_of_execIn hexec)
  exact ⟨s, e, trace, hexec, hx, htrace, hpending, hthree hhealthy 0 e trace hx htrace,
    hdropped hfailures⟩

end HttpServer

end SecureMcp
