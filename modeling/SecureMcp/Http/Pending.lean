import SecureMcp.Http.Exchange

set_option autoImplicit false

/-! # Which writes a request still waits for

What is assumed of everything around the server is a condition on each step (`assumed`). Under it,
every write belongs to an admitted request, and a write that has not settled is one that a thread of
its request awaits: `slots` lists them, at most three at any time. -/

namespace SecureMcp

variable {δ : Type}

/-- The record that `fetch` awaits. -/
def FetchPhase.awaits : FetchPhase → Option Nat
  | .recording write _ => some write
  | _ => none

/-- The terminal record is made. -/
def Trace.Late (trace : Trace) : Prop :=
  trace.ending = .done ∨ ∃ write, trace.ending = .writing write

/-- The call has returned or thrown. -/
def Invocation.isAnswered (inv : Invocation δ) : Bool :=
  match inv.caller with
  | .answered _ _ => true
  | _ => false

namespace SecureRuntime

/-- The records that the two threads of this call await. -/
def awaited (r : SecureRuntime δ) (j : Nat) : List Nat :=
  match r.invocations[j]? with
  | some inv => inv.operation.awaits.toList ++ inv.caller.awaits.toList
  | none => []

def hasAnswered (r : SecureRuntime δ) (j : Nat) : Bool :=
  match r.invocations[j]? with
  | some inv => inv.isAnswered
  | none => false

end SecureRuntime

namespace HttpServer

/-! ## The assumptions -/

variable (setup : HttpSetup) (s : HttpServer δ)

/-- Audit writes come from admitted requests: no other code writes or calls `invoke`. -/
def ofRequest : Label δ → Bool
  | .runtime (.invoke _) | .runtime (.audit (.write _ _)) => false
  | _ => true

/-- For each request the handler dispatches at most one message: one call of `invoke`, and one
    response, which follows the call. -/
def dispatchesOnce : Label δ → Bool
  | .invoke x .. =>
    match (s.exchanges[x]?).bind HttpExchange.trace with
    | some trace => trace.invocations.isEmpty && trace.observed.isEmpty
    | none => true
  | .observe x _ =>
    match (s.exchanges[x]?).bind HttpExchange.trace with
    | some trace => trace.invocations.all s.runtime.hasAnswered && trace.observed.isEmpty
    | none => true
  | _ => true

/-- The adapter's call and the writes of this request have settled. -/
def drained (x : Nat) : Bool :=
  match (s.exchanges[x]?).bind HttpExchange.trace with
  | some trace => trace.delivery == .settled && (s.unsettled x).isEmpty
  | none => false

/-- No write in the scope of a request starts once it is drained. -/
def startsNothing (l : Label δ) : Bool :=
  match s.step setup l with
  | some s' =>
    (s'.runtime.audit.writes.drop s.nextWrite).all (fun w => !w.scope.any s.drained)
  | none => true

def assumed (l : Label δ) : Bool :=
  ofRequest l && s.dispatchesOnce l && s.startsNothing setup l

/-! ## The slots of a request -/

/-- The writes that the threads of this request await. -/
def slots (r : SecureRuntime δ) (trace : Trace) : List Nat :=
  match trace.ending, trace.delivery with
  | .writing write, _ => [write]
  | _, .receiving write => [write]
  | _, _ => trace.invocations.flatMap r.awaited ++ trace.observed ++ trace.fetch.awaits.toList

/-- What an admitted request may be waiting for. -/
structure Occupied (r : SecureRuntime δ) (x : Nat) (trace : Trace) : Prop where
  received : trace.delivery = .receiving trace.received ∨ r.Settled trace.received
  responses : ∀ write ∈ trace.responses,
    r.Settled write ∨ ∃ status, trace.fetch = .recording write status
  idle : trace.dispatched = false → trace.invocations = [] ∧ trace.observed = []
  invocations : trace.invocations.length ≤ 1
  observed : trace.observed.length ≤ 1
  answered : trace.observed ≠ [] → ∀ j ∈ trace.invocations, r.hasAnswered j = true
  /-- Once the terminal record is made, no other write of the scope is unsettled. -/
  drained : trace.Late → ∀ (i : Nat) w, r.audit.writes[i]? = some w → w.scope = some x → w.delivery.settled = true

/-- This write belongs to this request. -/
def Owns (r : SecureRuntime δ) (x : Nat) (trace : Trace) (i : Nat) (w : Write AuditEvent) : Prop :=
  (w.scope = some x ∧ (i = trace.received ∨ i ∈ trace.responses ∨ i ∈ trace.observed ∨
    ∃ j ∈ trace.invocations, ∃ inv, r.invocations[j]? = some inv ∧ i ∈ inv.records)) ∨
  (w.scope = none ∧ i ∈ trace.attempts)

variable {setup} {s} {s' : HttpServer δ} {l : Label δ} {r r' : SecureRuntime δ} {x : Nat}
  {e : HttpExchange} {trace trace' : Trace}

/-! ## At most three -/

theorem length_toList_le {α : Type} (o : Option α) : o.toList.length ≤ 1 := by
  cases o <;> simp

theorem length_awaited_le (r : SecureRuntime δ) (j : Nat) :
    (r.awaited j).length ≤ if r.hasAnswered j then 1 else 2 := by
  unfold SecureRuntime.awaited SecureRuntime.hasAnswered
  cases r.invocations[j]? with
  | none => simp
  | some inv =>
      have hop := length_toList_le inv.operation.awaits
      have hcaller := length_toList_le inv.caller.awaits
      rw [List.length_append]
      by_cases hanswered : inv.isAnswered = true
      · have hnone : inv.caller.awaits = none := by
          unfold Invocation.isAnswered at hanswered
          split at hanswered
          · next hc => rw [hc]; rfl
          · exact absurd hanswered (by simp)
        simp only [hanswered, if_true, hnone, Option.toList_none, List.length_nil]
        omega
      · simp only [hanswered, Bool.false_eq_true, if_false]
        omega

/-- One operation, its caller or its response, and the response of `fetch`. -/
theorem Occupied.length_slots_le (h : Occupied r x trace) : (slots r trace).length ≤ 3 := by
  unfold slots
  split
  · simp
  · simp
  · have hfetch := length_toList_le trace.fetch.awaits
    rw [List.length_append, List.length_append]
    have hone : ∀ k, (∀ j ∈ trace.invocations, (r.awaited j).length ≤ k) →
        (trace.invocations.flatMap r.awaited).length ≤ k := by
      intro k hk
      have hinvocations := h.invocations
      cases hlist : trace.invocations with
      | nil => simp
      | cons j rest =>
          rw [hlist] at hinvocations hk
          obtain rfl : rest = [] := List.eq_nil_of_length_eq_zero (by
            simp only [List.length_cons] at hinvocations
            omega)
          simpa using hk j List.mem_cons_self
    by_cases hobserved : trace.observed = []
    · have hcalls := hone 2 (fun j _ => Nat.le_trans (length_awaited_le r j) (by split <;> omega))
      rw [hobserved, List.length_nil]
      omega
    · have hcalls := hone 1 (fun j hj => by
        have hle := length_awaited_le r j
        rwa [h.answered hobserved j hj, if_pos rfl] at hle)
      have hlength := h.observed
      omega

/-! ## Calls that were answered -/

theorem hasAnswered_iff {j : Nat} : r.hasAnswered j = true ↔
    ∃ inv outcome value, r.invocations[j]? = some inv ∧ inv.caller = .answered outcome value := by
  unfold SecureRuntime.hasAnswered
  cases hj : r.invocations[j]? with
  | none => simp
  | some inv =>
      cases hcaller : inv.caller <;> simp [Invocation.isAnswered, hcaller]

theorem Effect.answered_kept (he : Effect setup s l s') {j : Nat}
    (h : s.runtime.hasAnswered j = true) : s'.runtime.hasAnswered j = true := by
  obtain ⟨inv, outcome, value, hj, hcaller⟩ := hasAnswered_iff.mp h
  obtain ⟨inv', hj', hcaller'⟩ :=
    SecureRuntime.answered_of_leads he.runtime_leads hj hcaller
  exact hasAnswered_iff.mpr ⟨inv', outcome, value, hj', hcaller'⟩

/-! ## The row of a request -/

theorem unsettled_nil_iff : s.unsettled x = [] ↔
    ∀ (i : Nat) w, s.runtime.audit.writes[i]? = some w → w.scope = some x →
      w.delivery.settled = true := by
  refine ⟨unsettled_eq_nil, fun h => ?_⟩
  rw [unsettled, List.filter_eq_nil_iff]
  intro i hi
  cases hw : s.runtime.audit.writes[i]? with
  | none => simp
  | some w =>
      by_cases hscope : w.scope = some x
      · simp [hscope, h i w hw hscope]
      · simp [hscope]

theorem Lifecycle.late (h : Lifecycle r x e trace) (hlate : trace.Late) :
    trace.delivery = .settled := by
  have hending := h.ending
  unfold Ending at hending
  rcases hlate with hdone | ⟨write, hwriting⟩
  · simp only [hdone] at hending
    exact hending.2.1
  · simp only [hwriting] at hending
    exact hending.2.2.1

theorem Occupied.isDrained (h : Occupied s.runtime x trace) (hl : Lifecycle s.runtime x e trace)
    (hx : s.exchanges[x]? = some e) (htrace : e.trace = some trace) (hlate : trace.Late) :
    s.drained x = true := by
  have hnil : s.unsettled x = [] := unsettled_nil_iff.mpr (h.drained hlate)
  simp [HttpServer.drained, hx, htrace, hl.late hlate, hnil]

theorem Occupied.kept (h : Occupied r x trace) (hkept : SecureRuntime.WritesKept r r')
    (hanswered : ∀ j, r.hasAnswered j = true → r'.hasAnswered j = true)
    (hnew : trace.Late → ∀ (i : Nat) w, r'.audit.writes[i]? = some w →
      r.audit.writes[i]? = none → w.scope ≠ some x) : Occupied r' x trace := by
  refine { h with
    received := h.received.imp id (fun hs => hs.kept hkept)
    responses := fun write hw => (h.responses write hw).imp (fun hs => hs.kept hkept) id
    answered := fun hobserved j hj => hanswered j (h.answered hobserved j hj)
    drained := fun hlate i w hw hscope => ?_ }
  cases hold : r.audit.writes[i]? with
  | none => exact absurd hscope (hnew hlate i w hw hold)
  | some w0 =>
      obtain ⟨w1, hw1, hev⟩ := hkept i w0 hold
      obtain rfl := Option.some.inj (hw1.symm.trans hw)
      have hsettled := h.drained hlate i w0 hold (by rw [← hev.scope]; exact hscope)
      rw [hev.delivery hsettled]
      exact hsettled

theorem Occupied.settled_of_adapting (h : Occupied r x trace)
    (hdelivery : trace.delivery = .adapting) : r.Settled trace.received := by
  rcases h.received with hreceiving | hsettled
  · rw [hdelivery] at hreceiving
    exact absurd hreceiving (by simp)
  · exact hsettled

/-- The delivery goes on once what it awaits has settled. -/
theorem Lifecycle.settled_of_delivered (hl : Lifecycle r x e trace) {write : Nat}
    {delivery : Delivery} (hdelivery : trace.delivery = .receiving write)
    (hwrite : r.Delivered write delivery) (hsettled : delivery.settled = true) :
    r.Settled trace.received := by
  obtain rfl := (hl.receiving write hdelivery).1
  obtain ⟨w, hw, heq⟩ := hwrite
  exact ⟨w, hw, by rw [heq]; exact hsettled⟩

/-- `fetch` goes on once what it awaits has settled. -/
theorem Occupied.responses_settled (h : Occupied r x trace)
    (hfetch : ∀ write status, trace.fetch = .recording write status → r.Settled write) :
    ∀ write ∈ trace.responses, r.Settled write := by
  intro write hw
  rcases h.responses write hw with hsettled | ⟨status, hrecording⟩
  · exact hsettled
  · exact hfetch write status hrecording

theorem Occupied.moves {response : HttpResponse} (h : Occupied s.runtime x trace)
    (hl : Lifecycle s.runtime x e trace) (hm : Moves s e trace response trace') :
    Occupied s.runtime x trace' := by
  have hopen : (∀ write status, trace.fetch ≠ .recording write status) →
      ∀ write ∈ trace.responses, s.runtime.Settled write :=
    fun hnone => h.responses_settled (fun write status hf => absurd hf (hnone write status))
  cases hm with
  | delivered write delivery hdelivery hwrite =>
      exact { h with received := Or.inr (hl.settled_of_delivered hdelivery hwrite rfl) }
  | adapted hdelivery => exact { h with received := Or.inr (h.settled_of_adapting hdelivery) }
  | caught hdelivery =>
      refine { h with received := Or.inr ?_ }
      rcases hdelivery with ⟨write, hreceiving, hwrite⟩ | hadapting
      · exact hl.settled_of_delivered hreceiving hwrite rfl
      · exact h.settled_of_adapting hadapting
  | reading hdelivery hfetch =>
      exact { h with responses := fun write hw => Or.inl (hopen (by simp [hfetch]) write hw) }
  | handling hfetch =>
      refine { h with
        responses := fun write hw => Or.inl (hopen (fun _ _ hrecording => ?_) write hw)
        idle := fun hdispatched => absurd hdispatched (by simp) }
      rcases hfetch with hf | ⟨_, hf⟩ <;> exact absurd (hf.symm.trans hrecording) (by simp)
  | fetchFailed hfetch =>
      refine { h with
        responses := fun write hw => Or.inl (h.responses_settled (fun other status hf => ?_) write hw) }
      rcases hfetch with hreading | hhandling | ⟨lost, code, hrecording, w, hlost, hdelivery⟩
      · exact absurd (hreading.symm.trans hf) (by simp)
      · exact absurd (hhandling.symm.trans hf) (by simp)
      · obtain ⟨rfl, _⟩ := FetchPhase.recording.inj (hrecording.symm.trans hf)
        exact ⟨w, hlost, by rw [hdelivery]; rfl⟩
  | passed write status hfetch hwrite =>
      refine { h with
        responses := fun other hw => Or.inl (h.responses_settled (fun third code hf => ?_) other hw) }
      obtain ⟨rfl, _⟩ := FetchPhase.recording.inj (hfetch.symm.trans hf)
      obtain ⟨w, hw, hdelivery⟩ := hwrite
      exact ⟨w, hw, by rw [hdelivery]; rfl⟩
  | awaiting | settling =>
      exact { h with drained := fun hlate => by simp [Trace.Late] at hlate }
  | head | ended | finished | destroyed | closed | expired => exact { h with }

/-- Every admitted request. -/
def Occupants (s : HttpServer δ) : Prop :=
  ∀ (x : Nat) e trace, s.exchanges[x]? = some e → e.trace = some trace →
    Occupied s.runtime x trace

/-- The assumption on the scope of a write that starts. -/
theorem scope_of_startsNothing (h : s.startsNothing setup l = true)
    (hstep : s.step setup l = some s') {i : Nat} {w : Write AuditEvent}
    (hw : s'.runtime.audit.writes[i]? = some w) (hnew : s.runtime.audit.writes[i]? = none)
    (hdrained : s.drained x = true) : w.scope ≠ some x := by
  intro hscope
  rw [startsNothing, hstep] at h
  have hmem : w ∈ s'.runtime.audit.writes.drop s.nextWrite := by
    rw [List.getElem?_eq_none_iff] at hnew
    refine List.mem_of_getElem? (i := i - s.nextWrite) ?_
    rw [List.getElem?_drop]
    have hi : s.nextWrite + (i - s.nextWrite) = i := Nat.add_sub_cancel' hnew
    rw [hi]
    exact hw
  have hall := List.all_eq_true.mp h w hmem
  simp [hscope, hdrained] at hall

theorem Occupants.step (h : Occupants s) (hrows : Rows s) (hassumed : s.assumed setup l = true)
    (hstep : s.step setup l = some s') : Occupants s' := by
  simp only [assumed, Bool.and_eq_true] at hassumed
  obtain ⟨⟨hrequest, honce⟩, hnothing⟩ := hassumed
  have he := step_effect hstep
  have hold : ∀ (x : Nat) e, s.exchanges[x]? = some e → ∀ trace, e.trace = some trace →
      Occupied s'.runtime x trace := by
    intro x e hx trace htrace
    have hrow := h x e trace hx htrace
    refine hrow.kept he.writesKept (fun j => he.answered_kept) (fun hlate i w hw hnew => ?_)
    exact scope_of_startsNothing hnothing hstep hw hnew
      (hrow.isDrained (hrows x e trace hx htrace) hx htrace hlate)
  have hthread : ∀ {x : Nat} {e' : HttpExchange} {trace' : Trace}, e'.trace = some trace' →
      Occupied s'.runtime x trace' →
      ∀ (y : Nat) e trace, (s.exchanges.set x e')[y]? = some e → e.trace = some trace →
        Occupied s'.runtime y trace := by
    intro x e' trace' htrace' hnew y e trace hy
    refine Table.forall_set (P := fun y e => ∀ trace, e.trace = some trace →
      Occupied s'.runtime y trace) hold (fun other hother => ?_) y e hy trace
    obtain rfl := Option.some.inj (htrace'.symm.trans hother)
    exact hnew
  have hother : ∀ {x : Nat} {e' : HttpExchange}, e'.trace = none →
      ∀ (y : Nat) e trace, (s.exchanges.set x e')[y]? = some e → e.trace = some trace →
        Occupied s'.runtime y trace := by
    intro x e' hnone y e trace hy
    refine Table.forall_set (P := fun y e => ∀ trace, e.trace = some trace →
      Occupied s'.runtime y trace) hold (fun other hother => ?_) y e hy trace
    exact absurd (hnone.symm.trans hother) (by simp)
  cases he with
  | counted | closing | runtime => exact fun x e trace hx => hold x e hx trace
  | listened request endpoint =>
      intro x e trace hx htrace
      rcases Table.getElem?_append_cases hx with hx | ⟨_, rfl⟩
      · exact hold x e hx trace htrace
      · exact absurd htrace (by simp [HttpExchange.trace])
  | refused x e response reason counters hx hphase => exact hother rfl
  | untraced x e response hx htrace => exact hother htrace
  | admitted x e principal uuid hx hphase =>
      refine hthread rfl
        { received := Or.inl rfl
          responses := fun write hw => absurd hw (by simp [newTrace])
          idle := fun _ => ⟨rfl, rfl⟩
          invocations := Nat.zero_le _
          observed := Nat.zero_le _
          answered := fun hobserved => absurd rfl hobserved
          drained := fun hlate => by simp [newTrace, Trace.Late] at hlate }
  | moved x e trace trace' response hx htrace hmoves =>
      exact hthread rfl ((h x e trace hx htrace).moves (hrows x e trace hx htrace) hmoves)
  | responding x e trace status hx htrace hfetch =>
      have hrow := hold x e hx trace htrace
      refine hthread rfl { hrow with responses := fun write hw => ?_ }
      rcases List.mem_append.mp hw with hbefore | hnew
      · refine Or.inl (hrow.responses_settled (fun _ _ hrecording => ?_) write hbefore)
        rcases hfetch with ⟨_, hf⟩ | hf | hf <;> exact absurd (hf.symm.trans hrecording) (by simp)
      · rw [List.mem_singleton.mp hnew]
        exact Or.inr ⟨status, rfl⟩
  | attempted x e trace hx htrace hready hsettled =>
      have hrow := hold x e hx trace htrace
      refine hthread rfl { hrow with drained := fun _ i w hw hscope => ?_ }
      obtain ⟨last, hwrites, _, _, hnone⟩ :=
        write_last s (s.traceEvent trace trace.terminal e.response.statusCode) none
      have hw' : (s.runtime.audit.writes ++ [last])[i]? = some w := by
        rw [← hwrites]
        exact hw
      rcases Table.getElem?_append_cases hw' with hbefore | ⟨_, rfl⟩
      · exact unsettled_eq_nil hsettled i w hbefore hscope
      · exact absurd (hnone.symm.trans hscope) (by simp)
  | released x e trace write hx htrace hending =>
      have hrow := hold x e hx trace htrace
      exact hthread rfl { hrow with drained := fun _ => hrow.drained (Or.inr ⟨write, hending⟩) }
  | invoked x e trace call runtime hx htrace hdispatched hscope hrun hlabel =>
      have hrow := hold x e hx trace htrace
      obtain ⟨name, args, caller, request, uuid, rfl⟩ := hlabel
      obtain ⟨hnone, hunobserved⟩ : trace.invocations = [] ∧ trace.observed = [] := by
        simpa [dispatchesOnce, hx, htrace] using honce
      refine hthread rfl { hrow with
        idle := fun hidle => absurd (hdispatched.symm.trans hidle) (by simp)
        invocations := by simp [hnone]
        answered := fun hobserved => absurd hunobserved hobserved }
  | observed x e trace event hx htrace hdispatched hkind hlabel =>
      have hrow := hold x e hx trace htrace
      obtain ⟨outcome, rfl⟩ := hlabel
      obtain ⟨hcalls, hunobserved⟩ : (∀ j ∈ trace.invocations, s.runtime.hasAnswered j = true) ∧
          trace.observed = [] := by simpa [dispatchesOnce, hx, htrace] using honce
      refine hthread rfl { hrow with
        idle := fun hidle => absurd (hdispatched.symm.trans hidle) (by simp)
        observed := by simp [hunobserved]
        answered := fun _ j hj => (step_effect hstep).answered_kept (hcalls j hj) }

theorem Occupants.of_reachableIn
    (h : (machine setup δ).ReachableIn (fun s l => s.assumed setup l = true) s) : Occupants s :=
  h.invariant (I := Occupants) (by simp [Occupants, machine])
    (fun _ _ _ ha hs hok hstep => hs.step (Rows.of_reachable ha.reachable).1 hok hstep)

end HttpServer

end SecureMcp
