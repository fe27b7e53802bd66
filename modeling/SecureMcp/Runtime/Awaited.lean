import SecureMcp.Runtime.Evidence

set_option autoImplicit false

/-! # Which records a call still waits for

A call hands its records to the dispatcher one after the other on each of its two threads, and each
thread waits for its record before it goes on. So of all the records of a call at most two have not
settled: the one its operation awaits and the one its `catch` block awaits. -/

namespace SecureMcp

variable {δ : Type}

/-- The record that the operation awaits. -/
def OperationPhase.awaits : OperationPhase δ → Option Nat
  | .allowing write _ | .recording write _ => some write
  | _ => none

/-- The record that the `catch` block awaits. -/
def CallerPhase.awaits : CallerPhase → Option Nat
  | .concluding write _ => some write
  | _ => none

def Invocation.Awaits (inv : Invocation δ) (write : Nat) : Prop :=
  inv.operation.awaits = some write ∨ inv.caller.awaits = some write

namespace SecureRuntime

variable {rt : RuntimeSetup} {s s' : SecureRuntime δ} {inv inv' : Invocation δ} {l : Label δ}

/-- The promise of this write has settled. -/
def Settled (s : SecureRuntime δ) (write : Nat) : Prop :=
  ∃ w, s.audit.writes[write]? = some w ∧ w.delivery.settled = true

theorem Settled.kept {write : Nat} (h : s.Settled write) (hkept : WritesKept s s') :
    s'.Settled write := by
  obtain ⟨w, hw, hsettled⟩ := h
  obtain ⟨w', hw', hev⟩ := hkept write w hw
  exact ⟨w', hw', by rw [hev.delivery hsettled]; exact hsettled⟩

/-- Every record of this call has settled or is awaited. -/
def RecordsAwaited (s : SecureRuntime δ) (inv : Invocation δ) : Prop :=
  ∀ write ∈ inv.records, s.Settled write ∨ inv.Awaits write

theorem RecordsAwaited.frame (h : RecordsAwaited s inv) (hkept : WritesKept s s') :
    RecordsAwaited s' inv :=
  fun write hmem => (h write hmem).imp (fun hs => hs.kept hkept) id

/-- A thread goes on once what it awaits has settled, and may await a new record. -/
theorem RecordsAwaited.move (h : RecordsAwaited s inv) (hkept : WritesKept s s')
    (hmove : ∀ write, inv.Awaits write → s'.Settled write ∨ inv'.Awaits write)
    (hrecords : ∀ write ∈ inv'.records, write ∈ inv.records ∨ inv'.Awaits write) :
    RecordsAwaited s' inv' := by
  intro write hmem
  rcases hrecords write hmem with hold | hnew
  · rcases h write hold with hsettled | hawaits
    · exact Or.inl (hsettled.kept hkept)
    · exact hmove write hawaits
  · exact Or.inr hnew

theorem RecordsAwaited.of_fails (h : RecordsAwaited s inv) {code : FailureCode}
    {audit : AuditDispatcher AuditEvent} {counts : List (Outcome × Nat)}
    (hfails : Fails s inv code audit counts inv') (hkept : WritesKept s s')
    (hcaller : inv.caller.awaits = none) : RecordsAwaited s' inv' := by
  have hop : ∀ write, inv.Awaits write → inv.operation.awaits = some write := by
    rintro write (hop | hc)
    · exact hop
    · rw [hcaller] at hc
      exact absurd hc (by simp)
  cases hfails with
  | unrecorded =>
      exact h.move hkept (fun write hw => Or.inr (Or.inl (hop write hw))) (fun _ hw => Or.inl hw)
  | recording =>
      refine h.move hkept (fun write hw => Or.inr (Or.inl (hop write hw))) (fun write hw => ?_)
      rcases List.mem_append.mp hw with hold | hnew
      · exact Or.inl hold
      · rw [List.mem_singleton.mp hnew]
        exact Or.inr (Or.inr rfl)

/-- The operation goes on, over what it awaited. -/
theorem RecordsAwaited.operation (h : RecordsAwaited s inv) (hkept : WritesKept s s')
    (hsettled : ∀ write, inv.operation.awaits = some write → s.Settled write)
    (hcaller : inv'.caller = inv.caller)
    (hrecords : ∀ write ∈ inv'.records, write ∈ inv.records ∨ inv'.Awaits write) :
    RecordsAwaited s' inv' := by
  refine h.move hkept (fun write hw => ?_) hrecords
  rcases hw with hop | hc
  · exact Or.inl ((hsettled write hop).kept hkept)
  · exact Or.inr (Or.inr (by rw [hcaller]; exact hc))

theorem recordsAwaited_effect (hlinked : Linked rt s)
    (h : ∀ (i : Nat) inv, s.invocations[i]? = some inv → RecordsAwaited s inv)
    (he : Effect rt s l s') :
    ∀ (i : Nat) inv, s'.invocations[i]? = some inv → RecordsAwaited s' inv := by
  have hkept : WritesKept s s' := he.writes
  have hothers : ∀ {i : Nat} {inv' : Invocation δ}, RecordsAwaited s' inv' →
      ∀ (j : Nat) b, (s.invocations.set i inv')[j]? = some b → RecordsAwaited s' b :=
    fun hnew => Table.forall_set (fun j b hj => (h j b hj).frame hkept) hnew
  have happend : ∀ {a : Invocation δ}, RecordsAwaited s' a →
      ∀ (j : Nat) b, (s.invocations ++ [a])[j]? = some b → RecordsAwaited s' b :=
    fun hnew => Table.forall_append (fun j b hj => (h j b hj).frame hkept) hnew
  have hopened : ∀ call, RecordsAwaited s (s.opened rt call) := by
    intro call write hw
    exact absurd hw (by simp [opened])
  have hnothing : ∀ {a : Invocation δ}, a.operation.awaits = none →
      ∀ write, a.operation.awaits = some write → s.Settled write := by
    intro a hnone write hw
    rw [hnone] at hw
    exact absurd hw (by simp)
  cases he with
  | quiet s' hinvocations =>
      intro i inv hi
      rw [hinvocations] at hi
      exact (h i inv hi).frame hkept
  | refused call error audit counts inv' hrequest herror hfails =>
      exact happend ((hopened call).of_fails hfails hkept rfl)
  | accepted call => exact happend (fun write hw => absurd hw (by simp [opened]))
  | halted i row inv r reason hi hrun hrow hop | started i row inv r hi hrun hrow hop =>
      have hidle := (hlinked.rows i inv hi).idle hrun hrow hop
      exact hothers ((h i inv hi).operation hkept (hnothing (by rw [hidle]; rfl)) rfl
        (fun _ hw => Or.inl hw))
  | threw i inv error hi hearly hsettled =>
      refine hothers ((h i inv hi).operation hkept (fun write hw => ?_) rfl (fun _ hw => Or.inl hw))
      cases hphase : inv.operation with
      | allowing first data =>
          obtain rfl : first = write := by simpa [hphase, OperationPhase.awaits] using hw
          exact hsettled first data hphase
      | recording => simp [hphase, OperationPhase.isEarly] at hearly
      | _ => simp [hphase, OperationPhase.awaits] at hw
  | allowed i inv data hi hphase =>
      refine hothers ((h i inv hi).operation hkept (hnothing (by rw [hphase]; rfl)) rfl
        (fun write hw => ?_))
      rcases List.mem_append.mp hw with hold | hnew
      · exact Or.inl hold
      · rw [List.mem_singleton.mp hnew]
        exact Or.inr (Or.inl rfl)
  | entered i write inv data w hi hphase hwrite hdelivery =>
      refine hothers ((h i inv hi).operation hkept (fun other hw => ?_) rfl (fun _ hw => Or.inl hw))
      obtain rfl : write = other := by simpa [hphase, OperationPhase.awaits] using hw
      exact ⟨w, hwrite, by rw [hdelivery]; rfl⟩
  | handled i inv data value outcome hi hphase =>
      refine hothers ((h i inv hi).operation hkept (hnothing (by rw [hphase]; rfl)) rfl
        (fun write hw => ?_))
      rcases List.mem_append.mp hw with hold | hnew
      · exact Or.inl hold
      · rw [List.mem_singleton.mp hnew]
        exact Or.inr (Or.inl rfl)
  | recordLost i write inv value w hi hphase hwrite hdelivery
  | recordKept i write inv value w hi hphase hwrite hdelivery =>
      refine hothers ((h i inv hi).operation hkept (fun other hw => ?_) rfl (fun _ hw => Or.inl hw))
      obtain rfl : write = other := by simpa [hphase, OperationPhase.awaits] using hw
      exact ⟨w, hwrite, by rw [hdelivery]; rfl⟩
  | settled i row inv r result hi hrun hrow hop hphase =>
      refine hothers ((h i inv hi).operation hkept (hnothing ?_) rfl (fun _ hw => Or.inl hw))
      rcases hphase with ⟨error, hthrew, _⟩ | hrecorded
      · rw [hthrew]
        rfl
      · rw [hrecorded]
        rfl
  | failed i row inv inv' error audit counts hi hrun hcaller hresult hfails =>
      exact hothers ((h i inv hi).of_fails hfails hkept (by rw [hcaller]; rfl))
  | returned i row inv value isError hi hrun hcaller =>
      refine hothers ((h i inv hi).move hkept (fun write hw => ?_) (fun _ hw => Or.inl hw))
      rcases hw with hop | hc
      · exact Or.inr (Or.inl hop)
      · rw [hcaller] at hc
        exact absurd hc (by simp [CallerPhase.awaits])
  | concluded i write inv outcome w hi hcaller hwrite hdelivery
  | unconcluded i write inv outcome w hi hcaller hwrite hdelivery =>
      refine hothers ((h i inv hi).move hkept (fun other hw => ?_) (fun _ hw => Or.inl hw))
      rcases hw with hop | hc
      · exact Or.inr (Or.inl hop)
      · obtain rfl : write = other := by simpa [hcaller, CallerPhase.awaits] using hc
        exact Or.inl (Settled.kept ⟨w, hwrite, by rw [hdelivery]; rfl⟩ hkept)

theorem recordsAwaited_of_reachable (h : (machine rt δ).Reachable s) :
    ∀ (i : Nat) inv, s.invocations[i]? = some inv → RecordsAwaited s inv := by
  refine h.invariant
    (I := fun s => ∀ (i : Nat) inv, s.invocations[i]? = some inv → RecordsAwaited s inv)
    (by simp [machine]) (fun a l b ha hrows hstep => ?_)
  exact recordsAwaited_effect (Linked.of_reachable ha) hrows (step_effect hstep)

/-! ## Calls that were answered -/

/-- A call that was answered has nothing left to say. -/
theorem Effect.answered (he : Effect rt s l s') {j : Nat} {b : Invocation δ} {outcome : Outcome}
    {value : Graph} (hj : s.invocations[j]? = some b) (hb : b.caller = .answered outcome value) :
    ∃ b', s'.invocations[j]? = some b' ∧ b'.caller = .answered outcome value := by
  have hset : ∀ {i : Nat} {inv inv' : Invocation δ}, s.invocations[i]? = some inv →
      (inv.caller = .answered outcome value → inv'.caller = .answered outcome value) →
      ∃ b', (s.invocations.set i inv')[j]? = some b' ∧ b'.caller = .answered outcome value := by
    intro i inv inv' hi hnew
    by_cases hji : j = i
    · subst hji
      obtain rfl := Option.some.inj (hi.symm.trans hj)
      exact ⟨inv', Table.getElem?_set_of_some hi, hnew hb⟩
    · exact ⟨b, by rw [Table.getElem?_set_of_ne hji]; exact hj, hb⟩
  cases he with
  | quiet s' hinvocations => exact ⟨b, by rw [hinvocations]; exact hj, hb⟩
  | refused | accepted => exact ⟨b, Table.getElem?_append_of_some hj, hb⟩
  | halted i row inv r reason hi | started i row inv r hi | threw i inv error hi
  | allowed i inv data hi | entered i write inv data w hi | handled i inv data value outcome hi
  | recordLost i write inv value w hi | recordKept i write inv value w hi
  | settled i row inv r result hi => exact hset hi id
  | failed i row inv inv' error audit counts hi hrun hcaller
  | returned i row inv value isError hi hrun hcaller
  | concluded i write inv outcome w hi hcaller
  | unconcluded i write inv outcome w hi hcaller =>
      exact hset hi (fun ha => absurd (hcaller.symm.trans ha) (by simp))

theorem answered_of_leads (h : (machine rt δ).Leads s s') {j : Nat} {b : Invocation δ}
    {outcome : Outcome} {value : Graph} (hj : s.invocations[j]? = some b)
    (hb : b.caller = .answered outcome value) :
    ∃ b', s'.invocations[j]? = some b' ∧ b'.caller = .answered outcome value := by
  refine h.invariant (I := fun t => ∃ b', t.invocations[j]? = some b' ∧
    b'.caller = .answered outcome value) ⟨b, hj, hb⟩ ?_
  rintro a l c ⟨x, hx, hanswered⟩ hstep
  exact (step_effect hstep).answered hx hanswered

/-! ## Where a new record comes from -/

/-- This write is a record that this call has just handed to the dispatcher. -/
def Records (s : SecureRuntime δ) (write : Nat) (w : Write AuditEvent) : Prop :=
  ∃ (j : Nat) (inv : Invocation δ) (outcome : Outcome) (clock : Clock),
    s.invocations[j]? = some inv ∧ w.scope = inv.call.scope ∧
      w.event = recordEvent inv.context .tool outcome inv.start clock ∧ write ∈ inv.records ∧
      inv.Awaits write

private theorem new_of_record {outcome : Outcome} {write : Nat} {w : Write AuditEvent}
    (hw : (s.record inv outcome).writes[write]? = some w) (hnew : s.audit.writes[write]? = none) :
    write = s.audit.writes.length ∧
      w.event = recordEvent inv.context .tool outcome inv.start s.clock ∧
      w.scope = inv.call.scope := by
  obtain ⟨w', hwrites, hevent, hscope, _⟩ := AuditDispatcher.write_row s.audit
    (recordEvent inv.context .tool outcome inv.start s.clock) inv.call.scope
  rw [record, hwrites] at hw
  rcases Table.getElem?_append_cases hw with hold | ⟨hlast, rfl⟩
  · rw [hnew] at hold
    exact absurd hold (by simp)
  · exact ⟨hlast, hevent, hscope⟩

/-- A write that a step adds is one that other code makes, or the record that a call now awaits. -/
theorem Effect.newWrite (he : Effect rt s l s') {write : Nat} {w : Write AuditEvent}
    (hw : s'.audit.writes[write]? = some w) (hnew : s.audit.writes[write]? = none) :
    write = s.audit.writes.length ∧
      (l = .audit (.write w.event w.scope) ∨ s'.Records write w) := by
  have hsame : s'.audit.writes = s.audit.writes → False := by
    intro heq
    rw [heq, hnew] at hw
    exact absurd hw (by simp)
  have hfails : ∀ {inv inv' : Invocation δ} {code audit counts},
      Fails s inv code audit counts inv' → s'.audit = audit →
      (∃ j : Nat, s'.invocations[j]? = some inv') →
      write = s.audit.writes.length ∧ s'.Records write w := by
    rintro inv inv' code audit counts hfails haudit ⟨j, hj⟩
    cases hfails with
    | unrecorded => exact absurd (by rw [haudit]) hsame
    | recording =>
        rw [haudit] at hw
        obtain ⟨rfl, hevent, hscope⟩ := new_of_record hw hnew
        exact ⟨rfl, j, _, _, _, hj, hscope, hevent, by simp, Or.inr rfl⟩
  cases he with
  | quiet s' hinvocations hcounts haudit =>
      rcases haudit with heq | ⟨l', hl', hstep⟩
      · exact absurd (by rw [heq]) hsame
      · rcases AuditDispatcher.write_or_length hstep with ⟨event, scope, rfl, hwritten⟩ | hlength
        · obtain ⟨w', hwrites, hevent, hscope, _⟩ :=
            AuditDispatcher.write_row s.audit event scope
          rw [hwritten, hwrites] at hw
          rcases Table.getElem?_append_cases hw with hold | ⟨hlast, rfl⟩
          · rw [hnew] at hold
            exact absurd hold (by simp)
          · refine ⟨hlast, Or.inl ?_⟩
            rcases hl' with hlabel | hclose
            · rw [hlabel, hevent, hscope]
            · exact absurd hclose (by simp)
        · have hlt := Table.lt_of_getElem? hw
          rw [hlength] at hlt
          rw [List.getElem?_eq_none_iff] at hnew
          omega
  | refused call error audit counts inv' hrequest herror hf =>
      obtain ⟨hlast, hrecords⟩ := hfails hf rfl ⟨_, List.getElem?_concat_length⟩
      exact ⟨hlast, Or.inr hrecords⟩
  | failed i row inv inv' error audit counts hi hrun hcaller hresult hf =>
      obtain ⟨hlast, hrecords⟩ := hfails hf rfl ⟨i, Table.getElem?_set_of_some hi⟩
      exact ⟨hlast, Or.inr hrecords⟩
  | allowed i inv data hi =>
      obtain ⟨rfl, hevent, hscope⟩ := new_of_record hw hnew
      exact ⟨rfl, Or.inr ⟨i, _, _, _, Table.getElem?_set_of_some hi, hscope, hevent, by simp,
        Or.inl rfl⟩⟩
  | handled i inv data value outcome hi =>
      obtain ⟨rfl, hevent, hscope⟩ := new_of_record hw hnew
      exact ⟨rfl, Or.inr ⟨i, _, _, _, Table.getElem?_set_of_some hi, hscope, hevent, by simp,
        Or.inl rfl⟩⟩
  | _ => exact absurd rfl hsame

end SecureRuntime

end SecureMcp
