import SecureMcp.Runtime.Evidence

set_option autoImplicit false

/-! # What stands behind a handler that was entered

The `allowed` record of a call is acknowledged before its handler is entered, and stays so. -/

namespace SecureMcp

namespace SecureRuntime

variable {δ : Type} {rt : RuntimeSetup} {s s' : SecureRuntime δ} {l : Label δ}

/-- An acknowledged record of this call with this outcome. -/
def RecordKept (s : SecureRuntime δ) (inv : Invocation δ) (outcome : Outcome) : Prop :=
  ∃ write, write ∈ inv.records ∧ s.Wrote inv write outcome ∧ s.Delivered write .fulfilled

theorem RecordKept.kept {inv inv' : Invocation δ} {outcome : Outcome} (h : s.RecordKept inv outcome)
    (hkept : WritesKept s s') (hgrows : Grows inv inv') : s'.RecordKept inv' outcome := by
  obtain ⟨write, hmem, hwrote, hdelivered⟩ := h
  exact ⟨write, hgrows.records write hmem,
    hwrote.kept hkept ⟨hgrows.context, hgrows.start, hgrows.call⟩, hdelivered.kept hkept rfl⟩

/-- Every call whose handler was entered. -/
def AllowedFirst (s : SecureRuntime δ) : Prop :=
  ∀ (j : Nat) inv, s.invocations[j]? = some inv → s.enteredAt j ≠ [] → s.RecordKept inv .allowed

theorem AllowedFirst.effect (h : AllowedFirst s) (hlinked : Linked rt s) (he : Effect rt s l s') :
    AllowedFirst s' := by
  intro j inv' hj' hentered
  rcases he.enteredAt j with hsame | ⟨write, inv, data, w, hj, hphase, hw, hdelivery, _⟩
  · -- it was entered before this step
    rw [hsame] at hentered
    cases hj : s.invocations[j]? with
    | none => exact absurd (by rw [enteredAt, hj]) hentered
    | some inv =>
        obtain ⟨inv'', hj'', hgrows⟩ := he.grows hj
        obtain rfl := Option.some.inj (hj'.symm.trans hj'')
        exact (h j inv hj hentered).kept he.writes hgrows
  · obtain ⟨inv'', hj'', hgrows⟩ := he.grows hj
    obtain rfl := Option.some.inj (hj'.symm.trans hj'')
    have hhistory := (hlinked.rows j inv hj).history
    unfold Invocation.History at hhistory
    simp only [hphase] at hhistory
    have hkept : s.RecordKept inv .allowed :=
      ⟨write, hhistory.2.2.1, hhistory.2.2.2, w, hw, hdelivery⟩
    exact hkept.kept he.writes hgrows

theorem allowedFirst_of_reachable (h : (machine rt δ).Reachable s) : AllowedFirst s :=
  h.invariant (I := AllowedFirst) (by simp [AllowedFirst, machine])
    (fun _ _ _ ha hs hstep => hs.effect (Linked.of_reachable ha) (step_effect hstep))

end SecureRuntime

end SecureMcp
