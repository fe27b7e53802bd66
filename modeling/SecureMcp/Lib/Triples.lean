import Mathlib.Tactic.Common

set_option autoImplicit false

/-! # Triples for code that throws

A computation in `EStateM` runs on a state and ends by returning or by throwing, and the state it
leaves is there in both cases. `Triple pre x post thrown` says what holds in each: from a state in
`pre`, either `x` returns and `post` holds of the value and the new state, or it throws and `thrown`
holds of the exception and the new state. There is one rule for each way of building a computation;
the rule for `try … finally` is where the second condition pays. -/

namespace EStateM

variable {ε σ α β : Type}

/-- What holds when `x` has returned, and what holds when it has thrown. -/
def Triple (pre : σ → Prop) (x : EStateM ε σ α) (post : α → σ → Prop) (thrown : ε → σ → Prop) :
    Prop :=
  ∀ s, pre s → match x s with
    | .ok a s' => post a s'
    | .error e s' => thrown e s'

namespace Triple

variable {P P' : σ → Prop} {x : EStateM ε σ α} {f : α → EStateM ε σ β}
  {Q Q' : α → σ → Prop} {R : β → σ → Prop} {E E' : ε → σ → Prop}

/-! ## Rules -/

theorem weaken (h : Triple P' x Q' E') (hpre : ∀ s, P s → P' s)
    (hpost : ∀ a s, Q' a s → Q a s) (hthrown : ∀ e s, E' e s → E e s) : Triple P x Q E := by
  intro s hs
  have hx := h s (hpre s hs)
  cases hrun : x s with
  | ok a s' =>
      rw [hrun] at hx
      exact hpost a s' hx
  | error e s' =>
      rw [hrun] at hx
      exact hthrown e s' hx

theorem returns {a : α} (h : ∀ s, P s → Q a s) :
    Triple P (pure a : EStateM ε σ α) Q E :=
  fun s hs => h s hs

theorem throws {e : ε} (h : ∀ s, P s → E e s) :
    Triple P (throw e : EStateM ε σ α) Q E :=
  fun s hs => h s hs

theorem bind (hx : Triple P x Q E) (hf : ∀ a, Triple (Q a) (f a) R E) :
    Triple P (x >>= f) R E := by
  intro s hs
  have hfirst := hx s hs
  show match EStateM.bind x f s with
    | .ok b s' => R b s'
    | .error e s' => E e s'
  unfold EStateM.bind
  cases hrun : x s with
  | ok a s' =>
      rw [hrun] at hfirst
      exact hf a s' hfirst
  | error e s' =>
      rw [hrun] at hfirst
      exact hfirst

/-- The value read is the state. -/
theorem gets : Triple P (get : EStateM ε σ σ) (fun a s => P s ∧ a = s) E :=
  fun _ hs => ⟨hs, rfl⟩

theorem updates {g : σ → σ} (R : σ → Prop) (h : ∀ s, P s → R (g s)) :
    Triple P (modify g : EStateM ε σ PUnit) (fun _ s => R s) E :=
  fun s hs => h s hs

theorem ite {c : Prop} [Decidable c] {y : EStateM ε σ α}
    (hx : c → Triple P x Q E) (hy : ¬ c → Triple P y Q E) : Triple P (if c then x else y) Q E := by
  by_cases hc : c
  · rw [if_pos hc]
    exact hx hc
  · rw [if_neg hc]
    exact hy hc

/-- A `catch` block starts in the state in which the exception was thrown. -/
theorem catching {handler : ε → EStateM ε σ α} (hx : Triple P x Q E)
    (hhandler : ∀ e, Triple (E e) (handler e) Q E') : Triple P (tryCatch x handler) Q E' := by
  intro s hs
  have hbody := hx s hs
  show match EStateM.tryCatch x handler s with
    | .ok a s' => Q a s'
    | .error e s' => E' e s'
  unfold EStateM.tryCatch
  cases hrun : x s with
  | ok a s' =>
      rw [hrun] at hbody
      exact hbody
  | error e s' =>
      rw [hrun] at hbody
      exact hhandler e s' hbody

/-- A `finally` block runs on either way out; its own exception replaces the outcome. -/
theorem ensuring {final : EStateM ε σ β} (hx : Triple P x Q E)
    (hreturned : ∀ a, Triple (Q a) final (fun _ s => Q' a s) E')
    (hthrown : ∀ e, Triple (E e) final (fun _ s => E' e s) E') :
    Triple P (tryFinally x final) Q' E' := by
  intro s hs
  have hbody := hx s hs
  simp only [tryFinally, tryFinally', Functor.map, EStateM.map]
  cases hrun : x s with
  | ok a s' =>
      rw [hrun] at hbody
      have hlast := hreturned a s' hbody
      simp only
      cases hfinal : final s' with
      | ok b t =>
          rw [hfinal] at hlast
          exact hlast
      | error e t =>
          rw [hfinal] at hlast
          exact hlast
  | error e s' =>
      rw [hrun] at hbody
      have hlast := hthrown e s' hbody
      simp only
      cases hfinal : final s' with
      | ok b t =>
          rw [hfinal] at hlast
          exact hlast
      | error e' t =>
          rw [hfinal] at hlast
          exact hlast

end Triple

end EStateM
