import Mathlib.Data.Prod.Lex
import Mathlib.Logic.Relation
import Mathlib.Tactic.Common

set_option autoImplicit false

/-! # Executable machines and what holds along their runs

A `Machine` is an initial state and a partial step function: `step s l = none` says that the
event `l` cannot happen in `s`. Everything concurrent in this development is one of these, with
one label per synchronous stretch of code, so an interleaving is a list of labels.

Runs may be restricted by a condition `ok s l` on the state before a step and its label
(`LeadsIn ok`). That is how assumptions about an environment, and the conditions under which a
faulty component behaves, are attached to runs without touching the machine. -/

/-- An initial state and a partial, executable step function. -/
structure Machine (σ ℓ : Type*) where
  init : σ
  step : σ → ℓ → Option σ

namespace Machine

variable {σ τ ℓ κ : Type*} (M : Machine σ ℓ)

/-! ## Runs -/

/-- One step whose state and label meet `ok`. -/
def NextIn (ok : σ → ℓ → Prop) (s s' : σ) : Prop := ∃ l, ok s l ∧ M.step s l = some s'

/-- Zero or more steps, each meeting `ok`. -/
def LeadsIn (ok : σ → ℓ → Prop) : σ → σ → Prop := Relation.ReflTransGen (M.NextIn ok)

/-- Zero or more steps. -/
def Leads : σ → σ → Prop := M.LeadsIn (fun _ _ => True)

/-- Reached from the initial state by steps that all meet `ok`. -/
def ReachableIn (ok : σ → ℓ → Prop) (s : σ) : Prop := M.LeadsIn ok M.init s

/-- Reached from the initial state. -/
def Reachable (s : σ) : Prop := M.Leads M.init s

/-- Run the machine over a list of labels, stopping at the first one that cannot happen. -/
def exec : σ → List ℓ → Option σ
  | s, [] => some s
  | s, l :: ls => (M.step s l).bind (fun s' => exec s' ls)

/-- `exec`, which also stops at the first step that does not meet `ok`. -/
def execIn (ok : σ → ℓ → Bool) : σ → List ℓ → Option σ
  | s, [] => some s
  | s, l :: ls => if ok s l then (M.step s l).bind (fun s' => execIn ok s' ls) else none

variable {M} {ok ok' : σ → ℓ → Prop} {s s' s'' : σ} {l : ℓ}

theorem LeadsIn.refl (s : σ) : M.LeadsIn ok s s := Relation.ReflTransGen.refl

theorem LeadsIn.snoc (h : M.LeadsIn ok s s') (hok : ok s' l) (hstep : M.step s' l = some s'') :
    M.LeadsIn ok s s'' :=
  h.tail ⟨l, hok, hstep⟩

theorem LeadsIn.trans (h : M.LeadsIn ok s s') (h' : M.LeadsIn ok s' s'') : M.LeadsIn ok s s'' :=
  Relation.ReflTransGen.trans h h'

theorem LeadsIn.single (hok : ok s l) (hstep : M.step s l = some s') : M.LeadsIn ok s s' :=
  (LeadsIn.refl s).snoc hok hstep

theorem Leads.refl (s : σ) : M.Leads s s := LeadsIn.refl s

theorem Leads.snoc (h : M.Leads s s') (hstep : M.step s' l = some s'') : M.Leads s s'' :=
  LeadsIn.snoc h trivial hstep

theorem Leads.trans (h : M.Leads s s') (h' : M.Leads s' s'') : M.Leads s s'' := LeadsIn.trans h h'

theorem Leads.single (hstep : M.step s l = some s') : M.Leads s s' :=
  (Leads.refl s).snoc hstep

theorem LeadsIn.mono (hmono : ∀ s l, ok s l → ok' s l) (h : M.LeadsIn ok s s') :
    M.LeadsIn ok' s s' :=
  Relation.ReflTransGen.mono (fun _ _ ⟨l, hok, hstep⟩ => ⟨l, hmono _ l hok, hstep⟩) _ _ h

theorem LeadsIn.leads (h : M.LeadsIn ok s s') : M.Leads s s' :=
  h.mono (fun _ _ _ => trivial)

theorem ReachableIn.reachable (h : M.ReachableIn ok s) : M.Reachable s := LeadsIn.leads h

theorem ReachableIn.snoc (h : M.ReachableIn ok s) (hok : ok s l) (hstep : M.step s l = some s') :
    M.ReachableIn ok s' :=
  LeadsIn.snoc h hok hstep

theorem Reachable.snoc (h : M.Reachable s) (hstep : M.step s l = some s') : M.Reachable s' :=
  LeadsIn.snoc h trivial hstep

theorem Reachable.trans (h : M.Reachable s) (h' : M.Leads s s') : M.Reachable s' :=
  LeadsIn.trans h h'

theorem reachable_init : M.Reachable M.init := LeadsIn.refl _

/-- A computed run is a run. -/
theorem leads_of_exec {ls : List ℓ} (h : M.exec s ls = some s') : M.Leads s s' := by
  induction ls generalizing s with
  | nil =>
      obtain rfl := Option.some.inj h
      exact LeadsIn.refl _
  | cons l rest ih =>
      obtain ⟨t, hstep, hrest⟩ := Option.bind_eq_some_iff.mp h
      exact (Leads.single hstep).trans (ih hrest)

/-- A computed run that checks `ok` at each step is a run inside `ok`. -/
theorem leadsIn_of_execIn {okb : σ → ℓ → Bool} {ls : List ℓ} (h : M.execIn okb s ls = some s') :
    M.LeadsIn (fun s l => okb s l = true) s s' := by
  induction ls generalizing s with
  | nil =>
      obtain rfl := Option.some.inj h
      exact LeadsIn.refl _
  | cons l rest ih =>
      simp only [execIn] at h
      split at h
      · next hok =>
          obtain ⟨t, hstep, hrest⟩ := Option.bind_eq_some_iff.mp h
          have hone : M.LeadsIn (fun s l => okb s l = true) s t := LeadsIn.single hok hstep
          exact hone.trans (ih hrest)
      · exact absurd h (by simp)

/-! ## Invariants -/

/-- What holds in `s` and is kept by every step of a run from `s` holds at its end. -/
theorem LeadsIn.invariant {I : σ → Prop} (h : M.LeadsIn ok s s') (hs : I s)
    (hstep : ∀ s l s', I s → ok s l → M.step s l = some s' → I s') : I s' := by
  induction h with
  | refl => exact hs
  | tail _ hnext ih =>
      obtain ⟨l, hok, hl⟩ := hnext
      exact hstep _ l _ ih hok hl

theorem Leads.invariant {I : σ → Prop} (h : M.Leads s s') (hs : I s)
    (hstep : ∀ s l s', I s → M.step s l = some s' → I s') : I s' :=
  LeadsIn.invariant h hs (fun s l s' hI _ hl => hstep s l s' hI hl)

theorem ReachableIn.invariant {I : σ → Prop} (h : M.ReachableIn ok s) (hinit : I M.init)
    (hstep : ∀ s l s', M.ReachableIn ok s → I s → ok s l → M.step s l = some s' → I s') :
    I s := by
  have key : M.ReachableIn ok s ∧ I s := by
    refine LeadsIn.invariant (I := fun s => M.ReachableIn ok s ∧ I s) h
      ⟨LeadsIn.refl _, hinit⟩ ?_
    rintro s l s' ⟨hr, hI⟩ hok hl
    exact ⟨hr.snoc hok hl, hstep s l s' hr hI hok hl⟩
  exact key.2

theorem Reachable.invariant {I : σ → Prop} (h : M.Reachable s) (hinit : I M.init)
    (hstep : ∀ s l s', M.Reachable s → I s → M.step s l = some s' → I s') : I s :=
  ReachableIn.invariant h hinit (fun s l s' hr hI _ hl => hstep s l s' hr hI hl)

/-- `Leads.invariant`, where the step may use how its start was reached. -/
theorem Leads.along {I : σ → Prop} (h : M.Leads s s') (hs : I s)
    (hstep : ∀ a l b, M.Leads s a → I a → M.step a l = some b → I b) : I s' := by
  have key : M.Leads s s' ∧ I s' := by
    refine Leads.invariant (I := fun a => M.Leads s a ∧ I a) h ⟨Leads.refl s, hs⟩ ?_
    rintro a l b ⟨ha, hI⟩ hl
    exact ⟨ha.snoc hl, hstep a l b ha hI hl⟩
  exact key.2

/-- A relation between the two ends of a run, from a step relation that is reflexive and
    transitive. -/
theorem Leads.rel {R : σ → σ → Prop} (h : M.Leads s s') (hrefl : ∀ s, R s s)
    (htrans : ∀ a b c, R a b → R b c → R a c)
    (hstep : ∀ s l s', M.step s l = some s' → R s s') : R s s' :=
  Leads.invariant (I := R s) h (hrefl s) (fun a l b hR hl => htrans s a b hR (hstep a l b hl))

/-! ## Progress -/

/-- Where some step inside `ok` brings `weight` down until `P` holds, some run inside `ok` leads to
    `P`. -/
theorem leadsIn_of_decreasing {β : Type*} [Preorder β] [WellFoundedLT β] {I P : σ → Prop}
    (weight : σ → β)
    (hstep : ∀ s, I s → P s ∨ ∃ l s', ok s l ∧ M.step s l = some s' ∧ I s' ∧ weight s' < weight s)
    (s : σ) (hs : I s) : ∃ s', M.LeadsIn ok s s' ∧ P s' := by
  induction hw : weight s using WellFoundedLT.induction generalizing s with
  | ind w ih =>
      rcases hstep s hs with hdone | ⟨l, next, hok, hl, hnext, hless⟩
      · exact ⟨s, LeadsIn.refl s, hdone⟩
      · obtain ⟨last, hlast, hdone⟩ := ih (weight next) (hw ▸ hless) next hnext rfl
        have hone : M.LeadsIn ok s next := LeadsIn.single hok hl
        exact ⟨last, hone.trans hlast, hdone⟩

/-! Where there are several kinds of work, and a step of one kind may make more of the kinds after it,
the weight is a lexicographic product: a step leaves less work of the first kind, or as much of it and
less of the later ones. -/

theorem lex_first {α β : Type*} [LT α] [LT β] {a a' : α} {b b' : β} (h : a' < a) :
    toLex (a', b') < toLex (a, b) :=
  Prod.Lex.toLex_lt_toLex.mpr (Or.inl h)

theorem lex_later {α β : Type*} [LT α] [LT β] {a a' : α} {b b' : β} (h : a' = a) (h' : b' < b) :
    toLex (a', b') < toLex (a, b) :=
  Prod.Lex.toLex_lt_toLex.mpr (Or.inr ⟨h, h'⟩)

/-! ## Two runs -/

/-- Under related labels the two machines step to related states, or neither of them steps. -/
structure Lockstep (M : Machine σ ℓ) (N : Machine τ κ) (R : σ → τ → Prop) (S : ℓ → κ → Prop) :
    Prop where
  init : R M.init N.init
  step : ∀ s t l k, R s t → S l k → Option.Rel R (M.step s l) (N.step t k)

/-- Related lists of labels are runs of both machines or of neither, and end in related states. -/
theorem Lockstep.runs {N : Machine τ κ} {R : σ → τ → Prop} {S : ℓ → κ → Prop} (h : Lockstep M N R S)
    {s : σ} {t : τ} {ls : List ℓ} {ks : List κ} (hst : R s t) (hls : List.Forall₂ S ls ks) :
    Option.Rel R (M.exec s ls) (N.exec t ks) := by
  induction hls generalizing s t with
  | nil => exact .some hst
  | @cons l k ls ks hlk _ ih =>
      have hstep := h.step s t l k hst hlk
      unfold exec
      cases hs : M.step s l with
      | none =>
          rw [hs] at hstep
          cases hstep' : N.step t k with
          | none => exact .none
          | some t' =>
              rw [hstep'] at hstep
              nomatch hstep
      | some s' =>
          rw [hs] at hstep
          cases ht : N.step t k with
          | none =>
              rw [ht] at hstep
              nomatch hstep
          | some t' =>
              rw [ht] at hstep
              cases hstep with
              | some hnext => exact ih hnext

/-! ## Components

A composite machine projects onto a component when each of its steps is a run of the component
on the component's part of the state. Reachability, and with it every invariant, then carries
over. -/

variable {N : Machine τ κ} {okN : τ → κ → Prop}

/-- Every step of `M` is, seen through `π`, a run of `N` inside `okN`. -/
structure Projects (M : Machine σ ℓ) (N : Machine τ κ) (π : σ → τ) (ok : σ → ℓ → Prop)
    (okN : τ → κ → Prop) : Prop where
  init : π M.init = N.init
  step : ∀ s l s', M.ReachableIn ok s → ok s l → M.step s l = some s' → N.LeadsIn okN (π s) (π s')

theorem Projects.reachableIn {π : σ → τ} (hπ : Projects M N π ok okN) (h : M.ReachableIn ok s) :
    N.ReachableIn okN (π s) := by
  refine ReachableIn.invariant (I := fun s => N.ReachableIn okN (π s)) h ?_ ?_
  · change N.LeadsIn okN N.init (π M.init)
    rw [hπ.init]
    exact LeadsIn.refl _
  · intro s l s' hr hI hok hl
    exact LeadsIn.trans hI (hπ.step s l s' hr hok hl)

end Machine
