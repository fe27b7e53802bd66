import SecureMcp.Lib.Loops
import Mathlib.Data.List.Perm.Basic

set_option autoImplicit false

/-! # Lists with related items in any order

`Shuffled R` pairs the items of two lists, each with one related to it, wherever that stands. -/

/-- The items of the lists are related in pairs, in some order. -/
def Shuffled {α β : Type} (R : α → β → Prop) (items : List α) (items' : List β) : Prop :=
  ∃ middle, List.Forall₂ R items middle ∧ middle.Perm items'

namespace Shuffled

variable {α β γ δ ε : Type} {R : α → β → Prop} {S : γ → δ → Prop} {items : List α} {items' : List β}

theorem refl {R : α → α → Prop} (h : ∀ a ∈ items, R a a) : Shuffled R items items :=
  ⟨items, List.forall₂_same.mpr h, List.Perm.refl items⟩

theorem symm (h : Shuffled R items items') : Shuffled (fun b a => R a b) items' items := by
  obtain ⟨middle, hrelated, hperm⟩ := h
  obtain ⟨middle', hrelated', hperm'⟩ := List.perm_comp_forall₂ hperm.symm hrelated.flip
  exact ⟨middle', hrelated', hperm'⟩

theorem imp {R' : α → β → Prop} (h : Shuffled R items items') (himp : ∀ a b, R a b → R' a b) :
    Shuffled R' items items' := by
  obtain ⟨middle, hrelated, hperm⟩ := h
  exact ⟨middle, hrelated.imp himp, hperm⟩

theorem cons (h : Shuffled R items items') {a : α} {b : β} (hab : R a b) :
    Shuffled R (a :: items) (b :: items') := by
  obtain ⟨middle, hrelated, hperm⟩ := h
  exact ⟨b :: middle, .cons hab hrelated, hperm.cons b⟩

theorem map (h : Shuffled R items items') {f : α → γ} {g : β → δ} (hS : ∀ a b, R a b → S (f a) (g b)) :
    Shuffled S (items.map f) (items'.map g) := by
  obtain ⟨middle, hrelated, hperm⟩ := h
  refine ⟨middle.map g, ?_, hperm.map g⟩
  rw [List.forall₂_map_left_iff, List.forall₂_map_right_iff]
  exact hrelated.imp hS

theorem map_right (h : Shuffled R items items') {g : β → γ} {T : α → γ → Prop}
    (hT : ∀ a b, R a b → T a (g b)) : Shuffled T items (items'.map g) := by
  have hmap := h.map (f := id) (g := g) hT
  rwa [List.map_id] at hmap

theorem comp {T : β → γ → Prop} {items'' : List γ} (h : Shuffled R items items')
    (h' : Shuffled T items' items'') : Shuffled (fun a c => ∃ b, R a b ∧ T b c) items items'' := by
  obtain ⟨middle, hrelated, hperm⟩ := h
  obtain ⟨middle', hrelated', hperm'⟩ := h'
  obtain ⟨found, hfound, hperm''⟩ := List.perm_comp_forall₂ hperm hrelated'
  refine ⟨found, ?_, hperm''.trans hperm'⟩
  clear hperm hperm' hperm'' hrelated'
  induction hrelated generalizing found with
  | nil =>
      rw [List.forall₂_nil_left_iff.mp hfound]
      exact .nil
  | cons hfirst _ ih =>
      obtain ⟨c, later, hc, hlater, rfl⟩ := List.forall₂_cons_left_iff.mp hfound
      exact .cons ⟨_, hfirst, hc⟩ (ih later hlater)

/-- Partners that are one to one are without duplicates when the items are. -/
theorem nodup (h : Shuffled R items items') (hunique : Relator.BiUnique R) (hnodup : items.Nodup) :
    items'.Nodup := by
  obtain ⟨middle, hrelated, hperm⟩ := h
  exact hperm.nodup_iff.mp ((List.rel_nodup hunique hrelated).mp hnodup)

/-- Every item has a partner. -/
theorem exists_mem (h : Shuffled R items items') {a : α} (ha : a ∈ items) : ∃ b ∈ items', R a b := by
  obtain ⟨middle, hrelated, hperm⟩ := h
  obtain ⟨b, hb, hab⟩ : ∃ b ∈ middle, R a b := by
    clear hperm
    induction hrelated with
    | nil => exact absurd ha (by simp)
    | @cons first first' rest rest' hfirst _ ih =>
        rcases List.mem_cons.mp ha with rfl | hlater
        · exact ⟨first', List.mem_cons_self, hfirst⟩
        · obtain ⟨b, hb, hab⟩ := ih hlater
          exact ⟨b, List.mem_cons_of_mem _ hb, hab⟩
  exact ⟨b, hperm.subset hb, hab⟩

theorem exists_mem' (h : Shuffled R items items') {b : β} (hb : b ∈ items') : ∃ a ∈ items, R a b :=
  h.symm.exists_mem hb

/-- When every item of one list has a result, then so has every item of the other. -/
theorem exists_mapM (h : Shuffled R items items') {f : α → Except ε γ} {g : β → Except ε δ}
    (hf : ∀ a b c, R a b → f a = .ok c → ∃ d, g b = .ok d ∧ S c d) {results : List γ}
    (hresults : items.mapM f = .ok results) :
    ∃ results', items'.mapM g = .ok results' ∧ Shuffled S results results' := by
  obtain ⟨middle, hrelated, hperm⟩ := h
  rw [Loops.mapM_eq_ok] at hresults
  obtain ⟨found, hfound, hS⟩ : ∃ found, List.Forall₂ (fun b d => g b = .ok d) middle found ∧
      List.Forall₂ S results found := by
    clear hperm
    induction hrelated generalizing results with
    | nil =>
        rw [List.forall₂_nil_left_iff] at hresults
        exact ⟨[], .nil, by rw [hresults]; exact .nil⟩
    | cons hfirst _ ih =>
        obtain ⟨result, later, hresult, hlater, rfl⟩ := List.forall₂_cons_left_iff.mp hresults
        obtain ⟨d, hd, hcd⟩ := hf _ _ _ hfirst hresult
        obtain ⟨found, hfound, hS⟩ := ih hlater
        exact ⟨d :: found, .cons hd hfound, .cons hcd hS⟩
  obtain ⟨found', hfound', hperm'⟩ := List.perm_comp_forall₂ hperm.symm hfound
  exact ⟨found', Loops.mapM_eq_ok.mpr hfound', found, hS, hperm'.symm⟩

end Shuffled
