import Mathlib.Data.List.Forall2
import Mathlib.Data.List.Nodup

set_option autoImplicit false

/-! # Loops that may throw

What a loop in `Except` has done when it comes to its end: an invariant of the part that has been
processed, for `foldlM`, and a result for every item, for `mapM`. -/

namespace Loops

variable {α β ε σ : Type}

theorem bind_eq_ok {x : Except ε α} {f : α → Except ε β} {b : β} :
    (x >>= f) = .ok b ↔ ∃ a, x = .ok a ∧ f a = .ok b := by
  cases x with
  | error e => exact ⟨nofun, nofun⟩
  | ok a =>
      constructor
      · exact fun h => ⟨a, rfl, h⟩
      · rintro ⟨a', ha, h⟩
        obtain rfl := Except.ok.inj ha
        exact h

theorem map_eq_ok {x : Except ε α} {f : α → β} {b : β} :
    x.map f = .ok b ↔ ∃ a, x = .ok a ∧ f a = b := by
  cases x with
  | error e => exact ⟨nofun, nofun⟩
  | ok a =>
      constructor
      · exact fun h => ⟨a, rfl, Except.ok.inj h⟩
      · rintro ⟨a', ha, rfl⟩
        obtain rfl := Except.ok.inj ha
        rfl

/-! ## Every item -/

theorem mapM_eq_ok {f : α → Except ε β} {items : List α} {results : List β} :
    items.mapM f = .ok results ↔ List.Forall₂ (fun item result => f item = .ok result) items results := by
  induction items generalizing results with
  | nil =>
      rw [List.mapM_nil, List.forall₂_nil_left_iff]
      exact ⟨fun h => (Except.ok.inj h).symm, fun h => by rw [h]; rfl⟩
  | cons item rest ih =>
      rw [List.mapM_cons, bind_eq_ok, List.forall₂_cons_left_iff]
      constructor
      · rintro ⟨first, hfirst, h⟩
        obtain ⟨later, hlater, hresults⟩ := bind_eq_ok.mp h
        exact ⟨first, later, hfirst, ih.mp hlater, (Except.ok.inj hresults).symm⟩
      · rintro ⟨first, later, hfirst, hlater, rfl⟩
        exact ⟨first, hfirst, bind_eq_ok.mpr ⟨later, ih.mpr hlater, rfl⟩⟩

/-- With a result for every item, the list has its results. -/
theorem exists_mapM {f : α → Except ε β} {items : List α}
    (h : ∀ item ∈ items, ∃ result, f item = .ok result) : ∃ results, items.mapM f = .ok results := by
  induction items with
  | nil => exact ⟨[], rfl⟩
  | cons item rest ih =>
      obtain ⟨first, hfirst⟩ := h item List.mem_cons_self
      obtain ⟨later, hlater⟩ := ih (fun other hother => h other (List.mem_cons_of_mem _ hother))
      rw [mapM_eq_ok] at hlater
      exact ⟨first :: later, mapM_eq_ok.mpr (.cons hfirst hlater)⟩

theorem forall₂_and_right {R : α → β → Prop} {P : β → Prop} {items : List α} {results : List β} :
    List.Forall₂ (fun item result => R item result ∧ P result) items results ↔
      List.Forall₂ R items results ∧ ∀ result ∈ results, P result := by
  induction items generalizing results with
  | nil => cases results <;> simp
  | cons item rest ih =>
      cases results with
      | nil => simp
      | cons result later =>
          rw [List.forall₂_cons, List.forall₂_cons, ih, List.forall_mem_cons]
          exact ⟨fun ⟨⟨h, hP⟩, hrest, hlater⟩ => ⟨⟨h, hrest⟩, hP, hlater⟩,
            fun ⟨⟨h, hrest⟩, hP, hlater⟩ => ⟨⟨h, hP⟩, hrest, hlater⟩⟩

/-! ## One item after the other -/

variable {f : σ → α → Except ε σ} (Inv : List α → σ → Prop)

/-- An invariant of what has been processed holds of the whole list in the end. -/
theorem foldlM_invariant {items : List α} {start final : σ} (hstart : Inv [] start)
    (hstep : ∀ done item state next, Inv done state → f state item = .ok next →
      Inv (done ++ [item]) next)
    (h : items.foldlM f start = .ok final) : Inv items final := by
  suffices hrun : ∀ rest done state, Inv done state → rest.foldlM f state = .ok final →
      Inv (done ++ rest) final from hrun items [] start hstart h
  intro rest
  induction rest with
  | nil =>
      intro done state hdone hfinal
      obtain rfl := Except.ok.inj hfinal
      rw [List.append_nil]
      exact hdone
  | cons item rest ih =>
      intro done state hdone hfinal
      rw [List.foldlM_cons] at hfinal
      obtain ⟨next, hnext, hrest⟩ := bind_eq_ok.mp hfinal
      have hlater := ih (done ++ [item]) next (hstep done item state next hdone hnext) hrest
      rwa [List.append_assoc] at hlater

/-- A loop comes to its end when the invariant lets it take every step. -/
theorem exists_foldlM {items : List α} {start : σ} (hstart : Inv [] start)
    (hstep : ∀ done item state next, Inv done state → f state item = .ok next →
      Inv (done ++ [item]) next)
    (hmore : ∀ done item rest state, items = done ++ item :: rest → Inv done state →
      ∃ next, f state item = .ok next) :
    ∃ final, items.foldlM f start = .ok final := by
  suffices hrun : ∀ rest done state, items = done ++ rest → Inv done state →
      ∃ final, rest.foldlM f state = .ok final from hrun items [] start rfl hstart
  intro rest
  induction rest with
  | nil => exact fun done state _ _ => ⟨state, rfl⟩
  | cons item rest ih =>
      intro done state hitems hdone
      obtain ⟨next, hnext⟩ := hmore done item rest state hitems hdone
      obtain ⟨final, hfinal⟩ := ih (done ++ [item]) next (by rw [hitems, List.append_assoc]; rfl)
        (hstep done item state next hdone hnext)
      exact ⟨final, by rw [List.foldlM_cons]; exact bind_eq_ok.mpr ⟨next, hnext, hfinal⟩⟩

/-- A loop that collects what it reads of the items, each with a key of its own, and checks it. -/
theorem foldlM_collect {κ : Type} {f : List β → α → Except ε (List β)} {read : α → Except ε β}
    {key : β → κ} {Valid : β → Prop}
    (hf : ∀ state item next, f state item = .ok next ↔
      ∃ result, read item = .ok result ∧ Valid result ∧ key result ∉ state.map key ∧
        next = state ++ [result])
    {items : List α} {results : List β} :
    items.foldlM f [] = .ok results ↔
      items.mapM read = .ok results ∧ (results.map key).Nodup ∧ ∀ result ∈ results, Valid result := by
  suffices hrun : ∀ state final, (state.map key).Nodup → (items.foldlM f state = .ok final ↔
      ∃ results, items.mapM read = .ok results ∧ final = state ++ results ∧ (final.map key).Nodup ∧
        ∀ result ∈ results, Valid result) by
    rw [hrun [] results List.nodup_nil]
    constructor
    · rintro ⟨collected, hread, rfl, hnodup, hvalid⟩
      exact ⟨hread, hnodup, hvalid⟩
    · rintro ⟨hread, hnodup, hvalid⟩
      exact ⟨results, hread, rfl, hnodup, hvalid⟩
  induction items with
  | nil =>
      intro state final hnodup
      rw [List.foldlM_nil, List.mapM_nil]
      constructor
      · intro h
        obtain rfl := Except.ok.inj h
        exact ⟨[], rfl, (List.append_nil state).symm, hnodup, by simp⟩
      · rintro ⟨results, hresults, rfl, _⟩
        obtain rfl := Except.ok.inj hresults
        rw [List.append_nil]
        rfl
  | cons item rest ih =>
      intro state final hnodup
      rw [List.foldlM_cons, List.mapM_cons, bind_eq_ok]
      constructor
      · rintro ⟨next, hnext, hfinal⟩
        obtain ⟨first, hfirst, hvalid, hnew, rfl⟩ := (hf state item next).mp hnext
        have hkeys : ((state ++ [first]).map key).Nodup := by
          rw [List.map_append, List.nodup_append]
          refine ⟨hnodup, List.nodup_singleton _, ?_⟩
          rintro k hk k' hk' rfl
          exact hnew (List.mem_singleton.mp hk' ▸ hk)
        obtain ⟨later, hlater, rfl, hall, hrest⟩ := (ih (state ++ [first]) final hkeys).mp hfinal
        refine ⟨first :: later, bind_eq_ok.mpr ⟨first, hfirst, bind_eq_ok.mpr ⟨later, hlater, rfl⟩⟩,
          by rw [List.append_assoc]; rfl, hall, ?_⟩
        intro result hresult
        rcases List.mem_cons.mp hresult with rfl | hin
        · exact hvalid
        · exact hrest result hin
      · rintro ⟨results, hresults, rfl, hall, hvalid⟩
        obtain ⟨first, hfirst, hmore⟩ := bind_eq_ok.mp hresults
        obtain ⟨later, hlater, heq⟩ := bind_eq_ok.mp hmore
        obtain rfl := Except.ok.inj heq
        have hsplit : state ++ first :: later = (state ++ [first]) ++ later := by
          rw [List.append_assoc]
          rfl
        rw [hsplit, List.map_append, List.nodup_append] at hall
        have hnew : key first ∉ state.map key := by
          have hfirstKeys := hall.1
          rw [List.map_append, List.nodup_append] at hfirstKeys
          exact fun hmem => hfirstKeys.2.2 _ hmem _ (List.mem_singleton.mpr rfl) rfl
        refine ⟨state ++ [first], (hf state item _).mpr
          ⟨first, hfirst, hvalid first List.mem_cons_self, hnew, rfl⟩, ?_⟩
        refine (ih (state ++ [first]) _ hall.1).mpr ⟨later, hlater, hsplit, ?_, ?_⟩
        · rw [hsplit, List.map_append, List.nodup_append]
          exact hall
        · exact fun result hresult => hvalid result (List.mem_cons_of_mem _ hresult)

end Loops
