import Mathlib.Data.List.Nodup
import Mathlib.Tactic.Common

set_option autoImplicit false

/-! # Lists used as tables

Calls, requests and connections are numbered in the order they appear, and a table of them is a
list indexed by that number: a new row is appended, an old one is replaced with `List.set`. These
are the facts about the two updates that the invariants of such tables need, and the facts about
a duplicate-free list of row numbers kept next to a table, as a `Set` of unfinished rows is. -/

namespace Table

variable {α : Type*} {rows : List α} {i j : Nat} {a b old : α} {p : α → Bool}

/-! ## Looking up after an update -/

theorem lt_of_getElem? (h : rows[i]? = some a) : i < rows.length :=
  (List.getElem?_eq_some_iff.mp h).1

theorem getElem?_append_of_some (h : rows[i]? = some b) : (rows ++ [a])[i]? = some b := by
  rw [List.getElem?_append_left (lt_of_getElem? h)]
  exact h

theorem getElem?_append_cases (h : (rows ++ [a])[i]? = some b) :
    rows[i]? = some b ∨ (i = rows.length ∧ b = a) := by
  rcases Nat.lt_or_ge i rows.length with hlt | hge
  · rw [List.getElem?_append_left hlt] at h
    exact Or.inl h
  · rw [List.getElem?_append_right hge] at h
    have hi : i - rows.length = 0 := by
      have := lt_of_getElem? h
      simp only [List.length_singleton] at this
      omega
    rw [hi] at h
    exact Or.inr ⟨by omega, (Option.some.inj h).symm⟩

theorem getElem?_set_of_some (h : rows[i]? = some old) : (rows.set i a)[i]? = some a :=
  List.getElem?_set_self (lt_of_getElem? h)

theorem getElem?_set_cases (h : (rows.set i a)[j]? = some b) :
    (j = i ∧ b = a) ∨ (j ≠ i ∧ rows[j]? = some b) := by
  rw [List.getElem?_set] at h
  split at h
  · next hij =>
      split at h
      · exact Or.inl ⟨hij.symm, (Option.some.inj h).symm⟩
      · exact absurd h (by simp)
  · next hij => exact Or.inr ⟨fun hji => hij hji.symm, h⟩

theorem getElem?_set_of_ne (hij : j ≠ i) : (rows.set i a)[j]? = rows[j]? := by
  rw [List.getElem?_set, if_neg (fun h => hij h.symm)]

/-- A row has the same number in a table that goes on. -/
theorem getElem?_of_prefix {longer : List α} (h : rows <+: longer) (hi : rows[i]? = some a) :
    longer[i]? = some a := by
  obtain ⟨more, rfl⟩ := h
  rw [List.getElem?_append_left (lt_of_getElem? hi)]
  exact hi

/-! ## Facts about every row -/

/-- A fact about every numbered row survives an append when the new row has it. -/
theorem forall_append {P : Nat → α → Prop} (h : ∀ j b, rows[j]? = some b → P j b)
    (hnew : P rows.length a) : ∀ j b, (rows ++ [a])[j]? = some b → P j b := by
  intro j b hj
  rcases getElem?_append_cases hj with hold | ⟨rfl, rfl⟩
  · exact h j b hold
  · exact hnew

/-- A fact about every numbered row survives a replacement when the new row has it. -/
theorem forall_set {P : Nat → α → Prop} (h : ∀ j b, rows[j]? = some b → P j b) (hnew : P i a) :
    ∀ j b, (rows.set i a)[j]? = some b → P j b := by
  intro j b hj
  rcases getElem?_set_cases hj with ⟨rfl, rfl⟩ | ⟨_, hold⟩
  · exact hnew
  · exact h j b hold

/-- The row that is replaced need not have kept the fact. -/
theorem forall_set_of_ne {P : Nat → α → Prop} (h : ∀ j b, j ≠ i → rows[j]? = some b → P j b)
    (hnew : P i a) : ∀ j b, (rows.set i a)[j]? = some b → P j b := by
  intro j b hj
  rcases getElem?_set_cases hj with ⟨rfl, rfl⟩ | ⟨hne, hold⟩
  · exact hnew
  · exact h j b hne hold

/-- A fact about every numbered row survives a pass over the table that keeps it. -/
theorem forall_mapIdx {P : Nat → α → Prop} {f : Nat → α → α}
    (h : ∀ j b, rows[j]? = some b → P j b) (hf : ∀ j b, rows[j]? = some b → P j b → P j (f j b)) :
    ∀ j b, (rows.mapIdx f)[j]? = some b → P j b := by
  intro j b hj
  rw [List.getElem?_mapIdx] at hj
  obtain ⟨a, ha, rfl⟩ := Option.map_eq_some_iff.mp hj
  exact hf j a ha (h j a ha)

/-! ## Counting rows -/

theorem countP_append_one :
    (rows ++ [a]).countP p = rows.countP p + if p a then 1 else 0 := by
  simp [List.countP_append, List.countP_cons]

/-- Replacing a row changes a count by what the old and the new row contribute. -/
theorem countP_set (h : rows[i]? = some old) :
    (rows.set i a).countP p + (if p old then 1 else 0)
      = rows.countP p + (if p a then 1 else 0) := by
  obtain ⟨hlt, hget⟩ := List.getElem?_eq_some_iff.mp h
  rw [List.countP_set hlt, hget]
  have hle : (if p old then 1 else 0) ≤ rows.countP p := by
    split
    · next hp =>
        exact List.countP_pos_iff.mpr ⟨old, List.mem_of_getElem? h, hp⟩
    · exact Nat.zero_le _
  omega

theorem countP_set_of_eq (h : rows[i]? = some old) (hp : p a = p old) :
    (rows.set i a).countP p = rows.countP p := by
  have := countP_set (a := a) (p := p) h
  rw [hp] at this
  omega

/-- A count splits over two exclusive reasons. -/
theorem countP_eq_add {q r : α → Bool}
    (h : ∀ b ∈ rows, p b = (q b || r b) ∧ (q b && r b) = false) :
    rows.countP p = rows.countP q + rows.countP r := by
  induction rows with
  | nil => rfl
  | cons b rest ih =>
      obtain ⟨hp, hexclusive⟩ := h b List.mem_cons_self
      have hrest := ih (fun c hc => h c (List.mem_cons_of_mem b hc))
      simp only [List.countP_cons, hrest, hp]
      cases hq : q b with
      | false =>
          simp only [Bool.false_or, Bool.false_eq_true, if_false]
          omega
      | true =>
          rw [hq, Bool.true_and] at hexclusive
          simp only [hexclusive, Bool.or_false, if_true, Bool.false_eq_true, if_false]
          omega

theorem countP_mapIdx {f : Nat → α → α} (hf : ∀ j b, p (f j b) = p b) :
    (rows.mapIdx f).countP p = rows.countP p := by
  rw [List.mapIdx_eq_zipIdx_map, List.countP_map]
  have hcomp : (p ∘ fun b : α × Nat => f b.2 b.1) = p ∘ Prod.fst := by
    funext b
    exact hf b.2 b.1
  rw [show (fun (x : α × Nat) => f x.2 x.1) = fun b : α × Nat => f b.2 b.1 from rfl, hcomp,
    ← List.countP_map, List.zipIdx_map_fst]

theorem countP_eq_zero_of_forall (h : ∀ (j : Nat) b, rows[j]? = some b → p b = false) :
    rows.countP p = 0 := by
  rw [List.countP_eq_zero]
  intro b hb
  obtain ⟨j, hj⟩ := List.getElem?_of_mem hb
  simp [h j b hj]

/-! ## Numbers held by rows -/

theorem length_flatMap_le {f : α → List Nat} {k : Nat}
    (h : ∀ b ∈ rows, (f b).length ≤ if p b then k else 0) :
    (rows.flatMap f).length ≤ k * rows.countP p := by
  induction rows with
  | nil => simp
  | cons b rest ih =>
      have hb := h b List.mem_cons_self
      have hrest := ih (fun c hc => h c (List.mem_cons_of_mem b hc))
      rw [List.flatMap_cons, List.length_append, List.countP_cons, Nat.mul_add]
      split at hb
      · next hp =>
          rw [if_pos hp]
          omega
      · next hp =>
          rw [if_neg hp]
          omega

/-- Distinct numbers, each held by a row that satisfies `p`, where no row holds more than `k`. -/
theorem length_le_of_held {f : α → List Nat} {k : Nat} {ids : List Nat} (hnodup : ids.Nodup)
    (hheld : ∀ i ∈ ids, ∃ b ∈ rows, i ∈ f b)
    (hbound : ∀ b ∈ rows, (f b).length ≤ if p b then k else 0) :
    ids.length ≤ k * rows.countP p := by
  have hsub : ids ⊆ rows.flatMap f := by
    intro i hi
    obtain ⟨b, hb, hmem⟩ := hheld i hi
    exact List.mem_flatMap.mpr ⟨b, hb, hmem⟩
  exact Nat.le_trans (hnodup.length_le_of_subset hsub) (length_flatMap_le hbound)

/-! ## A set of row numbers beside a table -/

/-- `ids` lists, without duplicates, exactly the rows that satisfy `p`. -/
structure Lists (ids : List Nat) (rows : List α) (p : α → Bool) : Prop where
  nodup : ids.Nodup
  mem : ∀ i, i ∈ ids ↔ ∃ a, rows[i]? = some a ∧ p a = true
  length : ids.length = rows.countP p

variable {ids : List Nat}

theorem Lists.nil : Lists [] ([] : List α) p := ⟨List.nodup_nil, by simp, rfl⟩

theorem Lists.lt (h : Lists ids rows p) (hi : i ∈ ids) : i < rows.length :=
  let ⟨_, ha, _⟩ := (h.mem i).mp hi
  lt_of_getElem? ha

/-- A new row that does not satisfy `p` leaves the set as it is. -/
theorem Lists.append_out (h : Lists ids rows p) (ha : p a = false) : Lists ids (rows ++ [a]) p := by
  refine ⟨h.nodup, fun i => ?_, ?_⟩
  · rw [h.mem]
    constructor
    · rintro ⟨b, hb, hp⟩
      exact ⟨b, getElem?_append_of_some hb, hp⟩
    · rintro ⟨b, hb, hp⟩
      rcases getElem?_append_cases hb with hold | ⟨_, rfl⟩
      · exact ⟨b, hold, hp⟩
      · rw [ha] at hp
        exact absurd hp (by simp)
  · rw [countP_append_one, ha, h.length]
    simp

/-- A new row that satisfies `p` enters the set. -/
theorem Lists.append_in (h : Lists ids rows p) (ha : p a = true) :
    Lists (ids ++ [rows.length]) (rows ++ [a]) p := by
  refine ⟨?_, fun i => ?_, ?_⟩
  · rw [List.nodup_append]
    refine ⟨h.nodup, List.nodup_singleton _, ?_⟩
    rintro x hx y hy rfl
    rw [List.mem_singleton] at hy
    have := h.lt hx
    omega
  · rw [List.mem_append, h.mem, List.mem_singleton]
    constructor
    · rintro (⟨b, hb, hp⟩ | rfl)
      · exact ⟨b, getElem?_append_of_some hb, hp⟩
      · exact ⟨a, List.getElem?_concat_length, ha⟩
    · rintro ⟨b, hb, hp⟩
      rcases getElem?_append_cases hb with hold | ⟨rfl, _⟩
      · exact Or.inl ⟨b, hold, hp⟩
      · exact Or.inr rfl
  · rw [countP_append_one, ha, List.length_append, h.length]
    simp

/-- Replacing a row by one with the same verdict leaves the set as it is. -/
theorem Lists.set_same (h : Lists ids rows p) (hi : rows[i]? = some old) (ha : p a = p old) :
    Lists ids (rows.set i a) p := by
  refine ⟨h.nodup, fun j => ?_, ?_⟩
  · rw [h.mem]
    constructor
    · rintro ⟨b, hb, hp⟩
      by_cases hji : j = i
      · subst hji
        rw [hi] at hb
        obtain rfl := Option.some.inj hb
        exact ⟨a, getElem?_set_of_some hi, ha.trans hp⟩
      · exact ⟨b, by rw [getElem?_set_of_ne hji]; exact hb, hp⟩
    · rintro ⟨b, hb, hp⟩
      rcases getElem?_set_cases hb with ⟨rfl, rfl⟩ | ⟨_, hold⟩
      · exact ⟨old, hi, ha.symm.trans hp⟩
      · exact ⟨b, hold, hp⟩
  · rw [countP_set_of_eq hi ha, h.length]

/-- A row that stops satisfying `p` leaves the set. -/
theorem Lists.set_erase (h : Lists ids rows p) (hi : rows[i]? = some old) (hold : p old = true)
    (ha : p a = false) : Lists (ids.erase i) (rows.set i a) p := by
  have hmem : i ∈ ids := (h.mem i).mpr ⟨old, hi, hold⟩
  refine ⟨h.nodup.erase i, fun j => ?_, ?_⟩
  · rw [h.nodup.mem_erase_iff, h.mem]
    constructor
    · rintro ⟨hji, b, hb, hp⟩
      exact ⟨b, by rw [getElem?_set_of_ne hji]; exact hb, hp⟩
    · rintro ⟨b, hb, hp⟩
      rcases getElem?_set_cases hb with ⟨rfl, rfl⟩ | ⟨hji, hb'⟩
      · rw [ha] at hp
        exact absurd hp (by simp)
      · exact ⟨hji, b, hb', hp⟩
  · have hcount := countP_set (a := a) (p := p) hi
    rw [hold, ha] at hcount
    have hlen := h.length
    rw [List.length_erase_of_mem hmem]
    simp only [if_true, Bool.false_eq_true, if_false] at hcount
    omega

/-- A pass over the table that changes no verdict leaves the set as it is. -/
theorem Lists.mapIdx (h : Lists ids rows p) {f : Nat → α → α} (hf : ∀ j b, p (f j b) = p b) :
    Lists ids (rows.mapIdx f) p := by
  refine ⟨h.nodup, fun i => ?_, ?_⟩
  · rw [h.mem, List.getElem?_mapIdx]
    constructor
    · intro hold
      obtain ⟨b, hb, hp⟩ := hold
      exact ⟨f i b, by rw [hb]; rfl, (hf i b).trans hp⟩
    · intro hnew
      obtain ⟨b, hb, hp⟩ := hnew
      obtain ⟨a, ha, rfl⟩ := Option.map_eq_some_iff.mp hb
      exact ⟨a, ha, (hf i a).symm.trans hp⟩
  · rw [countP_mapIdx hf, h.length]

end Table
