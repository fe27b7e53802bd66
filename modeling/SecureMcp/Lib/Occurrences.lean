import Mathlib.Data.List.Basic
import Mathlib.Tactic.Common

set_option autoImplicit false

/-! # The k-th element of a kind

In a log to which several sources write, an entry is known by its source and by how many entries of
that source come before it. `IsNth rows p k i a` says that `a` is at position `i` and is the `k`-th
(from zero) of the elements that satisfy `p`. -/

namespace Occurrences

variable {α : Type*} {rows more : List α} {p : α → Bool} {k l i j : Nat} {a b : α}

/-- At position `i` is `a`, the `k`-th element of its kind. -/
def IsNth (rows : List α) (p : α → Bool) (k i : Nat) (a : α) : Prop :=
  rows[i]? = some a ∧ p a = true ∧ (rows.take i).countP p = k

/-- Elements of the kind before a position and at it. -/
theorem IsNth.countP_lt (h : IsNth rows p k i a) (hij : i < j) : k < (rows.take j).countP p := by
  obtain ⟨hi, hp, hk⟩ := h
  have hsplit : rows.take (i + 1) = rows.take i ++ [a] := by
    rw [List.take_add_one, hi]
    rfl
  have hone : (rows.take (i + 1)).countP p = k + 1 := by
    rw [hsplit, List.countP_append, hk]
    simp [hp]
  have hsub : (rows.take (i + 1)).countP p ≤ (rows.take j).countP p :=
    ((List.take_prefix_take_left (by omega)).sublist).countP_le
  omega

/-- A later element of the kind comes at a later position. -/
theorem IsNth.lt (hi : IsNth rows p k i a) (hj : IsNth rows p l j b) (hkl : k < l) : i < j := by
  by_contra hle
  rcases Nat.lt_or_ge j i with hlt | hge
  · have hcount := hj.countP_lt hlt
    have hk := hi.2.2
    omega
  · have heq : i = j := by omega
    subst heq
    have hk := hi.2.2
    have hl := hj.2.2
    omega

/-- The `k`-th element of a kind has one position. -/
theorem IsNth.unique (hi : IsNth rows p k i a) (hj : IsNth rows p k j b) : i = j := by
  rcases Nat.lt_trichotomy i j with hlt | heq | hgt
  · have hcount := hi.countP_lt hlt
    have hk := hj.2.2
    omega
  · exact heq
  · have hcount := hj.countP_lt hgt
    have hk := hi.2.2
    omega

/-- Where there are more than `k` elements of the kind, there is a `k`-th. -/
theorem exists_isNth (rows : List α) (p : α → Bool) (k : Nat) (h : k < rows.countP p) :
    ∃ i a, IsNth rows p k i a := by
  induction rows generalizing k with
  | nil => exact absurd h (by simp)
  | cons first rest ih =>
      by_cases hp : p first = true
      · cases k with
        | zero => exact ⟨0, first, rfl, hp, rfl⟩
        | succ k =>
            rw [List.countP_cons_of_pos hp] at h
            obtain ⟨i, a, hi, ha, hk⟩ := ih k (Nat.lt_of_succ_lt_succ h)
            exact ⟨i + 1, a, hi, ha, by rw [List.take_succ_cons, List.countP_cons_of_pos hp, hk]⟩
      · rw [List.countP_cons_of_neg hp] at h
        obtain ⟨i, a, hi, ha, hk⟩ := ih k h
        exact ⟨i + 1, a, hi, ha, by rw [List.take_succ_cons, List.countP_cons_of_neg hp, hk]⟩

/-- The `k`-th element of a kind is the `k`-th of the list of that kind. -/
theorem IsNth.filter (h : IsNth rows p k i a) : (rows.filter p)[k]? = some a := by
  obtain ⟨hi, hp, hk⟩ := h
  have hsplit : rows = rows.take i ++ a :: rows.drop (i + 1) := by
    obtain ⟨hlt, hget⟩ := List.getElem?_eq_some_iff.mp hi
    rw [← hget, ← List.drop_eq_getElem_cons hlt, List.take_append_drop]
  rw [hsplit, List.filter_append, List.filter_cons_of_pos hp]
  have hlength : ((rows.take i).filter p).length = k := by rw [← List.countP_eq_length_filter, hk]
  rw [List.getElem?_append_right (by omega), hlength]
  simp

/-- An element keeps its place when the list grows. -/
theorem IsNth.append (h : IsNth rows p k i a) : IsNth (rows ++ more) p k i a := by
  obtain ⟨hi, hp, hk⟩ := h
  have hlt : i < rows.length := (List.getElem?_eq_some_iff.mp hi).1
  refine ⟨?_, hp, ?_⟩
  · rw [List.getElem?_append_left hlt]
    exact hi
  · rw [List.take_append_of_le_length (Nat.le_of_lt hlt)]
    exact hk

end Occurrences
