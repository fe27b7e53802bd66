import Mathlib

set_option autoImplicit false

/-! # Tallies

A list whose elements fall into numbered classes weighs what its classes weigh together
(`sum_classes`), and a family of amounts is bounded by another one as soon as every positive amount is
covered by an owner of its own (`sum_le_of_owner`). Together they bound what is in one place by what
its owners may have there. -/

namespace Tally

open Finset (range)

variable {α : Type*}

/-- The weights of the classes add up to that of the list. -/
theorem sum_classes (f w : α → ℕ) {n : ℕ} {l : List α} (h : ∀ a ∈ l, f a < n) :
    ∑ y ∈ range n, ((l.filter (fun a => f a == y)).map w).sum = (l.map w).sum := by
  induction l with
  | nil => simp
  | cons a rest ih =>
      have hrest := ih (fun b hb => h b (List.mem_cons_of_mem _ hb))
      have hclass : ∀ y, (((a :: rest).filter (fun b => f b == y)).map w).sum =
          (if f a = y then w a else 0) + ((rest.filter (fun b => f b == y)).map w).sum := by
        intro y
        by_cases hy : f a = y
        · rw [List.filter_cons_of_pos (by simpa using hy), if_pos hy, List.map_cons, List.sum_cons]
        · rw [List.filter_cons_of_neg (by simpa using hy), if_neg hy, Nat.zero_add]
      simp only [hclass, Finset.sum_add_distrib, hrest, List.map_cons, List.sum_cons]
      rw [Finset.sum_ite_eq, if_pos (Finset.mem_range.mpr (h a List.mem_cons_self))]

/-- The lengths of the classes add up to that of the list. -/
theorem length_classes (f : α → ℕ) {n : ℕ} {l : List α} (h : ∀ a ∈ l, f a < n) :
    ∑ y ∈ range n, l.countP (fun a => f a == y) = l.length := by
  have hsum := sum_classes f (fun _ => 1) h
  simpa [List.countP_eq_length_filter] using hsum

/-- Every positive amount has an owner that covers it, and no two of them have the same one. -/
theorem sum_le_of_owner {m n : ℕ} (w p owner : ℕ → ℕ)
    (hcover : ∀ y < n, 0 < w y → owner y < m ∧ w y ≤ p (owner y))
    (hinj : ∀ y < n, ∀ y' < n, 0 < w y → 0 < w y' → owner y = owner y' → y = y') :
    ∑ y ∈ range n, w y ≤ ∑ c ∈ range m, p c := by
  have hmem : ∀ y, y ∈ (range n).filter (fun y => w y ≠ 0) ↔ y < n ∧ 0 < w y := by
    intro y
    rw [Finset.mem_filter, Finset.mem_range, Nat.pos_iff_ne_zero]
  calc ∑ y ∈ range n, w y
      = ∑ y ∈ (range n).filter (fun y => w y ≠ 0), w y := (Finset.sum_filter_ne_zero _).symm
    _ ≤ ∑ y ∈ (range n).filter (fun y => w y ≠ 0), p (owner y) := by
        refine Finset.sum_le_sum (fun y hy => ?_)
        obtain ⟨hlt, hpos⟩ := (hmem y).mp hy
        exact (hcover y hlt hpos).2
    _ = ∑ c ∈ ((range n).filter (fun y => w y ≠ 0)).image owner, p c := by
        refine (Finset.sum_image (fun y hy y' hy' hsame => ?_)).symm
        obtain ⟨hlt, hpos⟩ := (hmem y).mp hy
        obtain ⟨hlt', hpos'⟩ := (hmem y').mp hy'
        exact hinj y hlt y' hlt' hpos hpos' hsame
    _ ≤ ∑ c ∈ range m, p c := by
        refine Finset.sum_le_sum_of_subset (fun c hc => ?_)
        obtain ⟨y, hy, rfl⟩ := Finset.mem_image.mp hc
        obtain ⟨hlt, hpos⟩ := (hmem y).mp hy
        exact Finset.mem_range.mpr (hcover y hlt hpos).1

/-- A sum over a list is one over its places. -/
theorem sum_places (f : α → ℕ) (l : List α) :
    ∑ i ∈ range l.length, (l[i]?).elim 0 f = (l.map f).sum := by
  induction l with
  | nil => simp
  | cons a rest ih =>
      rw [List.length_cons, Finset.sum_range_succ', List.map_cons, List.sum_cons, Nat.add_comm, ← ih]
      rfl

/-- An element is replaced. -/
theorem sum_set (f : α → ℕ) {l : List α} {i : ℕ} {a : α} (b : α) (h : l[i]? = some a) :
    ((l.set i b).map f).sum + f a = (l.map f).sum + f b := by
  induction l generalizing i with
  | nil => exact absurd h (by simp)
  | cons c rest ih =>
      cases i with
      | zero =>
          obtain rfl := Option.some.inj h
          rw [List.set_cons_zero, List.map_cons, List.map_cons, List.sum_cons, List.sum_cons]
          omega
      | succ i =>
          have hrest := ih (i := i) h
          rw [List.set_cons_succ, List.map_cons, List.map_cons, List.sum_cons, List.sum_cons]
          omega

end Tally
