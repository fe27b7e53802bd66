import Mathlib.Data.List.Sort

set_option autoImplicit false

/-! # Maps, sets and sorted lists

A `Map` from a key that its values carry, as the list of the values in the order of insertion; a
`Set` of the items of a list; and the list that sorting makes of either. -/

/-! ## Maps -/

namespace Keyed

variable {κ β : Type} [DecidableEq κ] (key : β → κ) {records : List β} {record : β} {k : κ}

/-- `map.get(k)`. -/
def get (records : List β) (k : κ) : Option β := records.find? (fun record => key record = k)

/-- `map.set(key(record), record)`: in the place of a record with this key, or at the end. -/
def set (records : List β) (record : β) : List β :=
  match records with
  | [] => [record]
  | first :: rest => if key first = key record then record :: rest else first :: set rest record

variable {key}

theorem key_of_get (h : get key records k = some record) : key record = k := by
  simpa using List.find?_some h

theorem mem_of_get (h : get key records k = some record) : record ∈ records := List.mem_of_find?_eq_some h

theorem get_eq_none_iff : get key records k = none ↔ ∀ record ∈ records, key record ≠ k := by
  simp [get]

/-- With one record for each key, `get` finds all of them. -/
theorem get_eq_some_iff (h : (records.map key).Nodup) :
    get key records k = some record ↔ record ∈ records ∧ key record = k := by
  constructor
  · exact fun hget => ⟨mem_of_get hget, key_of_get hget⟩
  · rintro ⟨hmem, hkey⟩
    induction records with
    | nil => exact absurd hmem (by simp)
    | cons first rest ih =>
        rw [List.map_cons, List.nodup_cons] at h
        rcases List.mem_cons.mp hmem with rfl | hlater
        · simp [get, hkey]
        · have hne : key first ≠ k := by
            intro heq
            rw [heq, ← hkey] at h
            exact h.1 (List.mem_map_of_mem hlater)
          have hrest := ih h.2 hlater
          unfold get at hrest ⊢
          rw [List.find?_cons_of_neg (by simpa using hne), hrest]

theorem get_isNone_iff : (get key records k).isNone = true ↔ k ∉ records.map key := by
  rw [Option.isNone_iff_eq_none, get_eq_none_iff, List.mem_map]
  exact ⟨fun h ⟨record, hmem, heq⟩ => h record hmem heq, fun h record hmem heq => h ⟨record, hmem, heq⟩⟩

theorem get_isSome_iff : (get key records k).isSome = true ↔ ∃ record ∈ records, key record = k := by
  simp [get, List.find?_isSome]

/-- A new key comes at the end. -/
theorem set_of_not_mem (h : key record ∉ records.map key) :
    set key records record = records ++ [record] := by
  induction records with
  | nil => rfl
  | cons first rest ih =>
      rw [List.map_cons, List.mem_cons, not_or] at h
      rw [set, if_neg (fun heq => h.1 heq.symm), ih h.2, List.cons_append]

theorem get_set (records : List β) (record : β) (k : κ) :
    get key (set key records record) k = if key record = k then some record else get key records k := by
  induction records with
  | nil => by_cases h : key record = k <;> simp [get, set, h]
  | cons first rest ih =>
      rw [set]
      by_cases hfirst : key first = key record
      · rw [if_pos hfirst]
        by_cases h : key record = k
        · simp [get, h]
        · rw [if_neg h, get, get, List.find?_cons_of_neg (by simpa using h),
            List.find?_cons_of_neg (by rw [hfirst]; simpa using h)]
      · rw [if_neg hfirst]
        by_cases h : key first = k
        · rw [if_neg (fun heq => hfirst (h.trans heq.symm))]
          simp [get, h]
        · unfold get at ih ⊢
          rw [List.find?_cons_of_neg (by simpa using h), ih,
            List.find?_cons_of_neg (by simpa using h)]

theorem mem_set {other : β} (h : other ∈ set key records record) : other = record ∨ other ∈ records := by
  induction records with
  | nil => exact Or.inl (List.mem_singleton.mp h)
  | cons first rest ih =>
      rw [set] at h
      split at h
      · rcases List.mem_cons.mp h with heq | hlater
        · exact Or.inl heq
        · exact Or.inr (List.mem_cons_of_mem _ hlater)
      · rcases List.mem_cons.mp h with rfl | hlater
        · exact Or.inr List.mem_cons_self
        · exact (ih hlater).imp_right (List.mem_cons_of_mem _)

/-- A new record leaves one record for each key. -/
theorem nodup_set (h : (records.map key).Nodup) (record : β) :
    ((set key records record).map key).Nodup := by
  induction records with
  | nil => exact List.nodup_singleton _
  | cons first rest ih =>
      rw [List.map_cons, List.nodup_cons] at h
      rw [set]
      by_cases hfirst : key first = key record
      · rw [if_pos hfirst, List.map_cons, List.nodup_cons, ← hfirst]
        exact h
      · rw [if_neg hfirst, List.map_cons, List.nodup_cons]
        refine ⟨fun hmem => ?_, ih h.2⟩
        obtain ⟨other, hother, heq⟩ := List.mem_map.mp hmem
        rcases mem_set hother with rfl | hrest
        · exact hfirst heq.symm
        · exact h.1 (List.mem_map.mpr ⟨other, hrest, heq⟩)

/-- With one record for each key, their order does not matter. -/
theorem get_perm {records' : List β} (h : (records.map key).Nodup) (hperm : records.Perm records') (k : κ) :
    get key records' k = get key records k := by
  have h' : (records'.map key).Nodup := (hperm.map key).nodup_iff.mp h
  cases hget : get key records k with
  | none =>
      rw [get_eq_none_iff] at hget ⊢
      exact fun record hmem => hget record (hperm.mem_iff.mpr hmem)
  | some record =>
      rw [get_eq_some_iff h] at hget
      rw [get_eq_some_iff h']
      exact ⟨hperm.mem_iff.mp hget.1, hget.2⟩

/-- Setting a record replaces the one with its key, and leaves the others alone. -/
theorem mem_set_iff (h : (records.map key).Nodup) {other : β} :
    other ∈ set key records record ↔ other = record ∨ (other ∈ records ∧ key other ≠ key record) := by
  have hget : other ∈ set key records record ↔ get key (set key records record) (key other) = some other := by
    rw [get_eq_some_iff (nodup_set h record)]
    simp
  rw [hget, get_set]
  by_cases hkey : key record = key other
  · rw [if_pos hkey, Option.some.injEq]
    exact ⟨fun heq => Or.inl heq.symm, fun hor => hor.elim Eq.symm (fun hne => absurd hkey.symm hne.2)⟩
  · rw [if_neg hkey, get_eq_some_iff h]
    constructor
    · exact fun hmem => Or.inr ⟨hmem.1, fun heq => hkey heq.symm⟩
    · rintro (rfl | hmem)
      · exact absurd rfl hkey
      · exact ⟨hmem.1, rfl⟩

end Keyed

/-! ## Sets -/

/-- Dropping duplicates leaves none. -/
theorem List.nodup_eraseDups {α : Type} [BEq α] [LawfulBEq α] (items : List α) : items.eraseDups.Nodup := by
  -- What is left of the rest after the first item is shorter, but it is not the rest itself.
  induction hlength : items.length using Nat.strongRecOn generalizing items with
  | ind n ih =>
      cases items with
      | nil => exact List.nodup_nil
      | cons item rest =>
          rw [List.eraseDups_cons, List.nodup_cons]
          constructor
          · intro hmem
            rw [List.mem_eraseDups, List.mem_filter] at hmem
            exact absurd hmem.2 (by simp)
          · refine ih _ ?_ _ rfl
            rw [← hlength]
            exact Nat.lt_succ_of_le (List.length_filter_le _ rest)

/-- The items are one item, over and over. -/
theorem List.eraseDups_eq_singleton {α : Type} [BEq α] [LawfulBEq α] {items : List α} {a : α} :
    items.eraseDups = [a] ↔ (∃ item, item ∈ items) ∧ ∀ item ∈ items, item = a := by
  constructor
  · intro h
    have hmem : ∀ item, item ∈ items ↔ item = a := by
      intro item
      rw [← List.mem_eraseDups, h, List.mem_singleton]
    exact ⟨⟨a, (hmem a).mpr rfl⟩, fun item hitem => (hmem item).mp hitem⟩
  · rintro ⟨⟨first, hfirst⟩, hall⟩
    have hperm : items.eraseDups.Perm [a] := by
      rw [List.perm_ext_iff_of_nodup (List.nodup_eraseDups items) (List.nodup_singleton a)]
      intro item
      rw [List.mem_eraseDups, List.mem_singleton]
      constructor
      · exact hall item
      · rintro rfl
        exact hall first hfirst ▸ hfirst
    exact List.perm_singleton.mp hperm

/-! ## Sorting -/

namespace Sorted

section

variable {α : Type} [LE α]

/-- Sorted, and without duplicates. -/
structure IsSet (items : List α) : Prop where
  nodup : items.Nodup
  sorted : items.Pairwise (· ≤ ·)

/-- A set is the list of its items. -/
theorem IsSet.eq_of_mem_iff [Std.Antisymm (α := α) (· ≤ ·)] {a b : List α} (ha : IsSet a) (hb : IsSet b)
    (h : ∀ item, item ∈ a ↔ item ∈ b) : a = b :=
  List.Perm.eq_of_pairwise' ha.sorted hb.sorted ((List.perm_ext_iff_of_nodup ha.nodup hb.nodup).mpr h)

variable [DecidableLE α]

/-- `items.sort()`. -/
def sort (items : List α) : List α := items.insertionSort (· ≤ ·)

/-- `[...new Set(items)].sort()`. -/
def sortedSet [DecidableEq α] (items : List α) : List α := sort items.eraseDups

theorem perm_sort (items : List α) : (sort items).Perm items := List.perm_insertionSort _ items

theorem mem_sortedSet [DecidableEq α] {items : List α} {a : α} : a ∈ sortedSet items ↔ a ∈ items := by
  rw [sortedSet, (perm_sort _).mem_iff, List.mem_eraseDups]

end

variable {α : Type} [LE α] [DecidableLE α] [Std.Total (α := α) (· ≤ ·)] [IsTrans α (· ≤ ·)]

theorem pairwise_sort (items : List α) : (sort items).Pairwise (· ≤ ·) :=
  List.pairwise_insertionSort _ items

theorem isSet_sortedSet [DecidableEq α] (items : List α) : IsSet (sortedSet items) :=
  ⟨(perm_sort _).nodup_iff.mpr (List.nodup_eraseDups items), pairwise_sort _⟩

end Sorted
