import Mathlib.Algebra.GroupWithZero.Nat
import Mathlib.Data.Fintype.Card
import Mathlib.Order.Monotone.Basic
import SecureMcp.Input

set_option autoImplicit false

/-! # The input budget

`withinInputElementLimit` walks a graph, which may be cyclic, with a stack. `Unfolds` is what its
verdict is about: a value that unfolds to a finite tree without a reserved key, and the number of
entries of that tree. The order of the stack disappears in `walk_iff`. -/

/-! ## Entries of a tree -/

namespace Json

mutual

/-- The items and members of all arrays and objects in it, each counted where it occurs. -/
def entryCount : Json → Nat
  | array items => items.length + entryCountItems items
  | object members => members.length + entryCountMembers members
  | _ => 0

def entryCountItems : List Json → Nat
  | [] => 0
  | item :: rest => item.entryCount + entryCountItems rest

def entryCountMembers : List (JsString × Json) → Nat
  | [] => 0
  | (_, value) :: rest => value.entryCount + entryCountMembers rest

end

theorem entryCountItems_eq (items : List Json) :
    entryCountItems items = (items.map entryCount).sum := by
  induction items with
  | nil => rfl
  | cons item rest ih => rw [entryCountItems, ih, List.map_cons, List.sum_cons]

theorem entryCountMembers_eq (members : List (JsString × Json)) :
    entryCountMembers members = ((members.map Prod.snd).map entryCount).sum := by
  induction members with
  | nil => rfl
  | cons member rest ih =>
      rw [entryCountMembers, ih, List.map_cons, List.map_cons, List.sum_cons]

end Json

/-- Every element of a list has an image. -/
theorem List.mapM_eq_some_iff_forall₂ {α β : Type} {f : α → Option β} {l : List α} {l' : List β} :
    l.mapM f = some l' ↔ List.Forall₂ (fun a b => f a = some b) l l' := by
  induction l generalizing l' with
  | nil =>
      rw [List.mapM_nil, List.forall₂_nil_left_iff]
      exact ⟨fun h => (Option.some.inj h).symm, fun h => by rw [h]; rfl⟩
  | cons a rest ih =>
      rw [List.mapM_cons, List.forall₂_cons_left_iff]
      constructor
      · intro h
        obtain ⟨b, hb, hrest⟩ := Option.bind_eq_some_iff.mp h
        obtain ⟨later, hlater, heq⟩ := Option.bind_eq_some_iff.mp hrest
        exact ⟨b, later, hb, ih.mp hlater, (Option.some.inj heq).symm⟩
      · rintro ⟨b, later, hb, hlater, rfl⟩
        rw [hb, ih.mpr hlater]
        rfl

theorem List.isSome_mapM {α β : Type} {f : α → Option β} {l : List α} :
    (l.mapM f).isSome = true ↔ ∀ a ∈ l, (f a).isSome = true := by
  induction l with
  | nil => simp
  | cons a rest ih =>
      rw [List.mapM_cons, List.forall_mem_cons, ← ih]
      cases f a with
      | none => simp
      | some b => cases rest.mapM f <;> simp

namespace SecureMcp

/-- An array or an object with these values for its entries. -/
def Node.build {n : Nat} : Node n → List Json → Json
  | .array _ _, values => .array values
  | .object entries _, values => .object ((entries.map Prod.fst).zip values)

theorem Node.entryCount_build {n : Nat} (node : Node n) {values : List Json}
    (hlength : values.length = node.children.length) :
    (node.build values).entryCount = values.length + (values.map Json.entryCount).sum := by
  cases node with
  | array items own => rw [build, Json.entryCount, Json.entryCountItems_eq]
  | object entries own =>
      have hkeys : values.length ≤ (entries.map Prod.fst).length := by
        rw [hlength, children, List.length_map, List.length_map]
      rw [build, Json.entryCount, Json.entryCountMembers_eq, List.map_snd_zip hkeys, List.length_zip,
        Nat.min_eq_right hkeys]

namespace Graph

variable {g : Graph} {maximum fuel count : Nat} {address : Fin g.size}

/-! ## Unfolding -/

theorem unfold_scalar (value : Scalar) :
    ∃ tree, tree.entryCount = 0 ∧ ∀ fuel, g.unfold fuel (.scalar value) = some tree := by
  cases value with
  | null => exact ⟨.null, rfl, fun fuel => by cases fuel <;> rfl⟩
  | bool value => exact ⟨.bool value, rfl, fun fuel => by cases fuel <;> rfl⟩
  | number literal => exact ⟨.number literal, rfl, fun fuel => by cases fuel <;> rfl⟩
  | string text => exact ⟨.string text, rfl, fun fuel => by cases fuel <;> rfl⟩

theorem unfold_ref (fuel : Nat) (address : Fin g.size) : g.unfold (fuel + 1) (.ref address) =
    ((g.node address).children.mapM (g.unfold fuel)).map (g.node address).build := by
  rw [unfold]
  cases g.node address with
  | array items own => rfl
  | object entries own =>
      have hpairs : ∀ entries : List (JsString × Value g.size),
          entries.mapM (fun entry => (g.unfold fuel entry.2).map (fun value => (entry.1, value))) =
            ((entries.map Prod.snd).mapM (g.unfold fuel)).map (fun values =>
              (entries.map Prod.fst).zip values) := by
        intro entries
        induction entries with
        | nil => rfl
        | cons entry rest ih =>
            rw [List.mapM_cons, ih, List.map_cons, List.map_cons, List.mapM_cons]
            cases g.unfold fuel entry.2 with
            | none => rfl
            | some value => cases (rest.map Prod.snd).mapM (g.unfold fuel) <;> rfl
      show Option.map Json.object (entries.mapM _) = _
      rw [hpairs, Option.map_map]
      rfl

theorem unfold_ref_eq_some {tree : Json} : g.unfold (fuel + 1) (.ref address) = some tree ↔
    ∃ values, List.Forall₂ (fun child value => g.unfold fuel child = some value)
      (g.node address).children values ∧ (g.node address).build values = tree := by
  rw [unfold_ref, Option.map_eq_some_iff]
  exact exists_congr fun values => and_congr_left' List.mapM_eq_some_iff_forall₂

/-- More levels unfold to the same tree. -/
theorem unfold_succ {v : Value g.size} {tree : Json} (h : g.unfold fuel v = some tree) :
    g.unfold (fuel + 1) v = some tree := by
  induction fuel generalizing v tree with
  | zero =>
      cases v with
      | scalar value =>
          obtain ⟨_, _, hall⟩ := unfold_scalar value
          rw [hall, ← hall 0, h]
      | ref address => exact absurd h (by simp [unfold])
  | succ fuel ih =>
      cases v with
      | scalar value =>
          obtain ⟨_, _, hall⟩ := unfold_scalar value
          rw [hall, ← hall (fuel + 1), h]
      | ref address =>
          obtain ⟨values, hvalues, hbuild⟩ := unfold_ref_eq_some.mp h
          exact unfold_ref_eq_some.mpr ⟨values, hvalues.imp (fun _ _ => ih), hbuild⟩

theorem unfold_mono {v : Value g.size} {tree : Json} {fuel' : Nat} (hle : fuel ≤ fuel')
    (h : g.unfold fuel v = some tree) : g.unfold fuel' v = some tree := by
  induction hle with
  | refl => exact h
  | step _ ih => exact unfold_succ ih

/-! ## Depth -/

/-- The arrays and objects that unfold within some number of levels. -/
def unfolding (g : Graph) (fuel : Nat) : Finset (Fin g.size) :=
  Finset.univ.filter (fun address => (g.unfold fuel (.ref address)).isSome = true)

theorem mem_unfolding : address ∈ g.unfolding fuel ↔ (g.unfold fuel (.ref address)).isSome = true := by
  rw [unfolding, Finset.mem_filter]
  exact and_iff_right (Finset.mem_univ _)

theorem unfolding_mono : Monotone g.unfolding := by
  intro fuel fuel' hle address hmem
  obtain ⟨tree, htree⟩ := Option.isSome_iff_exists.mp (mem_unfolding.mp hmem)
  exact mem_unfolding.mpr (Option.isSome_iff_exists.mpr ⟨tree, unfold_mono hle htree⟩)

/-- An array or an object unfolds when its entries do, within one level less. -/
theorem mem_unfolding_succ : address ∈ g.unfolding (fuel + 1) ↔
    ∀ child ∈ (g.node address).children, (g.unfold fuel child).isSome = true := by
  rw [mem_unfolding, unfold_ref, Option.isSome_map, List.isSome_mapM]

theorem isSome_unfold_iff {v : Value g.size} : (g.unfold fuel v).isSome = true ↔
    ∀ address, v = .ref address → address ∈ g.unfolding fuel := by
  cases v with
  | scalar value =>
      obtain ⟨tree, _, hall⟩ := unfold_scalar (g := g) value
      rw [hall]
      exact ⟨fun _ _ h => absurd h (by simp), fun _ => rfl⟩
  | ref address =>
      rw [← mem_unfolding]
      exact ⟨fun h _ heq => Value.ref.inj heq ▸ h, fun h => h address rfl⟩

/-- Once a level adds nothing, no further level does. -/
theorem unfolding_stable (h : g.unfolding fuel = g.unfolding (fuel + 1)) :
    g.unfolding (fuel + 1) = g.unfolding (fuel + 2) := by
  ext address
  rw [mem_unfolding_succ, mem_unfolding_succ]
  refine forall₂_congr fun child _ => ?_
  rw [isSome_unfold_iff, isSome_unfold_iff, h]

/-- As many levels as there are arrays and objects are enough. -/
theorem unfold_size {v : Value g.size} {tree : Json} (h : g.unfold fuel v = some tree) :
    g.unfold g.size v = some tree := by
  have hcard : ∀ fuel', g.size ≤ fuel' → (g.unfolding fuel').card = (g.unfolding g.size).card := by
    intro fuel' hle
    refine Nat.stabilises_of_monotone (fun _ _ hle' => Finset.card_le_card (unfolding_mono hle'))
      (fun m => ?_) (fun m heq => ?_) hle
    · exact (Finset.card_le_univ _).trans (Nat.le_of_eq (Fintype.card_fin _))
    · rw [unfolding_stable (Finset.eq_of_subset_of_card_le (unfolding_mono (Nat.le_succ m))
        (Nat.le_of_eq heq.symm))]
  have hlate := unfold_mono (Nat.le_max_left fuel g.size) h
  have hsame : g.unfolding (max fuel g.size) = g.unfolding g.size :=
    (Finset.eq_of_subset_of_card_le (unfolding_mono (Nat.le_max_right _ _))
      (Nat.le_of_eq (hcard _ (Nat.le_max_right _ _)))).symm
  have hsome : (g.unfold g.size v).isSome = true := by
    rw [isSome_unfold_iff, ← hsame, ← isSome_unfold_iff, hlate]
    rfl
  obtain ⟨tree', htree'⟩ := Option.isSome_iff_exists.mp hsome
  rw [htree', ← unfold_mono (Nat.le_max_right fuel g.size) htree', hlate]

/-- Some array or object in it contains itself. -/
def Cyclic (g : Graph) (v : Value g.size) : Prop :=
  ∃ address child, g.Reaches v address ∧ child ∈ (g.node address).children ∧ g.Reaches child address

theorem isSome_unfold_of_reaches {v : Value g.size} (hreaches : g.Reaches v address)
    (h : (g.unfold fuel v).isSome = true) : address ∈ g.unfolding fuel := by
  induction hreaches generalizing fuel with
  | here address => exact mem_unfolding.mpr h
  | @child top address child hchild _ ih =>
      cases fuel with
      | zero => exact absurd h (by simp [unfold])
      | succ fuel =>
          exact unfolding_mono (Nat.le_succ fuel) (ih (mem_unfolding_succ.mp (mem_unfolding.mpr h) child hchild))

/-- What unfolds to a finite tree is not cyclic. -/
theorem not_cyclic_of_unfold {v : Value g.size} (h : (g.unfold fuel v).isSome = true) :
    ¬ g.Cyclic v := by
  rintro ⟨address, child, hreaches, hchild, hback⟩
  have hmem := isSome_unfold_of_reaches hreaches h
  clear hreaches h
  induction fuel with
  | zero => exact absurd (mem_unfolding.mp hmem) (by simp [unfold])
  | succ fuel ih =>
      exact ih (isSome_unfold_of_reaches hback (mem_unfolding_succ.mp hmem child hchild))

/-! ## The verdict -/

/-- No array or object in it has an own `__proto__` key. -/
def Clean (g : Graph) (v : Value g.size) : Prop :=
  ∀ address, g.Reaches v address → g.hasReservedToolArgumentKey (.ref address) = false

/-- It unfolds to a finite tree without a reserved key, of `n` entries. -/
def Unfolds (g : Graph) (v : Value g.size) (n : Nat) : Prop :=
  (∃ fuel tree, g.unfold fuel v = some tree ∧ tree.entryCount = n) ∧ g.Clean v

/-- The same of every value of a list, with `n` entries below all of them. -/
def UnfoldsAll (g : Graph) (vs : List (Value g.size)) (n : Nat) : Prop :=
  ∃ ns, List.Forall₂ g.Unfolds vs ns ∧ ns.sum = n

theorem unfoldsAll_nil {n : Nat} : g.UnfoldsAll [] n ↔ n = 0 := by
  constructor
  · rintro ⟨ns, hns, rfl⟩
    rw [List.forall₂_nil_left_iff.mp hns]
    rfl
  · rintro rfl
    exact ⟨[], .nil, rfl⟩

theorem unfoldsAll_cons {v : Value g.size} {vs : List (Value g.size)} {n : Nat} :
    g.UnfoldsAll (v :: vs) n ↔ ∃ a b, g.Unfolds v a ∧ g.UnfoldsAll vs b ∧ a + b = n := by
  constructor
  · rintro ⟨ns, hns, rfl⟩
    obtain ⟨a, rest, ha, hrest, rfl⟩ := List.forall₂_cons_left_iff.mp hns
    exact ⟨a, rest.sum, ha, ⟨rest, hrest, rfl⟩, List.sum_cons.symm⟩
  · rintro ⟨a, b, ha, ⟨rest, hrest, rfl⟩, rfl⟩
    exact ⟨a :: rest, .cons ha hrest, List.sum_cons⟩

theorem unfolds_scalar {value : Scalar} {n : Nat} : g.Unfolds (.scalar value) n ↔ n = 0 := by
  obtain ⟨tree, hcount, hall⟩ := unfold_scalar (g := g) value
  constructor
  · rintro ⟨⟨fuel, tree', htree', rfl⟩, _⟩
    rw [hall fuel] at htree'
    exact Option.some.inj htree' ▸ hcount
  · rintro rfl
    exact ⟨⟨0, tree, hall 0, hcount⟩, fun address hreaches => by cases hreaches⟩

theorem clean_ref : g.Clean (.ref address) ↔ g.hasReservedToolArgumentKey (.ref address) = false ∧
    ∀ child ∈ (g.node address).children, g.Clean child := by
  constructor
  · exact fun h => ⟨h address (.here address), fun child hchild target hreaches =>
      h target (.child hchild hreaches)⟩
  · rintro ⟨hhere, hbelow⟩ target hreaches
    cases hreaches with
    | here => exact hhere
    | child hchild hreaches => exact hbelow _ hchild target hreaches

/-- The entries of each value, when some number of levels is enough for all of them. -/
theorem unfoldsAll_iff {vs : List (Value g.size)} {n : Nat} : g.UnfoldsAll vs n ↔
    (∃ fuel values, List.Forall₂ (fun v value => g.unfold fuel v = some value) vs values ∧
      (values.map Json.entryCount).sum = n) ∧ ∀ v ∈ vs, g.Clean v := by
  induction vs generalizing n with
  | nil =>
      rw [unfoldsAll_nil]
      constructor
      · rintro rfl
        exact ⟨⟨0, [], .nil, rfl⟩, by simp⟩
      · rintro ⟨⟨fuel, values, hvalues, rfl⟩, _⟩
        rw [List.forall₂_nil_left_iff.mp hvalues]
        rfl
  | cons v rest ih =>
      rw [unfoldsAll_cons, List.forall_mem_cons]
      constructor
      · rintro ⟨a, b, ⟨⟨fuel, tree, htree, rfl⟩, hclean⟩, hrest, rfl⟩
        obtain ⟨⟨fuel', values, hvalues, rfl⟩, hall⟩ := ih.mp hrest
        refine ⟨⟨max fuel fuel', tree :: values, .cons (unfold_mono (Nat.le_max_left _ _) htree) ?_, ?_⟩,
          hclean, hall⟩
        · exact hvalues.imp (fun _ _ => unfold_mono (Nat.le_max_right _ _))
        · rw [List.map_cons, List.sum_cons]
      · rintro ⟨⟨fuel, values, hvalues, rfl⟩, hclean, hall⟩
        obtain ⟨tree, later, htree, hlater, rfl⟩ := List.forall₂_cons_left_iff.mp hvalues
        refine ⟨tree.entryCount, (later.map Json.entryCount).sum, ⟨⟨fuel, tree, htree, rfl⟩, hclean⟩,
          ih.mpr ⟨⟨fuel, later, hlater, rfl⟩, hall⟩, ?_⟩
        rw [List.map_cons, List.sum_cons]

/-- An array or an object counts its entries and what is below them. -/
theorem unfolds_ref {n : Nat} : g.Unfolds (.ref address) n ↔
    g.hasReservedToolArgumentKey (.ref address) = false ∧
      ∃ m, g.UnfoldsAll (g.node address).children m ∧ (g.node address).children.length + m = n := by
  rw [Unfolds, clean_ref]
  constructor
  · rintro ⟨⟨fuel, tree, htree, rfl⟩, hhere, hbelow⟩
    refine ⟨hhere, ?_⟩
    cases fuel with
    | zero => exact absurd htree (by simp [unfold])
    | succ fuel =>
        obtain ⟨values, hvalues, rfl⟩ := unfold_ref_eq_some.mp htree
        refine ⟨_, unfoldsAll_iff.mpr ⟨⟨fuel, values, hvalues, rfl⟩, hbelow⟩, ?_⟩
        rw [Node.entryCount_build _ hvalues.length_eq.symm, hvalues.length_eq]
  · rintro ⟨hhere, m, hall, rfl⟩
    obtain ⟨⟨fuel, values, hvalues, rfl⟩, hbelow⟩ := unfoldsAll_iff.mp hall
    refine ⟨⟨fuel + 1, _, unfold_ref_eq_some.mpr ⟨values, hvalues, rfl⟩, ?_⟩, hhere, hbelow⟩
    rw [Node.entryCount_build _ hvalues.length_eq.symm, hvalues.length_eq]

/-! ## The walk -/

/-- Scalars are counted and not pushed; they have no entries of their own. -/
theorem unfoldsAll_pushed {entries pending pending' : List (Value g.size)} {count' n : Nat}
    (h : countEntries maximum entries count pending = some (count', pending')) :
    g.UnfoldsAll pending' n ↔ ∃ a b, g.UnfoldsAll entries a ∧ g.UnfoldsAll pending b ∧ a + b = n := by
  induction entries generalizing count pending n with
  | nil =>
      simp only [countEntries, Option.some.injEq, Prod.mk.injEq] at h
      obtain ⟨rfl, rfl⟩ := h
      constructor
      · exact fun hall => ⟨0, n, unfoldsAll_nil.mpr rfl, hall, Nat.zero_add n⟩
      · rintro ⟨a, b, ha, hall, rfl⟩
        rwa [unfoldsAll_nil.mp ha, Nat.zero_add]
  | cons child rest ih =>
      simp only [countEntries] at h
      split at h
      · exact absurd h (by simp)
      · rw [ih h]
        cases child with
        | scalar value =>
            show (∃ a b, g.UnfoldsAll rest a ∧ g.UnfoldsAll pending b ∧ a + b = n) ↔ _
            refine exists_congr fun a => exists_congr fun b => and_congr_left' ?_
            rw [unfoldsAll_cons]
            constructor
            · exact fun ha => ⟨0, a, unfolds_scalar.mpr rfl, ha, Nat.zero_add a⟩
            · rintro ⟨c, d, hc, hd, rfl⟩
              rwa [unfolds_scalar.mp hc, Nat.zero_add]
        | ref target =>
            show (∃ a b, g.UnfoldsAll rest a ∧ g.UnfoldsAll (.ref target :: pending) b ∧ a + b = n) ↔ _
            constructor
            · rintro ⟨a, b, ha, hb, rfl⟩
              obtain ⟨c, d, hc, hd, rfl⟩ := unfoldsAll_cons.mp hb
              exact ⟨c + a, d, unfoldsAll_cons.mpr ⟨c, a, hc, ha, rfl⟩, hd, by omega⟩
            · rintro ⟨a, b, ha, hb, rfl⟩
              obtain ⟨c, d, hc, hd, rfl⟩ := unfoldsAll_cons.mp ha
              exact ⟨d, c + b, hd, unfoldsAll_cons.mpr ⟨c, b, hc, hb, rfl⟩, by omega⟩

/-- The inner loop gives up when there are too many entries, and for no other reason. -/
theorem countEntries_eq_none {n : Nat} {entries pending : List (Value n)}
    (h : countEntries maximum entries count pending = none) : maximum < count + entries.length := by
  induction entries generalizing count pending with
  | nil => exact absurd h (by simp [countEntries])
  | cons child rest ih =>
      simp only [countEntries] at h
      rw [List.length_cons]
      split at h
      · omega
      · have := ih h
        omega

/-- Whatever order the stack gives the walk, it returns `true` exactly when everything below the
    stack unfolds to finite trees without a reserved key and within what is left of the budget. -/
theorem walk_iff {pending : List (Value g.size)} {verdict : Bool} (hcount : count ≤ maximum)
    (h : g.walk maximum fuel pending count = some verdict) :
    verdict = true ↔ ∃ n, g.UnfoldsAll pending n ∧ count + n ≤ maximum := by
  induction fuel generalizing pending count with
  | zero =>
      cases pending with
      | nil =>
          obtain rfl := Option.some.inj h
          exact iff_of_true rfl ⟨0, unfoldsAll_nil.mpr rfl, hcount⟩
      | cons current pending => exact absurd h (by simp [walk])
  | succ fuel ih =>
      cases pending with
      | nil =>
          obtain rfl := Option.some.inj h
          exact iff_of_true rfl ⟨0, unfoldsAll_nil.mpr rfl, hcount⟩
      | cons current pending =>
          cases current with
          | scalar value =>
              rw [ih hcount h]
              refine exists_congr fun n => and_congr_left' ?_
              rw [unfoldsAll_cons]
              constructor
              · exact fun hall => ⟨0, n, unfolds_scalar.mpr rfl, hall, Nat.zero_add n⟩
              · rintro ⟨a, b, ha, hb, rfl⟩
                rwa [unfolds_scalar.mp ha, Nat.zero_add]
          | ref address =>
              simp only [walk] at h
              split at h
              · next hreserved =>
                  obtain rfl := Option.some.inj h
                  refine iff_of_false Bool.false_ne_true ?_
                  rintro ⟨n, hall, _⟩
                  obtain ⟨a, b, ha, _, rfl⟩ := unfoldsAll_cons.mp hall
                  exact Bool.false_ne_true ((unfolds_ref.mp ha).1.symm.trans hreserved)
              · next hclean =>
                  split at h
                  · next hnone =>
                      obtain rfl := Option.some.inj h
                      refine iff_of_false Bool.false_ne_true ?_
                      rintro ⟨n, hall, hle⟩
                      obtain ⟨a, b, ha, _, rfl⟩ := unfoldsAll_cons.mp hall
                      obtain ⟨_, m, _, rfl⟩ := unfolds_ref.mp ha
                      have := countEntries_eq_none hnone
                      omega
                  · next count' pending' hsome =>
                      obtain ⟨hsum, hmax, _⟩ := countEntries_eq_some hsome
                      rw [ih (by omega) h]
                      constructor
                      · rintro ⟨n, hall, hle⟩
                        obtain ⟨a, b, ha, hb, rfl⟩ := (unfoldsAll_pushed hsome).mp hall
                        exact ⟨_, unfoldsAll_cons.mpr ⟨_, b, unfolds_ref.mpr
                          ⟨Bool.eq_false_iff.mpr hclean, a, ha, rfl⟩, hb, rfl⟩, by omega⟩
                      · rintro ⟨n, hall, hle⟩
                        obtain ⟨a, b, ha, hb, rfl⟩ := unfoldsAll_cons.mp hall
                        obtain ⟨_, m, hm, rfl⟩ := unfolds_ref.mp ha
                        exact ⟨_, (unfoldsAll_pushed hsome).mpr ⟨m, b, hm, hb, rfl⟩, by omega⟩

theorem walk_succ {pending : List (Value g.size)} {verdict : Bool}
    (h : g.walk maximum fuel pending count = some verdict) :
    g.walk maximum (fuel + 1) pending count = some verdict := by
  induction fuel generalizing pending count with
  | zero =>
      cases pending with
      | nil => exact h
      | cons current pending => exact absurd h (by simp [walk])
  | succ fuel ih =>
      cases pending with
      | nil => exact h
      | cons current pending =>
          cases current with
          | scalar value => exact ih h
          | ref address =>
              rw [walk] at h ⊢
              split
              · next hreserved => rwa [if_pos hreserved] at h
              · next hclean =>
                  rw [if_neg hclean] at h
                  split
                  · next hnone => rwa [hnone] at h
                  · next count' pending' hsome =>
                      rw [hsome] at h
                      exact ih h

/-- The value of `count` where the inner loop ends. -/
def lastCount {n : Nat} (maximum : Nat) : List (Value n) → Nat → Nat
  | [], count => count
  | _ :: rest, count =>
    if maximum < count + 1 then count + 1 else lastCount maximum rest (count + 1)

/-- The value of `count` where the walk ends: how many entries it has counted. -/
def counted (g : Graph) (maximum : Nat) : Nat → List (Value g.size) → Nat → Nat
  | _, [], count => count
  | 0, _ :: _, count => count
  | fuel + 1, .scalar _ :: pending, count => counted g maximum fuel pending count
  | fuel + 1, .ref address :: pending, count =>
    if g.hasReservedToolArgumentKey (.ref address) then count
    else
      match countEntries maximum (g.node address).children count pending with
      | none => lastCount maximum (g.node address).children count
      | some (count', pending') => counted g maximum fuel pending' count'

theorem lastCount_le {n : Nat} {entries : List (Value n)} (hcount : count ≤ maximum) :
    lastCount maximum entries count ≤ maximum + 1 := by
  induction entries generalizing count with
  | nil => exact Nat.le_succ_of_le hcount
  | cons child rest ih =>
      rw [lastCount]
      split
      · omega
      · exact ih (by omega)

/-- The walk never counts more than one entry over the maximum. -/
theorem counted_le {pending : List (Value g.size)} (hcount : count ≤ maximum) :
    g.counted maximum fuel pending count ≤ maximum + 1 := by
  induction fuel generalizing pending count with
  | zero => cases pending <;> exact Nat.le_succ_of_le hcount
  | succ fuel ih =>
      cases pending with
      | nil => exact Nat.le_succ_of_le hcount
      | cons current pending =>
          cases current with
          | scalar value => exact ih hcount
          | ref address =>
              rw [counted]
              split
              · exact Nat.le_succ_of_le hcount
              · split
                · exact lastCount_le hcount
                · next count' pending' hsome =>
                    obtain ⟨_, hmax, _⟩ := countEntries_eq_some hsome
                    exact ih (by omega)

/-! ## `withinInputElementLimit` -/

/-- The loop ends by itself, after at most `maximum + 1` counted entries. -/
theorem walk_of_le (hfuel : maximum + 2 ≤ fuel) :
    g.walk maximum fuel [g.root] 0 = some (g.withinInputElementLimit maximum) := by
  have henough : ([g.root] : List (Value g.size)).length + (maximum - 0) < maximum + 2 := by
    rw [List.length_singleton]
    omega
  obtain ⟨verdict, hverdict⟩ := Option.isSome_iff_exists.mp (walk_isSome henough)
  have hsame : g.withinInputElementLimit maximum = verdict := by
    rw [withinInputElementLimit, hverdict]
    cases verdict <;> rfl
  rw [hsame]
  induction hfuel with
  | refl => exact hverdict
  | step _ ih => exact walk_succ ih

theorem within_iff : g.withinInputElementLimit maximum = true ↔
    g.Clean g.root ∧ ∃ fuel tree, g.unfold fuel g.root = some tree ∧ tree.entryCount ≤ maximum := by
  rw [walk_iff (Nat.zero_le _) (walk_of_le (Nat.le_refl _))]
  constructor
  · rintro ⟨n, hall, hle⟩
    obtain ⟨a, b, ⟨⟨fuel, tree, htree, rfl⟩, hclean⟩, _, rfl⟩ := unfoldsAll_cons.mp hall
    exact ⟨hclean, fuel, tree, htree, by omega⟩
  · rintro ⟨hclean, fuel, tree, htree, hle⟩
    exact ⟨tree.entryCount, unfoldsAll_cons.mpr ⟨_, 0, ⟨⟨fuel, tree, htree, rfl⟩, hclean⟩,
      unfoldsAll_nil.mpr rfl, rfl⟩, by omega⟩

/-- `const a = ['x']; [a, a]`: the shared array counts twice. -/
example :
    let g : Graph :=
      { size := 2
        node := fun address =>
          if address = 0 then .array [.ref 1, .ref 1] else .array [.scalar (.string (js "x"))]
        root := .ref 0 }
    g.withinInputElementLimit 4 = true ∧ g.withinInputElementLimit 3 = false := by decide

/-- A value that contains itself is refused under every budget. -/
theorem not_within_of_cyclic (h : g.Cyclic g.root) (maximum : Nat) :
    g.withinInputElementLimit maximum = false := by
  rw [Bool.eq_false_iff]
  intro hwithin
  obtain ⟨_, fuel, tree, htree, _⟩ := within_iff.mp hwithin
  exact not_cyclic_of_unfold (by rw [htree]; rfl) h

/-- A value that has passed the walk has a JSON text. That `JSON.stringify` may run out of stack on a
    deep one is left out. -/
theorem byteLength_of_within (h : g.withinInputElementLimit maximum = true) :
    g.byteLength.isSome = true := by
  obtain ⟨_, fuel, tree, htree, _⟩ := within_iff.mp h
  rw [byteLength, stringify, unfold_size htree]
  rfl

end Graph

end SecureMcp
