import SecureMcp.Lib.Json

set_option autoImplicit false

/-! # Tool arguments and results (`src/input.ts`)

Arguments and results are JSON-like values: scalars, arrays and objects, where arrays and objects
have an identity, so that a value may share them or contain itself. A `Graph` numbers the arrays and
objects of one value; a reference is a number below their count, so it always leads somewhere. -/

namespace SecureMcp

inductive Scalar
  | null
  | bool (value : Bool)
  | number (literal : NumberLiteral)
  | string (text : JsString)
deriving DecidableEq

/-- A value inside a graph of `n` arrays and objects. -/
inductive Value (n : Nat)
  | scalar (value : Scalar)
  | ref (address : Fin n)
deriving DecidableEq

/-- An array or an object, with its entries in order. `own` lists the own string keys that
    enumerating it does not visit: named properties of an array, non-enumerable ones of an object. -/
inductive Node (n : Nat)
  | array (items : List (Value n)) (own : List JsString := [])
  | object (entries : List (JsString × Value n)) (own : List JsString := [])

structure Graph where
  size : Nat
  node : Fin size → Node size
  root : Value size

/-- `typeof value === 'object'` for a value other than `null`. -/
def Value.isObject {n : Nat} : Value n → Bool
  | .scalar _ => false
  | .ref _ => true

namespace Node

variable {n : Nat}

/-- What the loops of `withinInputElementLimit` visit. -/
def children : Node n → List (Value n)
  | array items _ => items
  | object entries _ => entries.map Prod.snd

def ownKeys : Node n → List JsString
  | array _ own => own
  | object entries own => entries.map Prod.fst ++ own

end Node

namespace Graph

variable (g : Graph)

def hasReservedToolArgumentKey : Value g.size → Bool
  | .scalar _ => false
  | .ref address => (g.node address).ownKeys.contains (js "__proto__")

/-! ## The bounded walk -/

/-- The inner loop: count each entry and push the ones that are objects; `none` stands for the
    `return false` over the maximum. -/
def countEntries {n : Nat} (maximum : Nat) :
    List (Value n) → Nat → List (Value n) → Option (Nat × List (Value n))
  | [], count, pending => some (count, pending)
  | child :: rest, count, pending =>
    if maximum < count + 1 then none
    else countEntries maximum rest (count + 1) (if child.isObject then child :: pending else pending)

/-- The outer loop over the stack `pending`, its top first; `none` when the fuel runs out. -/
def walk (maximum : Nat) : Nat → List (Value g.size) → Nat → Option Bool
  | _, [], _ => some true
  | 0, _ :: _, _ => none
  | fuel + 1, .scalar _ :: pending, count => walk maximum fuel pending count
  | fuel + 1, .ref address :: pending, count =>
    if g.hasReservedToolArgumentKey (.ref address) then some false
    else
      match countEntries maximum (g.node address).children count pending with
      | none => some false
      | some (count', pending') => walk maximum fuel pending' count'

/-- Each turn of the outer loop takes one value off the stack and each push is counted, so
    `maximum + 2` turns are enough (`walk_isSome`). -/
def withinInputElementLimit (maximum : Nat) : Bool :=
  g.walk maximum (maximum + 2) [g.root] 0 == some true

/-! ## The text -/

/-- The tree a value unfolds to, if it has at most `fuel` levels. -/
def unfold : Nat → Value g.size → Option Json
  | _, .scalar .null => some .null
  | _, .scalar (.bool value) => some (.bool value)
  | _, .scalar (.number literal) => some (.number literal)
  | _, .scalar (.string text) => some (.string text)
  | 0, .ref _ => none
  | fuel + 1, .ref address =>
    match g.node address with
    | .array items _ => (items.mapM (fun item => unfold fuel item)).map .array
    | .object entries _ =>
      (entries.mapM (fun entry => (unfold fuel entry.2).map (fun value => (entry.1, value)))).map
        .object

/-- `JSON.stringify(value)`. A chain of more than `size` references passes through some array or
    object twice, which is when `JSON.stringify` throws. -/
def stringify : Option JsString := (g.unfold g.size g.root).map Json.stringify

/-- `Buffer.byteLength(JSON.stringify(value))`. -/
def byteLength : Option Nat := g.stringify.map JsString.byteLength

/-! ## What the walk guarantees -/

/-- An array or object is reachable from a value. -/
inductive Reaches : Value g.size → Fin g.size → Prop
  | here (address : Fin g.size) : Reaches (.ref address) address
  | child {address address' : Fin g.size} {child : Value g.size}
      (hchild : child ∈ (g.node address).children) (h : Reaches child address') :
      Reaches (.ref address) address'

variable {g} {maximum : Nat}

theorem countEntries_eq_some {n : Nat} {entries pending pending' : List (Value n)}
    {count count' : Nat}
    (h : countEntries maximum entries count pending = some (count', pending')) :
    count' = count + entries.length ∧ count' ≤ max count maximum ∧
      pending'.length ≤ pending.length + entries.length ∧
      (∀ v ∈ pending, v ∈ pending') ∧ ∀ v ∈ entries, v.isObject = true → v ∈ pending' := by
  induction entries generalizing count pending with
  | nil =>
      simp only [countEntries, Option.some.injEq, Prod.mk.injEq] at h
      obtain ⟨rfl, rfl⟩ := h
      exact ⟨rfl, Nat.le_max_left _ _, Nat.le_refl _, fun _ hv => hv, by simp⟩
  | cons child rest ih =>
      simp only [countEntries] at h
      split at h
      · exact absurd h (by simp)
      · next hroom =>
          obtain ⟨hcount, hmax, hlen, hold, hnew⟩ := ih h
          refine ⟨by simp only [List.length_cons]; omega, by omega, ?_, fun v hv => ?_, ?_⟩
          · simp only [List.length_cons]
            split at hlen
            · simp only [List.length_cons] at hlen
              omega
            · omega
          · refine hold v ?_
            split
            · exact List.mem_cons_of_mem _ hv
            · exact hv
          · intro v hv hobj
            rcases List.mem_cons.mp hv with rfl | hrest
            · exact hold v (by rw [if_pos hobj]; exact List.mem_cons_self)
            · exact hnew v hrest hobj

/-- The fuel of `withinInputElementLimit` is enough. -/
theorem walk_isSome {fuel : Nat} {pending : List (Value g.size)} {count : Nat}
    (h : pending.length + (maximum - count) < fuel) :
    (g.walk maximum fuel pending count).isSome = true := by
  induction fuel generalizing pending count with
  | zero => exact absurd h (Nat.not_lt_zero _)
  | succ fuel ih =>
      cases pending with
      | nil => rfl
      | cons current pending =>
          simp only [List.length_cons] at h
          cases current with
          | scalar value => exact ih (by omega)
          | ref address =>
              simp only [walk]
              split
              · rfl
              · split
                · rfl
                · next count' pending' hcount =>
                    obtain ⟨hsum, hmax, hlen, _⟩ := countEntries_eq_some hcount
                    exact ih (by omega)

/-- A walk that returns `true` has met no reserved key anywhere below its stack. -/
theorem walk_reserved {fuel : Nat} {pending : List (Value g.size)} {count : Nat}
    (h : g.walk maximum fuel pending count = some true) :
    ∀ v ∈ pending, ∀ address, g.Reaches v address →
      g.hasReservedToolArgumentKey (.ref address) = false := by
  induction fuel generalizing pending count with
  | zero =>
      cases pending with
      | nil => simp
      | cons current pending => exact absurd h (by simp [walk])
  | succ fuel ih =>
      cases pending with
      | nil => simp
      | cons current pending =>
          intro v hv address hreach
          cases current with
          | scalar value =>
              rcases List.mem_cons.mp hv with rfl | hv
              · cases hreach
              · exact ih h v hv address hreach
          | ref top =>
              simp only [walk] at h
              split at h
              · exact absurd h (by simp)
              · next hclean =>
                  split at h
                  · exact absurd h (by simp)
                  · next count' pending' hcount =>
                      obtain ⟨_, _, _, hold, hnew⟩ := countEntries_eq_some hcount
                      rcases List.mem_cons.mp hv with rfl | hv
                      · cases hreach with
                        | here => simpa using hclean
                        | child hchild hreach =>
                            refine ih h _ (hnew _ hchild ?_) address hreach
                            cases hreach <;> rfl
                      · exact ih h v (hold v hv) address hreach

theorem reserved_of_within (h : g.withinInputElementLimit maximum = true) {address : Fin g.size}
    (hreach : g.Reaches g.root address) : g.hasReservedToolArgumentKey (.ref address) = false :=
  walk_reserved (by simpa [withinInputElementLimit] using h) g.root List.mem_cons_self address hreach

end Graph

end SecureMcp
