import SecureMcp.Lib.Text

set_option autoImplicit false

/-! # Schemas

What a validation library is told, and what it is documented to do with it: which values a schema
accepts and as what (`accept`), and which issues it may report of one that it refuses (`reports`). How
a library finds them, in which order and how many is not said here. A function that parses by a schema
is a parameter, and `Schema.ParsedBy` is what is relied on of it.

`Schema.Ensures` says what holds of every value that a schema accepts. Its rules follow the
combinators. -/

/-- A value that is given to a schema. -/
inductive Raw
  | undefined
  | null
  | boolean (value : Bool)
  /-- With its value when that is an integer. -/
  | number (integer : Option Int)
  | string (text : JsString)
  | array (items : List Raw)
  | object (members : List (JsString × Raw))
  | other

/-- The member of this name. -/
def Raw.get (members : List (JsString × Raw)) (name : JsString) : Raw :=
  match members.find? (fun member => member.1 == name) with
  | some member => member.2
  | none => .undefined

inductive PathKey
  | index (i : Nat)
  | name (text : JsString)
deriving DecidableEq

/-- What the author of a schema knows of an issue: its place and the message given for it. -/
structure Issue where
  path : List PathKey := []
  /-- `none` where the author of the schema gives no message. -/
  message : Option JsString := none
deriving DecidableEq

/-- The issue is that of a member. -/
def Issue.under (key : PathKey) (issue : Issue) : Issue := { issue with path := key :: issue.path }

structure Schema (α : Type) where
  /-- What the value is read as; `none` where the schema refuses it. -/
  accept : Raw → Option α
  reports : Issue → Prop

namespace Schema

variable {α β : Type}

/-- A schema that looks at a value as a whole. -/
def plain (accept : Raw → Option α) : Schema α := ⟨accept, fun issue => issue = {}⟩

def string : Schema JsString := plain fun
  | .string text => some text
  | _ => none

def boolean : Schema Bool := plain fun
  | .boolean value => some value
  | _ => none

def integer : Schema Int := plain fun
  | .number n => n
  | _ => none

/-- One of these texts. -/
def oneOf (table : List (JsString × α)) : Schema α := plain fun
  | .string text => (table.find? (fun entry => entry.1 == text)).map Prod.snd
  | _ => none

def array (item : Schema α) : Schema (List α) where
  accept
    | .array items => items.mapM item.accept
    | _ => none
  reports issue := issue = {} ∨ ∃ i inner, item.reports inner ∧ issue = inner.under (.index i)

/-- A further check of what was read. -/
def check (schema : Schema α) (ok : α → Bool) (message : Option JsString) : Schema α where
  accept raw := (schema.accept raw).filter ok
  reports issue := schema.reports issue ∨ issue = { message }

/-- Further rules, each of which may be about another place. -/
def refine (schema : Schema α) (rules : α → List Issue) : Schema α where
  accept raw := (schema.accept raw).filter (fun a => (rules a).isEmpty)
  reports issue := schema.reports issue ∨ ∃ a, issue ∈ rules a

/-- The value that goes on. -/
def becomes (schema : Schema α) (f : α → β) : Schema β where
  accept raw := (schema.accept raw).map f
  reports := schema.reports

/-- Stands in for a value that is not there, unchecked. -/
def withDefault (schema : Schema α) (value : α) : Schema α where
  accept
    | .undefined => some value
    | raw => schema.accept raw
  reports := schema.reports

/-- Is read instead of a value that is not there. -/
def prefault (schema : Schema α) (value : Raw) : Schema α where
  accept
    | .undefined => schema.accept value
    | raw => schema.accept raw
  reports := schema.reports

def optional (schema : Schema α) : Schema (Option α) where
  accept
    | .undefined => some none
    | raw => (schema.accept raw).map some
  reports := schema.reports

/-- An integer between two bounds. -/
def int (low high : Nat) : Schema Nat :=
  ((integer.check (fun n => decide ((low : Int) ≤ n)) none).check
    (fun n => decide (n ≤ (high : Int))) none).becomes Int.toNat

/-- What is relied on of a function that parses by this schema: what it returns the schema accepts as
    that, and where it refuses there are issues, each the rendering of one that the schema may
    report. -/
structure ParsedBy {ι : Type} (schema : Schema α) (Renders : Issue → ι → Prop)
    (parse : Raw → Except (List ι) α) : Prop where
  accept : ∀ raw a, parse raw = .ok a → schema.accept raw = some a
  ne_nil : ∀ raw issues, parse raw = .error issues → issues ≠ []
  reports : ∀ raw issues, parse raw = .error issues →
    ∀ reported ∈ issues, ∃ issue, schema.reports issue ∧ Renders issue reported

/-- Parses by a schema, and has one thing to say of all that it refuses. -/
def parser {ι : Type} (schema : Schema α) (refused : ι) (raw : Raw) : Except (List ι) α :=
  match schema.accept raw with
  | some a => .ok a
  | none => .error [refused]

end Schema

/-- Members of an object, each with its schema. -/
structure Fields (α : Type) where
  names : List JsString
  accept : (JsString → Raw) → Option α
  reports : Issue → Prop

namespace Fields

variable {α β : Type}

instance : Functor Fields where
  map f fields := ⟨fields.names, fun get => (fields.accept get).map f, fields.reports⟩

instance : Seq Fields where
  seq f fields :=
    ⟨f.names ++ (fields ()).names,
      fun get => (f.accept get).bind (fun g => ((fields ()).accept get).map g),
      fun issue => f.reports issue ∨ (fields ()).reports issue⟩

def field (name : JsString) (schema : Schema α) : Fields α :=
  ⟨[name], fun get => schema.accept (get name),
    fun issue => ∃ inner, schema.reports inner ∧ issue = inner.under (.name name)⟩

/-- A member that an object with these fields may have. One that is called `__proto__` may be passed
    over. -/
def allows (fields : Fields α) (name : JsString) : Bool :=
  fields.names.contains name || name == js "__proto__"

/-- An object with these members and no others. Another member is an issue of the object itself. -/
def strictObject (fields : Fields α) : Schema α where
  accept
    | .object members =>
      if members.all (fun member => fields.allows member.1) then fields.accept (Raw.get members)
      else none
    | _ => none
  reports issue := issue = {} ∨ fields.reports issue

end Fields

/-! ## What acceptance ensures -/

namespace Schema

variable {α β : Type} {schema : Schema α} {P : α → Prop} {Q : β → Prop}

/-- What every accepted value satisfies. -/
def Ensures (schema : Schema α) (P : α → Prop) : Prop :=
  ∀ raw a, schema.accept raw = some a → P a

theorem Ensures.check (h : schema.Ensures P) (ok : α → Bool) (message : Option JsString) :
    (schema.check ok message).Ensures (fun a => P a ∧ ok a = true) := by
  intro raw a haccept
  obtain ⟨hbefore, hok⟩ := Option.filter_eq_some_iff.mp haccept
  exact ⟨h raw a hbefore, hok⟩

theorem Ensures.refine (h : schema.Ensures P) (rules : α → List Issue) :
    (schema.refine rules).Ensures (fun a => P a ∧ rules a = []) := by
  intro raw a haccept
  obtain ⟨hbefore, hnone⟩ := Option.filter_eq_some_iff.mp haccept
  exact ⟨h raw a hbefore, List.isEmpty_iff.mp hnone⟩

theorem Ensures.becomes {f : α → β} (h : schema.Ensures (fun a => Q (f a))) :
    (schema.becomes f).Ensures Q := by
  intro raw b haccept
  obtain ⟨a, ha, rfl⟩ := Option.map_eq_some_iff.mp haccept
  exact h raw a ha

theorem Ensures.withDefault {value : α} (h : schema.Ensures P) (hvalue : P value) :
    (schema.withDefault value).Ensures P := by
  intro raw a haccept
  cases raw with
  | undefined => exact Option.some.inj haccept ▸ hvalue
  | _ => exact h _ a haccept

theorem Ensures.prefault (h : schema.Ensures P) (value : Raw) :
    (schema.prefault value).Ensures P := by
  intro raw a haccept
  cases raw <;> exact h _ a haccept

/-- Any schema ensures nothing in particular. -/
theorem ensures_true (schema : Schema α) : schema.Ensures (fun _ => True) :=
  fun _ _ _ => trivial

theorem int_ensures (low high : Nat) : (int low high).Ensures (fun n => low ≤ n ∧ n ≤ high) := by
  refine Ensures.becomes ?_
  have hbounds := ((ensures_true integer).check (fun n => decide ((low : Int) ≤ n)) none).check
    (fun n => decide (n ≤ (high : Int))) none
  intro raw n haccept
  obtain ⟨⟨-, hlow⟩, hhigh⟩ := hbounds raw n haccept
  have := of_decide_eq_true hlow
  have := of_decide_eq_true hhigh
  omega

/-- A bounded integer with a default within the bounds. -/
theorem int_withDefault_ensures {low high value : Nat} (hvalue : low ≤ value ∧ value ≤ high) :
    ((int low high).withDefault value).Ensures (fun n => low ≤ n ∧ n ≤ high) :=
  (int_ensures low high).withDefault hvalue

section Parsed

variable {ι : Type} {Renders : Issue → ι → Prop}

/-- What the schema ensures holds of all that is returned. -/
theorem ParsedBy.ensures {parse : Raw → Except (List ι) α} {raw : Raw} {a : α}
    (h : schema.ParsedBy Renders parse) (hensures : schema.Ensures P) (hok : parse raw = .ok a) : P a :=
  hensures raw a (h.accept raw a hok)

/-- A schema that may report an issue of the value as a whole is parsed by one that reports only this. -/
theorem parser_parsedBy {refused : ι} (hroot : schema.reports {}) (hrenders : Renders {} refused) :
    schema.ParsedBy Renders (schema.parser refused) := by
  have herror : ∀ raw issues, schema.parser refused raw = .error issues → issues = [refused] := by
    intro raw issues herror
    unfold parser at herror
    split at herror
    · cases herror
    · exact (Except.error.inj herror).symm
  constructor
  case accept =>
    intro raw a hok
    unfold parser at hok
    split at hok
    · next value hvalue => rw [hvalue, Except.ok.inj hok]
    · cases hok
  case ne_nil =>
    intro raw issues hissues
    rw [herror raw issues hissues]
    exact List.cons_ne_nil _ _
  case reports =>
    intro raw issues hissues reported hreported
    rw [herror raw issues hissues] at hreported
    obtain rfl := List.mem_singleton.mp hreported
    exact ⟨{}, hroot, hrenders⟩

end Parsed

end Schema

namespace Fields

variable {α β : Type} {P : α → Prop} {R : β → Prop}

def Ensures (fields : Fields α) (P : α → Prop) : Prop :=
  ∀ get a, fields.accept get = some a → P a

theorem Ensures.field {schema : Schema α} (h : schema.Ensures P) (name : JsString) :
    (field name schema).Ensures P :=
  fun get a haccept => h (get name) a haccept

/-- The first field of a record. -/
theorem Ensures.map {f : α → β} {fields : Fields α} (h : fields.Ensures (fun a => R (f a))) :
    (f <$> fields).Ensures R := by
  intro get b haccept
  obtain ⟨a, ha, rfl⟩ := Option.map_eq_some_iff.mp haccept
  exact h get a ha

/-- A further field of a record. -/
theorem Ensures.seq {f : Fields (α → β)} {fields : Fields α}
    (hf : f.Ensures (fun g => ∀ a, P a → R (g a))) (h : fields.Ensures P) :
    (f <*> fields).Ensures R := by
  intro get b haccept
  obtain ⟨g, hg, hmap⟩ := Option.bind_eq_some_iff.mp haccept
  obtain ⟨a, ha, rfl⟩ := Option.map_eq_some_iff.mp hmap
  exact hf get g hg a (h get a ha)

theorem Ensures.strictObject {fields : Fields α} (h : fields.Ensures P) :
    (strictObject fields).Ensures P := by
  intro raw a haccept
  cases raw with
  | object members =>
      unfold Fields.strictObject at haccept
      dsimp only at haccept
      split at haccept
      · exact h _ a haccept
      · cases haccept
  | _ => cases haccept

end Fields
