import SecureMcp.Lib.Schema

set_option autoImplicit false

/-! # What a schema reports

`Schema.Reports` bounds the issues that a schema may report of any value: the names on their way from the
root, without the indices of arrays, and the messages that the author of the schema has given. The rules
follow the combinators, as those of `Schema.Ensures` do. -/

/-- The names on the way to what is wrong. -/
def PathKey.text : PathKey → Option JsString
  | .index _ => none
  | .name text => some text

def Issue.names (issue : Issue) : List JsString := issue.path.filterMap PathKey.text

/-- The issue is at one of these places, with one of these messages or none. -/
structure Issue.Within (Q : List JsString → Prop) (M : JsString → Prop) (issue : Issue) : Prop where
  names : Q issue.names
  message : ∀ text, issue.message = some text → M text

variable {α β : Type} {Q : List JsString → Prop} {M : JsString → Prop}

theorem Issue.Within.root {message : Option JsString} (hroot : Q [])
    (hmessage : ∀ text, message = some text → M text) : Issue.Within Q M { message } :=
  ⟨hroot, hmessage⟩

/-- An issue of the value as a whole, with nothing said by the author. -/
theorem Issue.Within.silent (hroot : Q []) : Issue.Within Q M {} :=
  .root hroot (fun text htext => absurd htext (by simp))

/-- An index on the way is no name, -/
theorem Issue.Within.index {issue : Issue} (h : issue.Within Q M) (i : Nat) :
    (issue.under (.index i)).Within Q M :=
  ⟨h.names, h.message⟩

/-- and a name is one more. -/
theorem Issue.Within.name {issue : Issue} {text : JsString}
    (h : issue.Within (fun names => Q (text :: names)) M) : (issue.under (.name text)).Within Q M :=
  ⟨h.names, h.message⟩

namespace Schema

variable {schema : Schema α}

/-- What every issue of this schema is like. -/
def Reports (schema : Schema α) (Q : List JsString → Prop) (M : JsString → Prop) : Prop :=
  ∀ issue, schema.reports issue → issue.Within Q M

theorem reports_plain (hroot : Q []) (accept : Raw → Option α) : (plain accept).Reports Q M := by
  rintro issue rfl
  exact .silent hroot

theorem Reports.array (h : schema.Reports Q M) (hroot : Q []) : (array schema).Reports Q M := by
  rintro issue (rfl | ⟨i, inner, hinner, rfl⟩)
  · exact .silent hroot
  · exact (h inner hinner).index i

theorem Reports.check (h : schema.Reports Q M) (ok : α → Bool) {message : Option JsString}
    (hroot : Q []) (hmessage : ∀ text, message = some text → M text) :
    (schema.check ok message).Reports Q M := by
  rintro issue (hissue | rfl)
  · exact h issue hissue
  · exact .root hroot hmessage

/-- A check without a message. -/
theorem Reports.silent (h : schema.Reports Q M) (hroot : Q []) (ok : α → Bool) :
    (schema.check ok none).Reports Q M :=
  h.check ok hroot (fun text htext => absurd htext (by simp))

theorem Reports.refine (h : schema.Reports Q M) {rules : α → List Issue}
    (hrules : ∀ a, ∀ issue ∈ rules a, issue.Within Q M) : (schema.refine rules).Reports Q M := by
  rintro issue (hissue | ⟨a, hissue⟩)
  · exact h issue hissue
  · exact hrules a issue hissue

theorem Reports.becomes (h : schema.Reports Q M) (f : α → β) : (schema.becomes f).Reports Q M := h

theorem Reports.withDefault (h : schema.Reports Q M) (value : α) :
    (schema.withDefault value).Reports Q M := h

theorem Reports.prefault (h : schema.Reports Q M) (value : Raw) :
    (schema.prefault value).Reports Q M := h

theorem Reports.optional (h : schema.Reports Q M) : schema.optional.Reports Q M := h

theorem reports_int (hroot : Q []) (low high : Nat) : (int low high).Reports Q M :=
  (((reports_plain hroot _).silent hroot _).silent hroot _).becomes _

end Schema

namespace Fields

variable {fields : Fields α}

def Reports (fields : Fields α) (Q : List JsString → Prop) (M : JsString → Prop) : Prop :=
  ∀ issue, fields.reports issue → issue.Within Q M

theorem Reports.field {name : JsString} {schema : Schema α}
    (h : schema.Reports (fun names => Q (name :: names)) M) : (field name schema).Reports Q M := by
  rintro issue ⟨inner, hinner, rfl⟩
  exact (h inner hinner).name

theorem Reports.map (h : fields.Reports Q M) (f : α → β) : (f <$> fields).Reports Q M := h

theorem Reports.seq {f : Fields (α → β)} (hf : f.Reports Q M) (h : fields.Reports Q M) :
    (f <*> fields).Reports Q M := by
  rintro issue (hissue | hissue)
  · exact hf issue hissue
  · exact h issue hissue

/-- An unknown name is an issue of the object itself. -/
theorem Reports.strictObject (h : fields.Reports Q M) (hroot : Q []) :
    (strictObject fields).Reports Q M := by
  rintro issue (rfl | hissue)
  · exact .silent hroot
  · exact h issue hissue

end Fields
