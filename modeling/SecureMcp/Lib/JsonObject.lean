import SecureMcp.Lib.Decimal
import SecureMcp.Lib.JsonRead

set_option autoImplicit false

/-! # Objects with named fields

`JSON.stringify` leaves out a member whose value is `undefined`. An object is given here by the list
of its fields, a value for each one that has one, and is read back field by field. -/

namespace Json

/-- The object with these fields. -/
def ofFields (fields : List (JsString × Option Json)) : Json :=
  .object (fields.filterMap (fun field => field.2.map (fun value => (field.1, value))))

theorem property_cons (key : JsString) (member : JsString × Json) (members : List (JsString × Json)) :
    (object (member :: members)).property key =
      ((object members).property key).or (if member.1 = key then some member.2 else none) := by
  simp only [property, List.reverse_cons, List.find?_append]
  cases members.reverse.find? (fun other => other.1 == key) with
  | some found => rfl
  | none =>
      by_cases hkey : member.1 = key
      · simp [hkey]
      · simp [hkey]

theorem property_ofFields_of_not_mem {fields : List (JsString × Option Json)} {key : JsString}
    (h : key ∉ fields.map Prod.fst) : (ofFields fields).property key = none := by
  induction fields with
  | nil => rfl
  | cons field rest ih =>
      rw [List.map_cons, List.mem_cons, not_or] at h
      have hrest := ih h.2
      obtain ⟨name, value⟩ := field
      cases value with
      | none => exact hrest
      | some value =>
          show (object ((name, value) :: _)).property key = none
          rw [property_cons, if_neg (fun heq => h.1 (Eq.symm heq)), Option.or_none]
          exact hrest

/-- A field is read as what it was set to. -/
theorem property_ofFields {fields : List (JsString × Option Json)} {key : JsString}
    {value : Option Json} (hnodup : (fields.map Prod.fst).Nodup) (h : (key, value) ∈ fields) :
    (ofFields fields).property key = value := by
  induction fields with
  | nil => exact absurd h (by simp)
  | cons field rest ih =>
      rw [List.map_cons, List.nodup_cons] at hnodup
      obtain ⟨name, content⟩ := field
      rcases List.mem_cons.mp h with heq | hlater
      · obtain ⟨rfl, rfl⟩ := Prod.mk.inj heq
        have hrest := property_ofFields_of_not_mem hnodup.1
        cases value with
        | none => exact hrest
        | some value =>
            show (object ((key, value) :: _)).property key = some value
            rw [property_cons, if_pos rfl, show (object _).property key = none from hrest]
            rfl
      · have hrest := ih hnodup.2 hlater
        have hne : name ≠ key := by
          intro heq
          have hmem : key ∈ rest.map Prod.fst := List.mem_map_of_mem hlater
          exact hnodup.1 (heq ▸ hmem)
        cases content with
        | none => exact hrest
        | some content =>
            show (object ((name, content) :: _)).property key = value
            rw [property_cons, if_neg hne, Option.or_none]
            exact hrest

end Json
