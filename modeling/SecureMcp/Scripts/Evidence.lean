import SecureMcp.Lib.JsonEscape

set_option autoImplicit false

/-! # Saved evidence (`src/scripts/lib/npm-publication-io.mjs`)

Evidence is saved as an indented JSON text in which en and em dashes are replaced by their escapes,
without regard to where they stand. A number is the literal that is written for it. -/

namespace SecureMcp

open Json

/-- `number.toString(16)`. -/
def toString16 (n : Nat) : JsString := js (String.ofList (Nat.toDigits 16 n))

/-- `/[\u2013\u2014]/`. -/
def isDash (unit : UInt16) : Bool := unit = 0x2013 || unit = 0x2014

/-- The replacement of a match. -/
def escapeDash (character : UInt16) : JsString := js "\\u" ++ toString16 character.toNat

/-- `text.replace(/[\u2013\u2014]/g, …)`. -/
def replaceDashes (text : JsString) : JsString :=
  text.flatMap (fun unit => if isDash unit then escapeDash unit else [unit])

def evidenceJson (value : Json) : JsString :=
  replaceDashes (value.stringifyWith (js "  ")) ++ js "\n"

theorem isDash_iff {unit : UInt16} : isDash unit = true ↔ unit = 0x2013 ∨ unit = 0x2014 := by
  simp [isDash]

/-- Both code points have four hexadecimal digits, so that none is missing in the escape. -/
theorem escapeDash_eq {unit : UInt16} (h : isDash unit = true) : escapeDash unit = unicodeEscape unit := by
  rcases isDash_iff.mp h with rfl | rfl <;> decide

theorem replaceDashes_eq (text : JsString) : replaceDashes text = escapeWhere isDash text := by
  unfold replaceDashes escapeWhere
  congr 1
  funext unit
  by_cases h : isDash unit = true
  · rw [if_pos h, if_pos h, escapeDash_eq h]
  · rw [if_neg h, if_neg h]

/-- No dash is left. -/
theorem not_mem_replaceDashes {dash : UInt16} (hdash : isDash dash = true) (text : JsString) :
    dash ∉ replaceDashes text := by
  intro hmem
  obtain ⟨unit, _, hin⟩ := List.mem_flatMap.mp hmem
  by_cases h : isDash unit = true
  · rw [if_pos h] at hin
    have hescape : (escapeDash unit).all (fun other => !isDash other) = true := by
      rcases isDash_iff.mp h with rfl | rfl <;> decide
    have hnot := List.all_eq_true.mp hescape dash hin
    rw [hdash] at hnot
    exact absurd hnot (by decide)
  · rw [if_neg h, List.mem_singleton] at hin
    rw [← hin] at h
    exact h hdash

theorem not_mem_evidenceJson {dash : UInt16} (hdash : isDash dash = true) (value : Json) :
    dash ∉ evidenceJson value := by
  intro hmem
  rcases List.mem_append.mp hmem with htext | hnewline
  · exact not_mem_replaceDashes hdash _ htext
  · rw [List.mem_singleton.mp hnewline] at hdash
    exact absurd hdash (by decide)

/-- The text of saved evidence has no dash in it, and is read as the value that was saved. -/
theorem parse_evidenceJson (value : Json) :
    (0x2013 : UInt16) ∉ evidenceJson value ∧ (0x2014 : UInt16) ∉ evidenceJson value ∧
      Json.parse (evidenceJson value) = some value := by
  refine ⟨not_mem_evidenceJson rfl value, not_mem_evidenceJson rfl value, ?_⟩
  have hgap : IsBlank (js "  ") :=
    List.all_eq_true.mp (show (js "  ").all isSpace = true by decide)
  have hlarge : ∀ unit, isDash unit = true → 0x80 ≤ unit.toNat := by
    intro unit h
    rcases isDash_iff.mp h with rfl | rfl <;> decide
  -- The newline at the end is no dash, so it may be written before the replacement as well.
  have hline : evidenceJson value = escapeWhere isDash (value.stringifyWith (js "  ") ++ [0x0A]) := by
    rw [evidenceJson, replaceDashes_eq, escapeWhere, escapeWhere, List.flatMap_append]
    rfl
  rw [hline]
  exact parse_escapeWhere hlarge (parse_stringifyWith hgap value)

example : evidenceJson (.object [(js "–", .array [.string (js "\\u2014—")]), (js "a", .object [])]) =
    js "\x7b\n  \"\\u2013\": [\n    \"\\\\u2014\\u2014\"\n  ],\n  \"a\": \x7b\x7d\n\x7d\n" := by decide

end SecureMcp
