import SecureMcp.Lib.Json
import SecureMcp.Lib.Lines

set_option autoImplicit false

/-! # JSON texts as lines

A JSON text with a newline after it is a line: `JSON.stringify` leaves no newline in what it writes,
and in UTF-8 no other code point has the octet of a newline. -/

/-! ## The octets of a text without newlines -/

namespace JsString

theorem codePoints_snoc (text : JsString) :
    codePoints (text ++ [0x0A]) = codePoints text ++ [0x0A] := by
  fun_induction codePoints text with
  | case1 => decide
  | case2 unit =>
      rw [List.singleton_append, codePoints]
      have hlow : isLow 0x0A = false := by decide
      simp only [hlow, Bool.and_false, Bool.false_eq_true, if_false]
      rfl
  | case3 unit next rest hpair ih =>
      rw [List.cons_append, List.cons_append, codePoints, if_pos hpair, ih]
      rfl
  | case4 unit next rest hpair ih =>
      rw [List.cons_append, List.cons_append, codePoints, if_neg hpair, ← List.cons_append, ih]
      rfl

theorem newline_not_mem_utf8 {text : JsString} (h : 0x0A ∉ text) : (0x0A : UInt8) ∉ text.utf8 :=
  fun hmem => h (mem_of_mem_utf8 (u := 0x0A) (by decide) hmem)

end JsString

/-! ## The text of a value -/

theorem NumberState.newline_not_mem_of_run {state final : NumberState} {text : JsString}
    (h : state.run text = some final) : (0x0A : UInt16) ∉ text := by
  induction text generalizing state with
  | nil => simp
  | cons unit rest ih =>
      obtain ⟨state', hnext, hrest⟩ := Option.bind_eq_some_iff.mp h
      intro hmem
      rcases List.mem_cons.mp hmem with hunit | hlater
      · rw [← hunit] at hnext
        have hnone : state.next 0x0A = none := by cases state <;> decide
        rw [hnone] at hnext
        exact absurd hnext (by simp)
      · exact ih hrest hlater

namespace Json

theorem hexDigit_ne_newline {n : Nat} (h : n < 16) : hexDigit n ≠ 0x0A := by
  revert n h
  decide

theorem newline_not_mem_unicodeEscape (unit : UInt16) : (0x0A : UInt16) ∉ unicodeEscape unit := by
  have hlt := unit.toNat_lt
  have h1 := hexDigit_ne_newline (n := unit.toNat / 0x1000) (by omega)
  have h2 := hexDigit_ne_newline (n := unit.toNat / 0x100 % 0x10) (by omega)
  have h3 := hexDigit_ne_newline (n := unit.toNat / 0x10 % 0x10) (by omega)
  have h4 := hexDigit_ne_newline (n := unit.toNat % 0x10) (by omega)
  simp only [unicodeEscape, List.mem_cons, List.not_mem_nil, or_false, not_or]
  exact ⟨by decide, by decide, h1.symm, h2.symm, h3.symm, h4.symm⟩

theorem newline_not_mem_escapeUnit (unit : UInt16) : (0x0A : UInt16) ∉ escapeUnit unit := by
  unfold escapeUnit
  by_cases hnewline : unit = 0x0A
  · rw [hnewline]
    decide
  · repeat' split
    all_goals first
      | decide
      | exact newline_not_mem_unicodeEscape unit
      | exact fun hmem => hnewline (List.mem_singleton.mp hmem).symm

theorem newline_not_mem_escape (text : JsString) : (0x0A : UInt16) ∉ escape text := by
  fun_induction escape text with
  | case1 => simp
  | case2 unit => exact newline_not_mem_escapeUnit unit
  | case3 unit next rest hpair ih =>
      rw [Bool.and_eq_true] at hpair
      simp only [List.mem_cons, not_or]
      refine ⟨?_, ?_, ih⟩
      · rintro rfl
        exact absurd hpair.1 (by decide)
      · rintro rfl
        exact absurd hpair.2 (by decide)
  | case4 unit next rest hpair ih =>
      rw [List.mem_append, not_or]
      exact ⟨newline_not_mem_escapeUnit unit, ih⟩

theorem newline_not_mem_quote (text : JsString) : (0x0A : UInt16) ∉ quote text := by
  have h := newline_not_mem_escape text
  simp [quote, h]

theorem newline_not_mem_joined {items : List JsString} (h : ∀ text ∈ items, (0x0A : UInt16) ∉ text) :
    (0x0A : UInt16) ∉ joined items := by
  fun_induction joined items with
  | case1 => simp
  | case2 item => exact h item List.mem_cons_self
  | case3 item rest _ ih =>
      have hitem := h item List.mem_cons_self
      have hrest := ih (fun text htext => h text (List.mem_cons_of_mem item htext))
      simp [hitem, hrest]

mutual

theorem newline_not_mem_stringify : (value : Json) → (0x0A : UInt16) ∉ value.stringify
  | .null => by decide
  | .bool true => by decide
  | .bool false => by decide
  | .number literal => by
      obtain ⟨state, hrun, _⟩ := (Option.any_eq_true _ _).mp literal.valid
      exact NumberState.newline_not_mem_of_run hrun
  | .string text => newline_not_mem_quote text
  | .array items => by
      have h := newline_not_mem_joined (newline_not_mem_items items)
      simp [stringify, h]
  | .object members => by
      have h := newline_not_mem_joined (newline_not_mem_members members)
      simp [stringify, h]

theorem newline_not_mem_items : (items : List Json) →
    ∀ text ∈ stringifyItems items, (0x0A : UInt16) ∉ text
  | [] => by simp [stringifyItems]
  | item :: rest => by
      have hitem := newline_not_mem_stringify item
      have hrest := newline_not_mem_items rest
      intro text h
      rcases List.mem_cons.mp h with rfl | hlater
      · exact hitem
      · exact hrest text hlater

theorem newline_not_mem_members : (members : List (JsString × Json)) →
    ∀ text ∈ stringifyMembers members, (0x0A : UInt16) ∉ text
  | [] => by simp [stringifyMembers]
  | (key, value) :: rest => by
      have hkey := newline_not_mem_quote key
      have hvalue := newline_not_mem_stringify value
      have hrest := newline_not_mem_members rest
      intro text h
      rcases List.mem_cons.mp h with rfl | hlater
      · simp [hkey, hvalue]
      · exact hrest text hlater

end

/-- `Buffer.from(JSON.stringify(value) + '\n')`. -/
def line (value : Json) : Bytes := (value.stringify ++ [0x0A]).utf8

theorem isLine_line (value : Json) : Lines.IsLine value.line := by
  refine ⟨value.stringify.utf8,
    JsString.newline_not_mem_utf8 (newline_not_mem_stringify value), ?_⟩
  rw [line, JsString.utf8, JsString.codePoints_snoc, List.flatMap_append]
  rfl

end Json
