import SecureMcp.Lib.JsonLine
import SecureMcp.Lib.JsonParser
import SecureMcp.Lib.Utf8Inverse

set_option autoImplicit false

/-! # Reading back what was written

`JSON.parse` reads what `JSON.stringify` wrote as the same value, also with a newline after it
(`parse_line`), and also when the text has been encoded and decoded in between: in what
`JSON.stringify` writes, surrogates only come in pairs. -/

namespace Json

/-! ## Strings -/

/-- Read a text from a state. -/
def reads (state : ParserState) (text : JsString) : Option ParserState :=
  text.foldlM ParserState.next state

theorem reads_append (state : ParserState) (a b : JsString) :
    reads state (a ++ b) = (reads state a).bind (fun state' => reads state' b) :=
  List.foldlM_append

theorem reads_cons (state : ParserState) (unit : UInt16) (rest : JsString) :
    reads state (unit :: rest) = (state.next unit).bind (fun state' => reads state' rest) :=
  List.foldlM_cons

theorem reads_singleton (state : ParserState) (unit : UInt16) :
    reads state [unit] = state.next unit := by
  rw [reads_cons]
  cases state.next unit <;> rfl

variable {stack : List Frame} {read : JsString}

theorem hexValue_hexDigit {n : Nat} (h : n < 16) : hexValue (hexDigit n) = some n := by
  revert n h
  decide

/-- A code unit that stands for itself. -/
theorem next_plain {unit : UInt16} (hquote : unit ≠ 0x22) (hslash : unit ≠ 0x5C)
    (hprint : ¬ unit < 0x20) :
    ParserState.next ⟨stack, .text read⟩ unit = some ⟨stack, .text (unit :: read)⟩ := by
  show (if unit = 0x22 then _ else if unit = 0x5C then _ else if unit < 0x20 then _ else _) = _
  rw [if_neg hquote, if_neg hslash, if_neg hprint]

theorem next_digit {n digits value : Nat} (h : n < 16) (hmore : digits ≠ 1) :
    ParserState.next ⟨stack, .unicode read digits value⟩ (hexDigit n) =
      some ⟨stack, .unicode read (digits - 1) (value * 16 + n)⟩ := by
  show (hexValue (hexDigit n)).map _ = _
  rw [hexValue_hexDigit h, Option.map_some, if_neg hmore]

theorem next_lastDigit {n value : Nat} (h : n < 16) :
    ParserState.next ⟨stack, .unicode read 1 value⟩ (hexDigit n) =
      some ⟨stack, .text (UInt16.ofNat (value * 16 + n) :: read)⟩ := by
  show (hexValue (hexDigit n)).map _ = _
  rw [hexValue_hexDigit h, Option.map_some, if_pos rfl]

theorem reads_unicodeEscape (unit : UInt16) :
    reads ⟨stack, .text read⟩ (unicodeEscape unit) = some ⟨stack, .text (unit :: read)⟩ := by
  have hbound := unit.toNat_lt
  have hslash : ParserState.next ⟨stack, .text read⟩ 0x5C = some ⟨stack, .escaped read⟩ := rfl
  have hletter : ParserState.next ⟨stack, .escaped read⟩ 0x75 = some ⟨stack, .unicode read 4 0⟩ := rfl
  have hvalue : (((0 * 16 + unit.toNat / 0x1000) * 16 + unit.toNat / 0x100 % 0x10) * 16 +
      unit.toNat / 0x10 % 0x10) * 16 + unit.toNat % 0x10 = unit.toNat := by omega
  rw [unicodeEscape]
  rw [reads_cons, hslash, Option.bind_some, reads_cons, hletter, Option.bind_some, reads_cons,
    next_digit (by omega) (by decide), Option.bind_some, reads_cons,
    next_digit (by omega) (by decide), Option.bind_some, reads_cons,
    next_digit (by omega) (by decide), Option.bind_some, reads_singleton,
    next_lastDigit (by omega), hvalue, UInt16.ofNat_toNat]

theorem reads_escapeUnit (unit : UInt16) :
    reads ⟨stack, .text read⟩ (escapeUnit unit) = some ⟨stack, .text (unit :: read)⟩ := by
  unfold escapeUnit
  split
  · next h => rw [h]; rfl
  · next hquote =>
      split
      · next h => rw [h]; rfl
      · next hslash =>
          split
          · next h => rw [h]; rfl
          · split
            · next h => rw [h]; rfl
            · split
              · next h => rw [h]; rfl
              · split
                · next h => rw [h]; rfl
                · split
                  · next h => rw [h]; rfl
                  · split
                    · exact reads_unicodeEscape unit
                    · next hplain =>
                        rw [reads_singleton]
                        refine next_plain hquote hslash (fun hlt => hplain ?_)
                        rw [Bool.or_assoc, Bool.or_eq_true]
                        exact Or.inl (decide_eq_true hlt)

/-- A surrogate is no code unit with a meaning of its own. -/
theorem next_surrogate {unit : UInt16} (h : 0xD800 ≤ unit.toNat) :
    ParserState.next ⟨stack, .text read⟩ unit = some ⟨stack, .text (unit :: read)⟩ := by
  refine next_plain ?_ ?_ (fun hlt => ?_)
  · rintro rfl
    exact absurd h (by decide)
  · rintro rfl
    exact absurd h (by decide)
  · have hsmall : unit.toNat < 0x20 := UInt16.lt_iff_toNat_lt.mp hlt
    omega

theorem reads_escape (text : JsString) :
    reads ⟨stack, .text read⟩ (escape text) = some ⟨stack, .text (text.reverse ++ read)⟩ := by
  fun_induction escape text generalizing read with
  | case1 => rfl
  | case2 unit => exact reads_escapeUnit unit
  | case3 unit next rest hpair ih =>
      simp only [JsString.isHigh, JsString.isLow, Bool.and_eq_true, decide_eq_true_eq] at hpair
      rw [reads_cons, next_surrogate hpair.1.1, Option.bind_some, reads_cons,
        next_surrogate (by omega), Option.bind_some, ih]
      simp
  | case4 unit next rest hpair ih =>
      rw [reads_append, reads_escapeUnit, Option.bind_some, ih]
      simp

/-- From the opening quote to the closing one. -/
theorem reads_quote {state : ParserState} (text : JsString)
    (hopen : state.next 0x22 = some ⟨stack, .text []⟩) :
    reads state (quote text) = completeText text stack := by
  rw [quote, reads_append, reads_append, reads_singleton, hopen, Option.bind_some, reads_escape,
    Option.bind_some, reads_singleton]
  show completeText (text.reverse ++ []).reverse stack = _
  rw [List.append_nil, List.reverse_reverse]

/-! ## Values -/

/-- Something that may follow a value. -/
def isCloser (unit : UInt16) : Bool := unit = 0x2C || unit = 0x5D || unit = 0x7D || unit = 0x0A

/-- In this state the value is all that was read since the stack was this one. -/
structure HasRead (state : ParserState) (value : Json) (stack : List Frame) : Prop where
  next : ∀ unit, isCloser unit = true →
    state.next unit = (complete value stack).bind (fun after => afterValue after unit)
  result : stack = [] → state.result = some value

/-- A value may be read here. -/
def IsPlace (stack : List Frame) : Prop := ∀ members rest, stack ≠ .object members :: rest

theorem exists_complete (value : Json) (h : IsPlace stack) :
    ∃ state, complete value stack = some state ∧ HasRead state value stack := by
  cases stack with
  | nil => exact ⟨_, rfl, fun _ _ => rfl, fun _ => rfl⟩
  | cons frame rest =>
      cases frame with
      | array items => exact ⟨_, rfl, fun _ _ => rfl, fun hnil => absurd hnil (by simp)⟩
      | object members => exact absurd rfl (h members rest)
      | member members key => exact ⟨_, rfl, fun _ _ => rfl, fun hnil => absurd hnil (by simp)⟩

theorem completeText_of_isPlace (text : JsString) (h : IsPlace stack) :
    completeText text stack = complete (.string text) stack := by
  unfold completeText
  split
  · next members rest => exact absurd rfl (h members rest)
  · rfl

/-- `null`, `true` or `false`, with nothing left of it. -/
theorem hasRead_word (literal : Json) : HasRead ⟨stack, .word [] literal⟩ literal stack := by
  refine ⟨fun _ _ => rfl, ?_⟩
  rintro rfl
  rfl

theorem next_in_number {position position' : NumberState} {unit : UInt16}
    (h : position.next unit = some position') :
    ParserState.next ⟨stack, .number read position⟩ unit = some ⟨stack, .number (unit :: read) position'⟩ := by
  simp only [ParserState.next, h]

/-- A code unit that does not belong to the number comes after its value. -/
theorem next_after_number {position : NumberState} {unit : UInt16} (h : position.next unit = none) :
    ParserState.next ⟨stack, .number read position⟩ unit =
      (completeNumber read.reverse stack).bind (fun after => afterValue after unit) := by
  simp only [ParserState.next, h]

theorem hasRead_number (literal : NumberLiteral) {state : NumberState}
    (hstate : NumberState.start.run literal.text = some state) :
    HasRead ⟨stack, .number literal.text.reverse state⟩ (.number literal) stack := by
  constructor
  case next =>
    intro unit hcloser
    have hnone : state.next unit = none := by
      simp only [isCloser, Bool.or_eq_true, decide_eq_true_eq] at hcloser
      rcases hcloser with ((rfl | rfl) | rfl) | rfl <;> cases state <;> decide
    rw [next_after_number hnone, List.reverse_reverse, completeNumber, dif_pos literal.valid]
  case result =>
    rintro rfl
    show (if valid : isNumberLiteral literal.text.reverse.reverse = true then
      if ([] : List Frame).isEmpty then some (Json.number ⟨_, valid⟩) else none else none) = _
    simp [List.reverse_reverse, literal.valid]

/-- The rest of a number literal. -/
theorem reads_number {text : JsString} {position final : NumberState}
    (h : position.run text = some final) :
    reads ⟨stack, .number read position⟩ text = some ⟨stack, .number (text.reverse ++ read) final⟩ := by
  induction text generalizing read position with
  | nil =>
      obtain rfl := Option.some.inj h
      rfl
  | cons unit rest ih =>
      obtain ⟨position', hnext, hrest⟩ := Option.bind_eq_some_iff.mp h
      rw [reads_cons, next_in_number hnext, Option.bind_some, ih hrest]
      simp

theorem joined_cons (item : JsString) {rest : List JsString} (h : rest ≠ []) :
    joined (item :: rest) = item ++ [0x2C] ++ joined rest := by
  cases rest with
  | nil => exact absurd rfl h
  | cons next later => rfl

theorem indentedItems_ne_nil {gap indent : JsString} {items : List Json} (h : items ≠ []) :
    indentedItems gap indent items ≠ [] := by
  cases items with
  | nil => exact absurd rfl h
  | cons item rest => simp [indentedItems]

theorem indentedMembers_ne_nil {gap indent : JsString} {members : List (JsString × Json)}
    (h : members ≠ []) : indentedMembers gap indent members ≠ [] := by
  cases members with
  | nil => exact absurd rfl h
  | cons member rest => simp [indentedMembers]

theorem ne_of_next {unit other : UInt16} {position : NumberState}
    (h : NumberState.start.next unit = some position) (hother : NumberState.start.next other = none) :
    unit ≠ other := by
  rintro rfl
  exact absurd (h.symm.trans hother) (by simp)

theorem isSpace_of_next {unit : UInt16} {position : NumberState}
    (h : NumberState.start.next unit = some position) : isSpace unit = false := by
  simp only [isSpace, Bool.or_eq_false_iff, decide_eq_false_iff_not]
  exact ⟨⟨⟨ne_of_next h (by decide), ne_of_next h (by decide)⟩, ne_of_next h (by decide)⟩,
    ne_of_next h (by decide)⟩

/-- The first code unit of a number. -/
theorem next_number {unit : UInt16} {position : NumberState}
    (h : NumberState.start.next unit = some position) :
    ParserState.next ⟨stack, .value⟩ unit = some ⟨stack, .number [unit] position⟩ := by
  show (if isSpace unit then _ else beginValue stack unit) = _
  rw [isSpace_of_next h, if_neg Bool.false_ne_true, beginValue, if_neg (ne_of_next h (by decide)),
    if_neg (ne_of_next h (by decide)), if_neg (ne_of_next h (by decide)),
    if_neg (ne_of_next h (by decide)), if_neg (ne_of_next h (by decide)),
    if_neg (ne_of_next h (by decide)), h]
  rfl

/-- A number literal is not empty. -/
theorem exists_number (literal : NumberLiteral) :
    ∃ unit rest position final, literal.text = unit :: rest ∧
      NumberState.start.next unit = some position ∧ position.run rest = some final := by
  obtain ⟨final, hrun, haccepts⟩ := (Option.any_eq_true _ _).mp literal.valid
  cases htext : literal.text with
  | nil =>
      rw [htext] at hrun
      obtain rfl := Option.some.inj hrun
      exact absurd haccepts (by decide)
  | cons unit rest =>
      rw [htext] at hrun
      obtain ⟨position, hnext, hrest⟩ := Option.bind_eq_some_iff.mp hrun
      exact ⟨unit, rest, position, final, rfl, hnext, hrest⟩

/-- No written value begins with a space or a closing bracket. -/
theorem indented_head (gap indent : JsString) (value : Json) :
    ∃ unit rest, value.indented gap indent = unit :: rest ∧ isSpace unit = false ∧ unit ≠ 0x5D := by
  match value with
  | null => exact ⟨_, _, rfl, by decide, by decide⟩
  | bool true => exact ⟨_, _, rfl, by decide, by decide⟩
  | bool false => exact ⟨_, _, rfl, by decide, by decide⟩
  | string text => exact ⟨_, _, rfl, by decide, by decide⟩
  | array [] => exact ⟨_, _, rfl, by decide, by decide⟩
  | array (item :: rest) => exact ⟨_, _, rfl, by decide, by decide⟩
  | object [] => exact ⟨_, _, rfl, by decide, by decide⟩
  | object (member :: rest) => exact ⟨_, _, rfl, by decide, by decide⟩
  | number literal =>
      obtain ⟨unit, rest, position, final, htext, hnext, _⟩ := exists_number literal
      exact ⟨unit, rest, htext, isSpace_of_next hnext, ne_of_next hnext (by decide)⟩

/-! ### Between the values -/

/-- Nothing but spaces. -/
def IsBlank (text : JsString) : Prop := ∀ unit ∈ text, isSpace unit = true

theorem IsBlank.append {a b : JsString} (ha : IsBlank a) (hb : IsBlank b) : IsBlank (a ++ b) := by
  intro unit h
  rcases List.mem_append.mp h with hleft | hright
  · exact ha unit hleft
  · exact hb unit hright

theorem isBlank_lineBreak {gap indent : JsString} (h : IsBlank indent) :
    IsBlank (lineBreak gap indent) := by
  unfold lineBreak
  by_cases hgap : gap.isEmpty = true
  · rw [if_pos hgap]
    exact fun _ hmem => absurd hmem (by simp)
  · rw [if_neg hgap]
    intro unit hmem
    rcases List.mem_cons.mp hmem with rfl | hlater
    · decide
    · exact h unit hlater

/-- Spaces that do not change the state are skipped. -/
theorem reads_blank {state : ParserState} {blank : JsString}
    (hskip : ∀ unit, isSpace unit = true → state.next unit = some state) (hblank : IsBlank blank)
    (more : JsString) : reads state (blank ++ more) = reads state more := by
  induction blank with
  | nil => rfl
  | cons unit rest ih =>
      have hrest := ih (fun other hother => hblank other (List.mem_cons_of_mem _ hother))
      rw [List.cons_append, reads_cons, hskip unit (hblank unit List.mem_cons_self), Option.bind_some,
        hrest]

theorem skip_value {unit : UInt16} (h : isSpace unit = true) :
    ParserState.next ⟨stack, .value⟩ unit = some ⟨stack, .value⟩ := if_pos h

theorem skip_firstItem {unit : UInt16} (h : isSpace unit = true) :
    ParserState.next ⟨stack, .firstItem⟩ unit = some ⟨stack, .firstItem⟩ := if_pos h

theorem skip_firstKey {unit : UInt16} (h : isSpace unit = true) :
    ParserState.next ⟨stack, .firstKey⟩ unit = some ⟨stack, .firstKey⟩ := if_pos h

theorem skip_key {unit : UInt16} (h : isSpace unit = true) :
    ParserState.next ⟨stack, .key⟩ unit = some ⟨stack, .key⟩ := if_pos h

/-- After the opening bracket an item is read as anywhere else. -/
theorem reads_firstItem {blank : JsString} (hblank : IsBlank blank) (gap indent : JsString)
    (value : Json) (more : JsString) :
    reads ⟨stack, .firstItem⟩ (blank ++ value.indented gap indent ++ more) =
      reads ⟨stack, .value⟩ (blank ++ value.indented gap indent ++ more) := by
  obtain ⟨unit, rest, htext, hspace, hbracket⟩ := indented_head gap indent value
  have hnext : ParserState.next ⟨stack, .firstItem⟩ unit = ParserState.next ⟨stack, .value⟩ unit := by
    show (if isSpace unit then _ else if unit = 0x5D then _ else beginValue stack unit) =
      (if isSpace unit then _ else beginValue stack unit)
    rw [hspace, if_neg Bool.false_ne_true, if_neg hbracket, if_neg Bool.false_ne_true]
  rw [List.append_assoc, reads_blank (fun _ h => skip_firstItem h) hblank,
    reads_blank (fun _ h => skip_value h) hblank, htext, List.cons_append, reads_cons, reads_cons, hnext]

/-- After the colon a value may be read, also after a space. -/
theorem reads_colon (gap : JsString) {members : List (JsString × Json)} {key : JsString} :
    reads ⟨.member members key :: stack, .colon⟩ (colon gap) =
      some ⟨.member members key :: stack, .value⟩ := by
  unfold colon
  split <;> rfl

/-- A value is complete at the end of its line. -/
theorem next_of_complete {value : Json} {after : ParserState} (h : complete value stack = some after)
    (unit : UInt16) : after.next unit = afterValue after unit := by
  cases stack with
  | nil =>
      obtain rfl := Option.some.inj h
      rfl
  | cons frame rest =>
      cases frame with
      | array items =>
          obtain rfl := Option.some.inj h
          rfl
      | object members => exact absurd h (by simp [complete])
      | member members key =>
          obtain rfl := Option.some.inj h
          rfl

/-- A closing bracket, on the line of the value or on the next one. -/
theorem reads_closer {state : ParserState} {value : Json} (hread : HasRead state value stack)
    (gap : JsString) {indent : JsString} (hblank : IsBlank indent) {unit : UInt16}
    (hcloser : isCloser unit = true) :
    reads state (lineBreak gap indent ++ [unit]) =
      (complete value stack).bind (fun after => afterValue after unit) := by
  unfold lineBreak
  by_cases hgap : gap.isEmpty = true
  · rw [if_pos hgap, List.nil_append, reads_singleton, hread.next unit hcloser]
  rw [if_neg hgap, List.cons_append, reads_cons, hread.next 0x0A rfl]
  cases hcomplete : complete value stack with
  | none => rfl
  | some after =>
      have hnext := next_of_complete hcomplete
      have hskip : ∀ other, isSpace other = true → after.next other = some after := by
        intro other hother
        rw [hnext, afterValue, if_pos hother]
      rw [Option.bind_some, Option.bind_some, ← hnext, hskip 0x0A rfl, Option.bind_some,
        reads_blank hskip hblank, reads_singleton, hnext]

/-! ### The whole text -/

theorem reads_word {state : ParserState} {literal : Json} (rest : JsString)
    (hstate : state = ⟨stack, .word rest literal⟩) :
    reads state rest = some ⟨stack, .word [] literal⟩ := by
  subst hstate
  induction rest with
  | nil => rfl
  | cons unit later ih =>
      have hnext : ParserState.next ⟨stack, .word (unit :: later) literal⟩ unit =
          some ⟨stack, .word later literal⟩ := if_pos rfl
      rw [reads_cons, hnext, Option.bind_some, ih]

variable {gap : JsString}

mutual

/-- What was written for a value is read as this value. -/
theorem reads_indented (hgap : IsBlank gap) : (value : Json) → ∀ indent stack, IsBlank indent → IsPlace stack →
    ∃ state, reads ⟨stack, .value⟩ (value.indented gap indent) = some state ∧
      HasRead state value stack
  | .null => fun _ stack _ _ => ⟨_, reads_word (js "ull") rfl, hasRead_word .null⟩
  | .bool true => fun _ stack _ _ => ⟨_, reads_word (js "rue") rfl, hasRead_word (.bool true)⟩
  | .bool false => fun _ stack _ _ => ⟨_, reads_word (js "alse") rfl, hasRead_word (.bool false)⟩
  | .number literal => by
      intro indent stack _ _
      obtain ⟨unit, rest, position, final, htext, hnext, hrest⟩ := exists_number literal
      have hrun : NumberState.start.run literal.text = some final := by
        rw [htext, NumberState.run, hnext, Option.bind_some, hrest]
      refine ⟨_, ?_, hasRead_number literal hrun⟩
      rw [indented, htext, reads_cons, next_number hnext, Option.bind_some, reads_number hrest]
      simp
  | .string text => by
      intro indent stack _ hplace
      obtain ⟨state, hstate, hread⟩ := exists_complete (.string text) hplace
      exact ⟨state, by rw [indented, reads_quote text rfl, completeText_of_isPlace text hplace, hstate],
        hread⟩
  | .array [] => by
      intro indent stack _ hplace
      obtain ⟨state, hstate, hread⟩ := exists_complete (.array []) hplace
      refine ⟨state, ?_, hread⟩
      have hopen : ParserState.next ⟨stack, .value⟩ 0x5B = some ⟨.array [] :: stack, .firstItem⟩ := rfl
      show reads ⟨stack, .value⟩ [0x5B, 0x5D] = _
      rw [reads_cons, hopen, Option.bind_some, reads_singleton]
      exact hstate
  | .array (item :: rest) => by
      intro indent stack hindent hplace
      obtain ⟨state, hstate, hread⟩ := exists_complete (.array (item :: rest)) hplace
      refine ⟨state, ?_, hread⟩
      have hinner := hindent.append hgap
      have hitems := reads_items hgap (item :: rest) (indent ++ gap) indent [] stack hinner hindent (by simp)
      have hopen : ParserState.next ⟨stack, .value⟩ 0x5B = some ⟨.array [] :: stack, .firstItem⟩ := rfl
      have hfirst : ∀ more, reads ⟨.array [] :: stack, .firstItem⟩
          (joined (indentedItems gap (indent ++ gap) (item :: rest)) ++ more) =
          reads ⟨.array [] :: stack, .value⟩
            (joined (indentedItems gap (indent ++ gap) (item :: rest)) ++ more) := by
        intro more
        have hbreak : IsBlank (lineBreak gap (indent ++ gap)) := isBlank_lineBreak hinner
        by_cases hrest : rest = []
        · rw [hrest]
          exact reads_firstItem hbreak gap (indent ++ gap) item more
        · rw [indentedItems, joined_cons _ (indentedItems_ne_nil hrest), List.append_assoc,
            List.append_assoc]
          exact reads_firstItem hbreak gap (indent ++ gap) item _
      rw [indented, List.append_assoc, List.append_assoc, List.singleton_append, reads_cons, hopen,
        Option.bind_some, hfirst, hitems]
      exact hstate
  | .object [] => by
      intro indent stack _ hplace
      obtain ⟨state, hstate, hread⟩ := exists_complete (.object []) hplace
      refine ⟨state, ?_, hread⟩
      have hopen : ParserState.next ⟨stack, .value⟩ 0x7B = some ⟨.object [] :: stack, .firstKey⟩ := rfl
      show reads ⟨stack, .value⟩ [0x7B, 0x7D] = _
      rw [reads_cons, hopen, Option.bind_some, reads_singleton]
      exact hstate
  | .object (member :: rest) => by
      intro indent stack hindent hplace
      obtain ⟨state, hstate, hread⟩ := exists_complete (.object (member :: rest)) hplace
      refine ⟨state, ?_, hread⟩
      have hmembers := reads_members hgap (member :: rest) (indent ++ gap) indent [] stack .firstKey
        (hindent.append hgap) hindent (by simp) rfl (fun _ h => skip_firstKey h)
      have hopen : ParserState.next ⟨stack, .value⟩ 0x7B = some ⟨.object [] :: stack, .firstKey⟩ := rfl
      rw [indented, List.append_assoc, List.append_assoc, List.singleton_append, reads_cons, hopen,
        Option.bind_some, hmembers]
      exact hstate

theorem reads_items (hgap : IsBlank gap) : (items : List Json) → ∀ indent outer done stack,
    IsBlank indent → IsBlank outer → items ≠ [] → reads ⟨.array done :: stack, .value⟩
      (joined (indentedItems gap indent items) ++ (lineBreak gap outer ++ [0x5D])) =
      complete (.array (done.reverse ++ items)) stack
  | [] => fun _ _ _ _ _ _ h => absurd rfl h
  | item :: rest => by
      intro indent outer done stack hindent houter _
      have hplace : IsPlace (.array done :: stack) := fun _ _ h => Frame.noConfusion (List.cons.inj h).1
      obtain ⟨state, hstate, hread⟩ := reads_indented hgap item indent (.array done :: stack) hindent hplace
      have hitem : reads ⟨.array done :: stack, .value⟩ (lineBreak gap indent ++ item.indented gap indent) =
          some state := by
        rw [reads_blank (fun _ h => skip_value h) (isBlank_lineBreak hindent), hstate]
      by_cases hrest : rest = []
      · rw [hrest]
        show reads _ (lineBreak gap indent ++ item.indented gap indent ++ _) = _
        rw [reads_append, hitem, Option.bind_some, reads_closer hread gap houter rfl]
        show complete (.array (item :: done).reverse) stack = _
        rw [List.reverse_cons]
      · rw [indentedItems, joined_cons _ (indentedItems_ne_nil hrest), List.append_assoc,
          List.append_assoc, reads_append, hitem, Option.bind_some, List.singleton_append, reads_cons,
          hread.next 0x2C rfl]
        show reads ⟨.array (item :: done) :: stack, .value⟩ _ = _
        rw [reads_items hgap rest indent outer (item :: done) stack hindent houter hrest, List.reverse_cons,
          List.append_assoc, List.singleton_append]

theorem reads_members (hgap : IsBlank gap) : (members : List (JsString × Json)) →
    ∀ indent outer done stack mode, IsBlank indent → IsBlank outer → members ≠ [] →
    ParserState.next ⟨.object done :: stack, mode⟩ 0x22 = some ⟨.object done :: stack, .text []⟩ →
    (∀ unit, isSpace unit = true → ParserState.next ⟨.object done :: stack, mode⟩ unit =
      some ⟨.object done :: stack, mode⟩) →
    reads ⟨.object done :: stack, mode⟩
      (joined (indentedMembers gap indent members) ++ (lineBreak gap outer ++ [0x7D])) =
      complete (.object (done.reverse ++ members)) stack
  | [] => fun _ _ _ _ _ _ _ h => absurd rfl h
  | (key, value) :: rest => by
      intro indent outer done stack mode hindent houter _ hopen hskip
      have hplace : IsPlace (.member done key :: stack) :=
        fun _ _ h => Frame.noConfusion (List.cons.inj h).1
      obtain ⟨state, hstate, hread⟩ :=
        reads_indented hgap value indent (.member done key :: stack) hindent hplace
      have hkey : reads ⟨.object done :: stack, mode⟩ (quote key) =
          some ⟨.member done key :: stack, .colon⟩ := reads_quote key hopen
      have hmember : reads ⟨.object done :: stack, mode⟩
          (lineBreak gap indent ++ quote key ++ colon gap ++ value.indented gap indent) = some state := by
        rw [List.append_assoc, List.append_assoc, reads_blank hskip (isBlank_lineBreak hindent),
          reads_append, hkey, Option.bind_some, reads_append, reads_colon, Option.bind_some, hstate]
      by_cases hrest : rest = []
      · rw [hrest]
        show reads _
          (lineBreak gap indent ++ quote key ++ colon gap ++ value.indented gap indent ++ _) = _
        rw [reads_append, hmember, Option.bind_some, reads_closer hread gap houter rfl]
        show complete (.object ((key, value) :: done).reverse) stack = _
        rw [List.reverse_cons]
      · rw [indentedMembers, joined_cons _ (indentedMembers_ne_nil hrest), List.append_assoc,
          List.append_assoc, reads_append, hmember, Option.bind_some, List.singleton_append, reads_cons,
          hread.next 0x2C rfl]
        show reads ⟨.object ((key, value) :: done) :: stack, .key⟩ _ = _
        rw [reads_members hgap rest indent outer ((key, value) :: done) stack .key hindent houter hrest rfl
          (fun _ h => skip_key h), List.reverse_cons, List.append_assoc, List.singleton_append]

end

/-- `JSON.parse(JSON.stringify(value, null, gap) + '\n')`. -/
theorem parse_stringifyWith (hgap : IsBlank gap) (value : Json) :
    parse (value.stringifyWith gap ++ [0x0A]) = some value := by
  have hplace : IsPlace [] := fun _ _ h => absurd h (by simp)
  have hblank : IsBlank [] := fun _ h => absurd h (by simp)
  obtain ⟨state, hstate, hread⟩ := reads_indented hgap value [] [] hblank hplace
  have hnewline : state.next 0x0A = some ⟨[], .done value⟩ := hread.next 0x0A rfl
  have hall : reads {} (value.stringifyWith gap ++ [0x0A]) = some ⟨[], .done value⟩ := by
    rw [reads_append, stringifyWith, hstate, Option.bind_some, reads_singleton, hnewline]
  show (reads {} (value.stringifyWith gap ++ [0x0A])).bind ParserState.result = some value
  rw [hall]
  rfl

/-- `JSON.parse(JSON.stringify(value) + '\n')`. -/
theorem parse_stringify (value : Json) : parse (value.stringify ++ [0x0A]) = some value := by
  rw [← indented_nil value]
  exact parse_stringifyWith (fun _ h => absurd h (by simp)) value

/-- The text of a value says which value it is. -/
theorem stringify_injective {a b : Json} (h : a.stringify = b.stringify) : a = b := by
  have hparse := parse_stringify a
  rw [h, parse_stringify b] at hparse
  exact (Option.some.inj hparse).symm

/-! ## Code units outside ASCII -/

section

variable {unit : UInt16} (hlarge : 0x80 ≤ unit.toNat)

include hlarge

theorem ne_of_large {c : UInt16} (h : c.toNat < 0x80) : unit ≠ c := by
  rintro rfl
  omega

theorem not_le_of_large {other : UInt16} (h : other.toNat < 0x80) : ¬ unit ≤ other := by
  intro hle
  have hsmall := UInt16.le_iff_toNat_le.mp hle
  omega

theorem numberNext_large (position : NumberState) : position.next unit = none := by
  have hdigit : NumberState.isDigit unit = false :=
    Bool.and_eq_false_iff.mpr (Or.inr (decide_eq_false (not_le_of_large hlarge (by decide))))
  cases position <;>
    simp [NumberState.next, hdigit, ne_of_large hlarge (c := 0x2D) (by decide),
      ne_of_large hlarge (c := 0x30) (by decide), ne_of_large hlarge (c := 0x2E) (by decide),
      ne_of_large hlarge (c := 0x65) (by decide), ne_of_large hlarge (c := 0x45) (by decide),
      ne_of_large hlarge (c := 0x2B) (by decide)]

end

/-! ## Well-formed texts -/

section

open JsString

theorem wellFormed_unit {unit : UInt16} (h : unit.toNat < 0xD800) : wellFormed [unit] = true := by
  have hhigh : isHigh unit = false := by
    simp only [isHigh, Bool.and_eq_false_iff, decide_eq_false_iff_not]
    omega
  have hlow : isLow unit = false := by
    simp only [isLow, Bool.and_eq_false_iff, decide_eq_false_iff_not]
    omega
  rw [wellFormed, hhigh, hlow]
  rfl

theorem wellFormed_of_small {text : JsString} (h : ∀ unit ∈ text, unit.toNat < 0xD800) :
    wellFormed text = true := by
  induction text with
  | nil => rfl
  | cons unit rest ih =>
      exact wellFormed_append (wellFormed_unit (h unit List.mem_cons_self))
        (ih (fun other hother => h other (List.mem_cons_of_mem _ hother)))

theorem hexDigit_small {n : Nat} (h : n < 16) : (hexDigit n).toNat < 0xD800 := by
  revert n h
  decide

theorem wellFormed_escapeUnit (unit : UInt16) : wellFormed (escapeUnit unit) = true := by
  have hbound := unit.toNat_lt
  unfold escapeUnit
  repeat' split
  · decide
  · decide
  · decide
  · decide
  · decide
  · decide
  · decide
  · refine wellFormed_of_small ?_
    intro other hother
    simp only [unicodeEscape, List.mem_cons, List.not_mem_nil, or_false] at hother
    rcases hother with rfl | rfl | rfl | rfl | rfl | rfl
    · decide
    · decide
    · exact hexDigit_small (by omega)
    · exact hexDigit_small (by omega)
    · exact hexDigit_small (by omega)
    · exact hexDigit_small (by omega)
  · next h =>
      rw [Bool.not_eq_true, Bool.or_assoc, Bool.or_eq_false_iff] at h
      rw [wellFormed, h.2]
      rfl

theorem wellFormed_escape (text : JsString) : wellFormed (escape text) = true := by
  fun_induction escape text with
  | case1 => rfl
  | case2 unit => exact wellFormed_escapeUnit unit
  | case3 unit next rest hpair ih => rw [wellFormed, if_pos hpair, ih]
  | case4 unit next rest hpair ih => exact wellFormed_append (wellFormed_escapeUnit unit) ih

theorem wellFormed_quote (text : JsString) : wellFormed (quote text) = true :=
  wellFormed_append (wellFormed_append (by decide) (wellFormed_escape text)) (by decide)

theorem wellFormed_joined {items : List JsString} (h : ∀ text ∈ items, wellFormed text = true) :
    wellFormed (joined items) = true := by
  fun_induction joined items with
  | case1 => rfl
  | case2 item => exact h item List.mem_cons_self
  | case3 item rest _ ih =>
      exact wellFormed_append (wellFormed_append (h item List.mem_cons_self) (by decide))
        (ih (fun text htext => h text (List.mem_cons_of_mem item htext)))

theorem small_of_next {state position : NumberState} {unit : UInt16}
    (h : state.next unit = some position) : unit.toNat < 0xD800 := by
  by_contra hlarge
  rw [numberNext_large (by omega)] at h
  exact absurd h (by simp)

theorem wellFormed_of_run {state final : NumberState} {text : JsString}
    (h : state.run text = some final) : wellFormed text = true := by
  induction text generalizing state with
  | nil => rfl
  | cons unit rest ih =>
      obtain ⟨position, hnext, hrest⟩ := Option.bind_eq_some_iff.mp h
      exact wellFormed_append (wellFormed_unit (small_of_next hnext)) (ih hrest)

mutual

theorem wellFormed_stringify : (value : Json) → wellFormed value.stringify = true
  | .null => by decide
  | .bool true => by decide
  | .bool false => by decide
  | .number literal => by
      obtain ⟨final, hrun, _⟩ := (Option.any_eq_true _ _).mp literal.valid
      exact wellFormed_of_run hrun
  | .string text => wellFormed_quote text
  | .array items =>
      wellFormed_append (wellFormed_append (by decide) (wellFormed_joined (wellFormed_items items)))
        (by decide)
  | .object members =>
      wellFormed_append (wellFormed_append (by decide)
        (wellFormed_joined (wellFormed_members members))) (by decide)

theorem wellFormed_items : (items : List Json) →
    ∀ text ∈ stringifyItems items, wellFormed text = true
  | [] => by simp [stringifyItems]
  | item :: rest => by
      have hitem := wellFormed_stringify item
      have hrest := wellFormed_items rest
      intro text h
      rcases List.mem_cons.mp h with rfl | hlater
      · exact hitem
      · exact hrest text hlater

theorem wellFormed_members : (members : List (JsString × Json)) →
    ∀ text ∈ stringifyMembers members, wellFormed text = true
  | [] => by simp [stringifyMembers]
  | (key, value) :: rest => by
      have hmember := wellFormed_append (wellFormed_append (wellFormed_quote key)
        (show wellFormed [0x3A] = true by decide)) (wellFormed_stringify value)
      have hrest := wellFormed_members rest
      intro text h
      rcases List.mem_cons.mp h with rfl | hlater
      · exact hmember
      · exact hrest text hlater

end

end

/-- A line is read as the value that it was written for. -/
theorem parse_line (value : Json) : parse (JsString.ofUtf8 value.line) = some value := by
  have hwell : JsString.wellFormed (value.stringify ++ [0x0A]) = true :=
    JsString.wellFormed_append (wellFormed_stringify value) (by decide)
  rw [line, JsString.ofUtf8_utf8 hwell, parse_stringify]

end Json
