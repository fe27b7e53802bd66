import SecureMcp.Lib.JsonRead

set_option autoImplicit false

/-! # Escaping what has been written

Replacing code units of a JSON text by their `\u` escapes, wherever they stand. Outside ASCII this
leaves the value of the text: the parser only reads such a code unit inside a string, and not right
after a backslash, where its escape is read as the same code unit. -/

namespace Json

variable {stack : List Frame}

/-- Write `\u` escapes for some of the code units of a text. -/
def escapeWhere (chosen : UInt16 → Bool) (text : JsString) : JsString :=
  text.flatMap (fun unit => if chosen unit then unicodeEscape unit else [unit])

/-! ## Where the parser reads outside ASCII -/

section

variable {unit : UInt16} (hlarge : 0x80 ≤ unit.toNat)

include hlarge

theorem isSpace_large : isSpace unit = false := by
  simp only [isSpace, Bool.or_eq_false_iff, decide_eq_false_iff_not]
  exact ⟨⟨⟨ne_of_large hlarge (by decide), ne_of_large hlarge (by decide)⟩,
    ne_of_large hlarge (by decide)⟩, ne_of_large hlarge (by decide)⟩

theorem beginValue_large : beginValue stack unit = none := by
  rw [beginValue, if_neg (ne_of_large hlarge (by decide)), if_neg (ne_of_large hlarge (by decide)),
    if_neg (ne_of_large hlarge (by decide)), if_neg (ne_of_large hlarge (by decide)),
    if_neg (ne_of_large hlarge (by decide)), if_neg (ne_of_large hlarge (by decide)),
    numberNext_large hlarge, Option.map_none]

theorem afterValue_large (state : ParserState) : afterValue state unit = none := by
  rw [afterValue, isSpace_large hlarge, if_neg Bool.false_ne_true]
  split
  · rw [if_neg (ne_of_large hlarge (by decide)), if_neg (ne_of_large hlarge (by decide))]
  · rw [if_neg (ne_of_large hlarge (by decide)), if_neg (ne_of_large hlarge (by decide))]
  · rfl

theorem hexValue_large : hexValue unit = none := by
  rw [hexValue, if_neg, if_neg, if_neg]
  all_goals
    rw [Bool.not_eq_true, Bool.and_eq_false_iff]
    exact Or.inr (decide_eq_false (not_le_of_large hlarge (by decide)))

theorem unescape_large : unescape unit = none := by
  simp [unescape, ne_of_large hlarge (c := 0x22) (by decide),
    ne_of_large hlarge (c := 0x5C) (by decide), ne_of_large hlarge (c := 0x2F) (by decide),
    ne_of_large hlarge (c := 0x62) (by decide), ne_of_large hlarge (c := 0x66) (by decide),
    ne_of_large hlarge (c := 0x6E) (by decide), ne_of_large hlarge (c := 0x72) (by decide),
    ne_of_large hlarge (c := 0x74) (by decide)]

/-- The words that are waited for are in ASCII. -/
def Mode.Plain : Mode → Prop
  | .word rest _ => ∀ unit ∈ rest, unit.toNat < 0x80
  | _ => True

/-- Outside ASCII the parser only reads what is inside a string, and not after a backslash. -/
theorem text_of_next {mode : Mode} {after : ParserState} (hplain : mode.Plain)
    (h : ParserState.next ⟨stack, mode⟩ unit = some after) :
    ∃ read, mode = .text read ∧ after = ⟨stack, .text (unit :: read)⟩ := by
  have hspace := isSpace_large hlarge
  have hquote : unit ≠ 0x22 := ne_of_large hlarge (by decide)
  -- In every other mode the code unit would have to be one below 0x80.
  cases mode with
  | text read =>
      rw [next_plain hquote (ne_of_large hlarge (by decide))
        (fun hlt => not_le_of_large hlarge (by decide) (UInt16.le_of_lt hlt))] at h
      exact ⟨read, rfl, (Option.some.inj h).symm⟩
  | value => simp [ParserState.next, hspace, beginValue_large hlarge] at h
  | firstItem =>
      simp [ParserState.next, hspace, beginValue_large hlarge, afterValue_large hlarge] at h
  | firstKey => simp [ParserState.next, hspace, hquote, afterValue_large hlarge] at h
  | key => simp [ParserState.next, hspace, hquote] at h
  | colon => simp [ParserState.next, hspace, ne_of_large hlarge (c := 0x3A) (by decide)] at h
  | escaped read =>
      simp [ParserState.next, unescape_large hlarge,
        ne_of_large hlarge (c := 0x75) (by decide)] at h
  | unicode read digits value => simp [ParserState.next, hexValue_large hlarge] at h
  | number read position =>
      simp [ParserState.next, numberNext_large hlarge, afterValue_large hlarge] at h
  | word rest literal =>
      cases rest with
      | nil => simp [ParserState.next, afterValue_large hlarge] at h
      | cons expected later =>
          have hne := ne_of_large hlarge (hplain expected List.mem_cons_self)
          simp [ParserState.next, hne] at h
  | after => simp [ParserState.next, afterValue_large hlarge] at h
  | done result => simp [ParserState.next, afterValue_large hlarge] at h

end

/-! ## Every word stays in ASCII -/

theorem plain_complete {value : Json} {after : ParserState} (h : complete value stack = some after) :
    after.mode.Plain := by
  unfold complete at h
  split at h
  · obtain rfl := Option.some.inj h
    trivial
  · obtain rfl := Option.some.inj h
    trivial
  · obtain rfl := Option.some.inj h
    trivial
  · exact absurd h (by simp)

theorem plain_completeText {text : JsString} {after : ParserState}
    (h : completeText text stack = some after) : after.mode.Plain := by
  unfold completeText at h
  split at h
  · obtain rfl := Option.some.inj h
    trivial
  · exact plain_complete h

theorem plain_afterValue {s after : ParserState} {unit : UInt16} (hplain : s.mode.Plain)
    (h : afterValue s unit = some after) : after.mode.Plain := by
  unfold afterValue at h
  split at h
  · obtain rfl := Option.some.inj h
    exact hplain
  · split at h
    · split at h
      · obtain rfl := Option.some.inj h
        trivial
      · split at h
        · exact plain_complete h
        · exact absurd h (by simp)
    · split at h
      · obtain rfl := Option.some.inj h
        trivial
      · split at h
        · exact plain_complete h
        · exact absurd h (by simp)
    · exact absurd h (by simp)

theorem small_of_all {t : JsString} (h : t.all (fun unit => unit.toNat < 0x80) = true) :
    ∀ unit ∈ t, unit.toNat < 0x80 := by
  simpa using h

theorem plain_beginValue {after : ParserState} {unit : UInt16}
    (h : beginValue stack unit = some after) : after.mode.Plain := by
  unfold beginValue at h
  split at h
  · obtain rfl := Option.some.inj h
    trivial
  split at h
  · obtain rfl := Option.some.inj h
    trivial
  split at h
  · obtain rfl := Option.some.inj h
    trivial
  split at h
  · obtain rfl := Option.some.inj h
    exact small_of_all (t := js "ull") (by decide)
  split at h
  · obtain rfl := Option.some.inj h
    exact small_of_all (t := js "rue") (by decide)
  split at h
  · obtain rfl := Option.some.inj h
    exact small_of_all (t := js "alse") (by decide)
  obtain ⟨position, _, rfl⟩ := Option.map_eq_some_iff.mp h
  trivial

theorem plain_completeNumber {text : JsString} {after : ParserState}
    (h : completeNumber text stack = some after) : after.mode.Plain := by
  unfold completeNumber at h
  split at h
  · exact plain_complete h
  · exact absurd h (by simp)

theorem plain_next {mode : Mode} {after : ParserState} {unit : UInt16} (hplain : mode.Plain)
    (h : ParserState.next ⟨stack, mode⟩ unit = some after) : after.mode.Plain := by
  cases mode with
  | value =>
      change (if isSpace unit then _ else _) = _ at h
      split at h
      · obtain rfl := Option.some.inj h
        trivial
      · exact plain_beginValue h
  | firstItem =>
      change (if isSpace unit then _ else if unit = 0x5D then _ else _) = _ at h
      split at h
      · obtain rfl := Option.some.inj h
        trivial
      split at h
      · exact plain_afterValue (s := ⟨stack, .firstItem⟩) trivial h
      · exact plain_beginValue h
  | firstKey =>
      change (if isSpace unit then _ else if unit = 0x7D then _ else if unit = 0x22 then _ else _) = _ at h
      split at h
      · obtain rfl := Option.some.inj h
        trivial
      split at h
      · exact plain_afterValue (s := ⟨stack, .firstKey⟩) trivial h
      split at h
      · obtain rfl := Option.some.inj h
        trivial
      · exact absurd h (by simp)
  | key =>
      change (if isSpace unit then _ else if unit = 0x22 then _ else _) = _ at h
      split at h
      · obtain rfl := Option.some.inj h
        trivial
      split at h
      · obtain rfl := Option.some.inj h
        trivial
      · exact absurd h (by simp)
  | colon =>
      change (if isSpace unit then _ else if unit = 0x3A then _ else _) = _ at h
      split at h
      · obtain rfl := Option.some.inj h
        trivial
      split at h
      · obtain rfl := Option.some.inj h
        trivial
      · exact absurd h (by simp)
  | text read =>
      change (if unit = 0x22 then _ else if unit = 0x5C then _ else if unit < 0x20 then _ else _) = _ at h
      split at h
      · exact plain_completeText h
      split at h
      · obtain rfl := Option.some.inj h
        trivial
      split at h
      · exact absurd h (by simp)
      · obtain rfl := Option.some.inj h
        trivial
  | escaped read =>
      change (if unit = 0x75 then _ else Option.map _ _) = _ at h
      split at h
      · obtain rfl := Option.some.inj h
        trivial
      · obtain ⟨meant, _, rfl⟩ := Option.map_eq_some_iff.mp h
        trivial
  | unicode read digits value =>
      obtain ⟨digit, _, rfl⟩ := Option.map_eq_some_iff.mp h
      split <;> trivial
  | number read position =>
      cases hnext : position.next unit with
      | some position' =>
          rw [next_in_number hnext] at h
          obtain rfl := Option.some.inj h
          trivial
      | none =>
          rw [next_after_number hnext] at h
          obtain ⟨middle, hmiddle, hafter⟩ := Option.bind_eq_some_iff.mp h
          exact plain_afterValue (plain_completeNumber hmiddle) hafter
  | word rest literal =>
      cases rest with
      | nil =>
          obtain ⟨middle, hmiddle, hafter⟩ := Option.bind_eq_some_iff.mp h
          exact plain_afterValue (plain_complete hmiddle) hafter
      | cons expected later =>
          change (if unit = expected then _ else _) = _ at h
          split at h
          · obtain rfl := Option.some.inj h
            exact fun other hother => hplain other (List.mem_cons_of_mem _ hother)
          · exact absurd h (by simp)
  | after => exact plain_afterValue (s := ⟨stack, .after⟩) trivial h
  | done result => exact plain_afterValue (s := ⟨stack, .done result⟩) trivial h

/-! ## The value of an escaped text -/

/-- An escape is read as what it stands for, wherever that could stand itself. -/
theorem reads_escapeWhere {chosen : UInt16 → Bool}
    (hlarge : ∀ unit, chosen unit = true → 0x80 ≤ unit.toNat) (text : JsString)
    {state after : ParserState} (hplain : state.mode.Plain) (h : reads state text = some after) :
    reads state (escapeWhere chosen text) = some after := by
  induction text generalizing state with
  | nil => exact h
  | cons unit rest ih =>
      rw [reads_cons] at h
      obtain ⟨middle, hmiddle, hrest⟩ := Option.bind_eq_some_iff.mp h
      have hlater := ih (plain_next hplain hmiddle) hrest
      rw [escapeWhere, List.flatMap_cons, reads_append]
      by_cases hchosen : chosen unit = true
      · obtain ⟨read, hmode, rfl⟩ := text_of_next (hlarge unit hchosen) hplain hmiddle
        have hstate : state = ⟨state.stack, .text read⟩ := by rw [← hmode]
        rw [if_pos hchosen, hstate, reads_unicodeEscape, Option.bind_some]
        exact hlater
      · rw [if_neg hchosen, reads_singleton, hmiddle, Option.bind_some]
        exact hlater

/-- Escaping code units of a JSON text leaves its value. -/
theorem parse_escapeWhere {chosen : UInt16 → Bool}
    (hlarge : ∀ unit, chosen unit = true → 0x80 ≤ unit.toNat) {text : JsString} {value : Json}
    (h : parse text = some value) : parse (escapeWhere chosen text) = some value := by
  obtain ⟨state, hstate, hresult⟩ := Option.bind_eq_some_iff.mp h
  have hescaped : reads {} (escapeWhere chosen text) = some state :=
    reads_escapeWhere hlarge text trivial hstate
  show (reads {} (escapeWhere chosen text)).bind ParserState.result = some value
  rw [hescaped, Option.bind_some, hresult]

end Json
