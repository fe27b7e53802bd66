import Mathlib.Algebra.GroupWithZero.Nat
import SecureMcp.Lib.Json

set_option autoImplicit false

/-! # Parsing JSON

`JSON.parse` as a machine that reads one code unit at a time. What is open, the arrays and objects
around the place that is read, is a stack; what may come next is the mode. -/

namespace Json

/-! ## The machine -/

/-- An array or object that is not closed yet, its contents in reverse. -/
inductive Frame
  | array (items : List Json)
  | object (members : List (JsString × Json))
  /-- The value of this key is being read. -/
  | member (members : List (JsString × Json)) (key : JsString)

inductive Mode
  | value
  /-- After `[`: a value or `]`. -/
  | firstItem
  /-- After `{`: a key or `}`. -/
  | firstKey
  | key
  | colon
  /-- Inside a string, with what was read of it in reverse. -/
  | text (read : JsString)
  | escaped (read : JsString)
  /-- Inside `\u`, with the digits still to come and the value so far. -/
  | unicode (read : JsString) (digits : Nat) (unit : Nat)
  | number (read : JsString) (state : NumberState)
  /-- Inside `null`, `true` or `false`. -/
  | word (rest : JsString) (literal : Json)
  /-- After a value inside an array or object. -/
  | after
  | done (result : Json)

structure ParserState where
  stack : List Frame := []
  mode : Mode := .value

def isSpace (unit : UInt16) : Bool := unit = 0x20 || unit = 0x09 || unit = 0x0A || unit = 0x0D

def hexValue (unit : UInt16) : Option Nat :=
  if 0x30 ≤ unit && unit ≤ 0x39 then some (unit.toNat - 0x30)
  else if 0x41 ≤ unit && unit ≤ 0x46 then some (unit.toNat - 0x41 + 10)
  else if 0x61 ≤ unit && unit ≤ 0x66 then some (unit.toNat - 0x61 + 10)
  else none

/-- What a character after a backslash stands for. -/
def unescape (unit : UInt16) : Option UInt16 :=
  if unit = 0x22 || unit = 0x5C || unit = 0x2F then some unit
  else if unit = 0x62 then some 0x08
  else if unit = 0x66 then some 0x0C
  else if unit = 0x6E then some 0x0A
  else if unit = 0x72 then some 0x0D
  else if unit = 0x74 then some 0x09
  else none

/-- A value is complete: it is the result, or the next content of what is open. -/
def complete (value : Json) : List Frame → Option ParserState
  | [] => some ⟨[], .done value⟩
  | .array items :: rest => some ⟨.array (value :: items) :: rest, .after⟩
  | .member members key :: rest => some ⟨.object ((key, value) :: members) :: rest, .after⟩
  | .object _ :: _ => none

/-- A string is complete: a key, where a key is read, else a value. -/
def completeText (text : JsString) : List Frame → Option ParserState
  | .object members :: rest => some ⟨.member members text :: rest, .colon⟩
  | stack => complete (.string text) stack

/-- The first code unit of a value. -/
def beginValue (stack : List Frame) (unit : UInt16) : Option ParserState :=
  if unit = 0x22 then some ⟨stack, .text []⟩
  else if unit = 0x5B then some ⟨.array [] :: stack, .firstItem⟩
  else if unit = 0x7B then some ⟨.object [] :: stack, .firstKey⟩
  else if unit = 0x6E then some ⟨stack, .word (js "ull") .null⟩
  else if unit = 0x74 then some ⟨stack, .word (js "rue") (.bool true)⟩
  else if unit = 0x66 then some ⟨stack, .word (js "alse") (.bool false)⟩
  else (NumberState.start.next unit).map (fun state => ⟨stack, .number [unit] state⟩)

/-- A code unit after a complete value. -/
def afterValue (state : ParserState) (unit : UInt16) : Option ParserState :=
  if isSpace unit then some state
  else
    match state.stack with
    | .array items :: rest =>
      if unit = 0x2C then some ⟨.array items :: rest, .value⟩
      else if unit = 0x5D then complete (.array items.reverse) rest
      else none
    | .object members :: rest =>
      if unit = 0x2C then some ⟨.object members :: rest, .key⟩
      else if unit = 0x7D then complete (.object members.reverse) rest
      else none
    | _ => none

/-- A number is complete. -/
def completeNumber (text : JsString) (stack : List Frame) : Option ParserState :=
  if valid : isNumberLiteral text = true then complete (.number ⟨text, valid⟩) stack else none

def ParserState.next (state : ParserState) (unit : UInt16) : Option ParserState :=
  match state.mode with
  | .value => if isSpace unit then some state else beginValue state.stack unit
  | .firstItem =>
    if isSpace unit then some state
    else if unit = 0x5D then afterValue state unit
    else beginValue state.stack unit
  | .firstKey =>
    if isSpace unit then some state
    else if unit = 0x7D then afterValue state unit
    else if unit = 0x22 then some ⟨state.stack, .text []⟩
    else none
  | .key =>
    if isSpace unit then some state
    else if unit = 0x22 then some ⟨state.stack, .text []⟩
    else none
  | .colon =>
    if isSpace unit then some state
    else if unit = 0x3A then some ⟨state.stack, .value⟩
    else none
  | .text read =>
    if unit = 0x22 then completeText read.reverse state.stack
    else if unit = 0x5C then some ⟨state.stack, .escaped read⟩
    else if unit < 0x20 then none
    else some ⟨state.stack, .text (unit :: read)⟩
  | .escaped read =>
    if unit = 0x75 then some ⟨state.stack, .unicode read 4 0⟩
    else (unescape unit).map (fun meant => ⟨state.stack, .text (meant :: read)⟩)
  | .unicode read digits value =>
    (hexValue unit).map (fun digit =>
      if digits = 1 then ⟨state.stack, .text (UInt16.ofNat (value * 16 + digit) :: read)⟩
      else ⟨state.stack, .unicode read (digits - 1) (value * 16 + digit)⟩)
  | .number read position =>
    match position.next unit with
    | some position' => some ⟨state.stack, .number (unit :: read) position'⟩
    | none => (completeNumber read.reverse state.stack).bind (fun after => afterValue after unit)
  | .word [] literal => (complete literal state.stack).bind (fun after => afterValue after unit)
  | .word (expected :: rest) literal =>
    if unit = expected then some ⟨state.stack, .word rest literal⟩ else none
  | .after | .done _ => afterValue state unit

/-- What was read, when the text may end here. -/
def ParserState.result (state : ParserState) : Option Json :=
  match state.mode with
  | .done result => some result
  | .number read _ =>
    if valid : isNumberLiteral read.reverse = true then
      if state.stack.isEmpty then some (.number ⟨read.reverse, valid⟩) else none
    else none
  | .word [] literal => if state.stack.isEmpty then some literal else none
  | _ => none

/-- `JSON.parse`; `none` when it throws. Members keep duplicates. -/
def parse (text : JsString) : Option Json :=
  (text.foldlM ParserState.next {}).bind ParserState.result

/-! ## Reading a value -/

/-- `value[key]`, for a key that nothing inherits: of duplicate members the last one counts. -/
def property (key : JsString) : Json → Option Json
  | object members => (members.reverse.find? (fun member => member.1 == key)).map Prod.snd
  | _ => none

def isNull : Json → Bool
  | null => true
  | _ => false

/-- `typeof value === 'string'`. -/
def isString : Json → Bool
  | string _ => true
  | _ => false

/-- The string, when `typeof value === 'string'`. -/
def text? : Option Json → Option JsString
  | some (string value) => some value
  | _ => none

theorem text?_eq_some {value : Option Json} {text : JsString} :
    text? value = some text ↔ value = some (.string text) := by
  constructor
  · intro h
    unfold text? at h
    split at h
    · rw [Option.some.inj h]
    · cases h
  · rintro rfl
    rfl

/-- What has a property is not `null`. -/
theorem not_isNull_of_property {key : JsString} {value found : Json} (h : value.property key = some found) :
    (!value.isNull) = true := by
  cases value with
  | null => cases h
  | _ => rfl

end Json

/-! ## The value of a number -/

/-- The number `digits * 10 ^ (exponent - scale)`, each part with its sign. -/
structure Decimal where
  negative : Bool := false
  digits : Nat := 0
  scale : Nat := 0
  small : Bool := false
  exponent : Nat := 0

namespace Decimal

/-- Read one code unit that brought the literal to this position. -/
def push (decimal : Decimal) (state : NumberState) (unit : UInt16) : Decimal :=
  match state with
  | .minus => { decimal with negative := true }
  | .zero | .integer => { decimal with digits := decimal.digits * 10 + (unit.toNat - 0x30) }
  | .fraction =>
    { decimal with digits := decimal.digits * 10 + (unit.toNat - 0x30), scale := decimal.scale + 1 }
  | .exponentSign => { decimal with small := unit = 0x2D }
  | .exponentDigits => { decimal with exponent := decimal.exponent * 10 + (unit.toNat - 0x30) }
  | _ => decimal

def read : Decimal → NumberState → JsString → Decimal
  | decimal, _, [] => decimal
  | decimal, state, unit :: rest =>
    match state.next unit with
    | some state' => read (decimal.push state' unit) state' rest
    | none => decimal

/-- The power of ten that multiplies the digits, and the one that divides them. -/
def powers (decimal : Decimal) : Nat × Nat :=
  if decimal.small then (1, 10 ^ (decimal.exponent + decimal.scale))
  else (10 ^ decimal.exponent, 10 ^ decimal.scale)

/-- The number itself. -/
def value (decimal : Decimal) : Rat :=
  (if decimal.negative then -1 else 1) * ((decimal.digits * decimal.powers.1 : Nat) : Rat) /
    (decimal.powers.2 : Rat)

/-- The double nearest to this number is 0. -/
def isZero (decimal : Decimal) : Bool := decimal.digits * decimal.powers.1 * 2 ^ 1075 ≤ decimal.powers.2

/-- The double nearest to this number is 1: it is between 1 - 2⁻⁵⁴ and 1 + 2⁻⁵³, and both ends,
    half way to the next double, round to 1 because its last bit is even. -/
def isOne (decimal : Decimal) : Bool :=
  let above := decimal.digits * decimal.powers.1
  let below := decimal.powers.2
  !decimal.negative && decide ((2 ^ 54 - 1) * below ≤ 2 ^ 54 * above)
    && decide (2 ^ 53 * above ≤ (2 ^ 53 + 1) * below)

end Decimal

/-- The number, when `typeof value === 'number'`. -/
def Json.number? : Option Json → Option Rat
  | some (number literal) => some (Decimal.read {} .start literal.text).value
  | _ => none

/-- `Boolean(value)`. -/
def Json.truthy : Option Json → Bool
  | none | some .null => false
  | some (.bool value) => value
  | some (.number literal) => !(Decimal.read {} .start literal.text).isZero
  | some (.string value) => !value.isEmpty
  | some _ => true

/-- `value === 1`. -/
def Json.isOne : Json → Bool
  | number literal => (Decimal.read {} .start literal.text).isOne
  | _ => false

example : ((Json.parse (js " \x7b\"a\": [1, 2e3], \"b\" : null, \"a\":0.010e+2 \x7d\n")).bind
    (Json.property (js "a"))).any Json.isOne = true := by decide

example : (Json.parse (js "\x7b\"a\": 1,\x7d")).isNone = true := by decide
