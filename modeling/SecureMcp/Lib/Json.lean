import SecureMcp.Lib.Text

set_option autoImplicit false

/-! # JSON values and their text

A JSON value as a tree, and the text `JSON.stringify` writes for it. A number is kept as its
literal, which carries the proof that it is one; members keep the order in which they are
written. -/

/-- The positions inside a number literal, named by what has just been read. -/
inductive NumberState
  | start
  | minus
  | zero
  | integer
  | point
  | fraction
  | exponent
  | exponentSign
  | exponentDigits
deriving DecidableEq, Repr

namespace NumberState

def isDigit (unit : UInt16) : Bool := 0x30 ≤ unit && unit ≤ 0x39

/-- The position after one more code unit; `none` when the literal cannot go on with it. -/
def next (state : NumberState) (unit : UInt16) : Option NumberState :=
  let leading := if unit = 0x30 then some zero else if isDigit unit then some integer else none
  let tail :=
    if unit = 0x2E then some point
    else if unit = 0x65 || unit = 0x45 then some exponent
    else none
  match state with
  | start => if unit = 0x2D then some minus else leading
  | minus => leading
  | zero => tail
  | integer => if isDigit unit then some integer else tail
  | point => if isDigit unit then some fraction else none
  | fraction =>
    if isDigit unit then some fraction
    else if unit = 0x65 || unit = 0x45 then some exponent
    else none
  | exponent =>
    if unit = 0x2B || unit = 0x2D then some exponentSign
    else if isDigit unit then some exponentDigits
    else none
  | exponentSign | exponentDigits => if isDigit unit then some exponentDigits else none

/-- A literal may end here. -/
def accepts : NumberState → Bool
  | zero | integer | fraction | exponentDigits => true
  | _ => false

/-- Read on from a position to the end of the text. -/
def run : NumberState → JsString → Option NumberState
  | state, [] => some state
  | state, unit :: rest => (state.next unit).bind (fun state' => run state' rest)

end NumberState

/-- `-`? integer part, optional fraction, optional exponent. -/
def isNumberLiteral (text : JsString) : Bool := (NumberState.start.run text).any NumberState.accepts

/-- A number as it is written in JSON. -/
structure NumberLiteral where
  text : JsString
  valid : isNumberLiteral text = true
deriving DecidableEq

inductive Json
  | null
  | bool (value : Bool)
  | number (literal : NumberLiteral)
  | string (value : JsString)
  | array (items : List Json)
  | object (members : List (JsString × Json))

namespace Json

/-! ## Writing -/

def hexDigit (n : Nat) : UInt16 :=
  if n < 10 then UInt16.ofNat (0x30 + n) else UInt16.ofNat (0x61 + (n - 10))

/-- `\u` and four lower-case hexadecimal digits. -/
def unicodeEscape (unit : UInt16) : JsString :=
  let n := unit.toNat
  [0x5C, 0x75, hexDigit (n / 0x1000), hexDigit (n / 0x100 % 0x10), hexDigit (n / 0x10 % 0x10),
    hexDigit (n % 0x10)]

/-- One code unit that is not half of a surrogate pair. -/
def escapeUnit (unit : UInt16) : JsString :=
  if unit = 0x22 then [0x5C, 0x22]
  else if unit = 0x5C then [0x5C, 0x5C]
  else if unit = 0x08 then [0x5C, 0x62]
  else if unit = 0x0C then [0x5C, 0x66]
  else if unit = 0x0A then [0x5C, 0x6E]
  else if unit = 0x0D then [0x5C, 0x72]
  else if unit = 0x09 then [0x5C, 0x74]
  else if unit < 0x20 || JsString.isHigh unit || JsString.isLow unit then unicodeEscape unit
  else [unit]

/-- The inside of a string literal: surrogate pairs are kept, lone surrogates are escaped. -/
def escape : JsString → JsString
  | [] => []
  | [unit] => escapeUnit unit
  | unit :: next :: rest =>
    if JsString.isHigh unit && JsString.isLow next then unit :: next :: escape rest
    else escapeUnit unit ++ escape (next :: rest)

def quote (text : JsString) : JsString := [0x22] ++ escape text ++ [0x22]

/-- Join with commas. -/
def joined : List JsString → JsString
  | [] => []
  | [item] => item
  | item :: rest => item ++ [0x2C] ++ joined rest

mutual

/-- `JSON.stringify`, without indentation. -/
def stringify : Json → JsString
  | null => js "null"
  | bool true => js "true"
  | bool false => js "false"
  | number literal => literal.text
  | string text => quote text
  | array items => [0x5B] ++ joined (stringifyItems items) ++ [0x5D]
  | object members => [0x7B] ++ joined (stringifyMembers members) ++ [0x7D]

def stringifyItems : List Json → List JsString
  | [] => []
  | item :: rest => item.stringify :: stringifyItems rest

def stringifyMembers : List (JsString × Json) → List JsString
  | [] => []
  | (key, value) :: rest => (quote key ++ [0x3A] ++ value.stringify) :: stringifyMembers rest

end

/-! ## Writing on several lines -/

/-- The next line, when there is an indentation. -/
def lineBreak (gap indent : JsString) : JsString := if gap.isEmpty then [] else 0x0A :: indent

/-- What stands between the key and the value of a member. -/
def colon (gap : JsString) : JsString := if gap.isEmpty then [0x3A] else [0x3A, 0x20]

mutual

/-- What `JSON.stringify` writes for a value inside lines that begin with `indent`, each level going
    in by another `gap`. -/
def indented (gap indent : JsString) : Json → JsString
  | null => js "null"
  | bool true => js "true"
  | bool false => js "false"
  | number literal => literal.text
  | string text => quote text
  | array [] => [0x5B, 0x5D]
  | array (item :: rest) =>
    [0x5B] ++ joined (indentedItems gap (indent ++ gap) (item :: rest)) ++ lineBreak gap indent ++ [0x5D]
  | object [] => [0x7B, 0x7D]
  | object (member :: rest) =>
    [0x7B] ++ joined (indentedMembers gap (indent ++ gap) (member :: rest)) ++ lineBreak gap indent ++
      [0x7D]

def indentedItems (gap indent : JsString) : List Json → List JsString
  | [] => []
  | item :: rest => (lineBreak gap indent ++ item.indented gap indent) :: indentedItems gap indent rest

def indentedMembers (gap indent : JsString) : List (JsString × Json) → List JsString
  | [] => []
  | (key, value) :: rest =>
    (lineBreak gap indent ++ quote key ++ colon gap ++ value.indented gap indent) ::
      indentedMembers gap indent rest

end

/-- `JSON.stringify(value, null, gap)`, for a `gap` of at most ten spaces. -/
def stringifyWith (gap : JsString) (value : Json) : JsString := value.indented gap []

mutual

/-- Without a gap everything stands on one line. -/
theorem indented_nil : (value : Json) → value.indented [] [] = value.stringify
  | .null => rfl
  | .bool true => rfl
  | .bool false => rfl
  | .number _ => rfl
  | .string _ => rfl
  | .array [] => rfl
  | .array (item :: rest) => by
      rw [indented, stringify, List.append_nil, indentedItems_nil (item :: rest), lineBreak]
      simp
  | .object [] => rfl
  | .object (member :: rest) => by
      rw [indented, stringify, List.append_nil, indentedMembers_nil (member :: rest), lineBreak]
      simp

theorem indentedItems_nil : (items : List Json) → indentedItems [] [] items = stringifyItems items
  | [] => rfl
  | item :: rest => by
      rw [indentedItems, stringifyItems, indented_nil item, indentedItems_nil rest, lineBreak]
      simp

theorem indentedMembers_nil : (members : List (JsString × Json)) →
    indentedMembers [] [] members = stringifyMembers members
  | [] => rfl
  | (key, value) :: rest => by
      rw [indentedMembers, stringifyMembers, indented_nil value, indentedMembers_nil rest, lineBreak,
        colon]
      simp

end

end Json
