import SecureMcp.Lib.Text

set_option autoImplicit false

/-! # Decoding UTF-8

The decoder of the WHATWG encoding standard as a state machine over octets: an octet that cannot go
on with the sequence read so far makes an error and is then read again as a first one. A fatal
decoder gives up at the first error; `Buffer.toString()` puts U+FFFD in its place. -/

/-- The position inside a sequence: the bits read so far, how many octets are still to come, and
    the range of the next one. -/
structure Utf8State where
  point : Nat := 0
  needed : Nat := 0
  lower : Nat := 0x80
  upper : Nat := 0xBF
deriving DecidableEq, Repr

namespace Utf8State

/-- Read a first octet: a code point, an error (`none`), or the start of a sequence. -/
def first (octet : Nat) : List (Option Nat) × Utf8State :=
  if octet < 0x80 then ([some octet], {})
  else if octet < 0xC2 then ([none], {})
  else if octet < 0xE0 then ([], { point := octet % 0x20, needed := 1 })
  else if octet < 0xF0 then
    ([], { point := octet % 0x10, needed := 2, lower := if octet = 0xE0 then 0xA0 else 0x80,
           upper := if octet = 0xED then 0x9F else 0xBF })
  else if octet < 0xF5 then
    ([], { point := octet % 0x08, needed := 3, lower := if octet = 0xF0 then 0x90 else 0x80,
           upper := if octet = 0xF4 then 0x8F else 0xBF })
  else ([none], {})

def next (state : Utf8State) (octet : Nat) : List (Option Nat) × Utf8State :=
  if state.needed = 0 then first octet
  else if octet < state.lower || state.upper < octet then
    (none :: (first octet).1, (first octet).2)
  else
    let point := state.point * 0x40 + octet % 0x40
    if state.needed = 1 then ([some point], {}) else ([], { point, needed := state.needed - 1 })

/-- Decode to the end of the octets; a sequence that is cut short there is an error. -/
def decode : Utf8State → Bytes → List (Option Nat)
  | state, [] => if state.needed = 0 then [] else [none]
  | state, octet :: rest => (state.next octet.toNat).1 ++ decode (state.next octet.toNat).2 rest

end Utf8State

namespace JsString

/-- The code units of one code point. -/
def ofPoint (point : Nat) : JsString :=
  if point < 0x10000 then [UInt16.ofNat point]
  else
    [UInt16.ofNat (0xD800 + (point - 0x10000) / 0x400),
      UInt16.ofNat (0xDC00 + (point - 0x10000) % 0x400)]

/-- A byte order mark at the start is not part of the text. -/
def dropMark : List Nat → List Nat
  | 0xFEFF :: rest => rest
  | points => points

/-- `new TextDecoder('utf-8', { fatal: true }).decode(bytes)`; `none` when it throws. -/
def decodeFatal (bytes : Bytes) : Option JsString :=
  ((Utf8State.decode {} bytes).mapM id).map (fun points => (dropMark points).flatMap ofPoint)

/-- `bytes.toString('utf8')`. -/
def ofUtf8 (bytes : Bytes) : JsString :=
  (Utf8State.decode {} bytes).flatMap (fun point => ofPoint (point.getD 0xFFFD))

example : decodeFatal (utf8 (js "é€")) = some (js "é€") := by decide

example : decodeFatal [0xC3, 0x28] = none := by decide

end JsString
