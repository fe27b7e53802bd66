import SecureMcp.Lib.Json
import Mathlib.Algebra.GroupWithZero.Nat

set_option autoImplicit false

/-! # Integers in decimal

The digits that JavaScript writes for an integer, with and without leading zeros, and the JSON number
with this text. The digits are read from the end (`ofNat_eq`), so that every proof here is an
induction that takes off the last one. -/

namespace JsString

/-- The code unit of a digit. -/
def digit (n : Nat) : UInt16 := UInt16.ofNat (0x30 + n)

theorem toNat_digit {n : Nat} (h : n < 10) : (digit n).toNat = 0x30 + n := by
  rw [digit, UInt16.toNat_ofNat']
  omega

theorem isDigit_digit {n : Nat} (h : n < 10) : NumberState.isDigit (digit n) = true := by
  revert n
  decide

theorem ofChar_digitChar {n : Nat} (h : n < 10) : ofChar (Nat.digitChar n) = [digit n] := by
  revert n
  decide

/-- The last digit comes off the end. -/
theorem ofNat_eq (n : Nat) : ofNat n = (if n < 10 then [] else ofNat (n / 10)) ++ [digit (n % 10)] := by
  have hlast : n % 10 < 10 := Nat.mod_lt n (by decide)
  simp only [ofNat, js, Nat.toString_eq_ofList_toDigits, String.toList_ofList]
  rw [Nat.toDigits_eq_if (by decide)]
  split
  · next hsmall =>
      rw [List.flatMap_singleton, ofChar_digitChar hsmall, Nat.mod_eq_of_lt hsmall]
      rfl
  · rw [List.flatMap_append, List.flatMap_singleton, ofChar_digitChar hlast]

/-- An induction on the digits of a number. -/
theorem digits_induction {P : Nat → Prop} (small : ∀ n < 10, P n)
    (more : ∀ n, 10 ≤ n → P (n / 10) → P n) (n : Nat) : P n := by
  induction n using Nat.strongRecOn with
  | ind n ih =>
      by_cases hsmall : n < 10
      · exact small n hsmall
      · exact more n (by omega) (ih (n / 10) (by omega))

theorem isDigit_of_mem_ofNat (n : Nat) : ∀ unit ∈ ofNat n, NumberState.isDigit unit = true := by
  induction n using digits_induction with
  | small n hsmall =>
      intro unit hunit
      rw [ofNat_eq, if_pos hsmall, List.nil_append, List.mem_singleton] at hunit
      rw [hunit]
      exact isDigit_digit (Nat.mod_lt n (by decide))
  | more n hlarge ih =>
      intro unit hunit
      rw [ofNat_eq, if_neg (by omega)] at hunit
      rcases List.mem_append.mp hunit with hinit | hlast
      · exact ih unit hinit
      · rw [List.mem_singleton.mp hlast]
        exact isDigit_digit (Nat.mod_lt n (by decide))

/-! ## Reading digits back -/

/-- The number that digits stand for. -/
def decimalValue (text : JsString) : Nat :=
  text.foldl (fun value unit => value * 10 + (unit.toNat - 0x30)) 0

theorem decimalValue_snoc (text : JsString) (unit : UInt16) :
    decimalValue (text ++ [unit]) = decimalValue text * 10 + (unit.toNat - 0x30) := by
  rw [decimalValue, List.foldl_append]
  rfl

theorem decimalValue_ofNat (n : Nat) : decimalValue (ofNat n) = n := by
  induction n using digits_induction with
  | small n hsmall =>
      have hdigit := toNat_digit (Nat.mod_lt n (by decide : 0 < 10))
      rw [ofNat_eq, if_pos hsmall, decimalValue_snoc, hdigit]
      show 0 * 10 + _ = n
      omega
  | more n hlarge ih =>
      have hdigit := toNat_digit (Nat.mod_lt n (by decide : 0 < 10))
      rw [ofNat_eq, if_neg (by omega), decimalValue_snoc, hdigit, ih]
      omega

theorem ofNat_injective {m n : Nat} (h : ofNat m = ofNat n) : m = n := by
  rw [← decimalValue_ofNat m, h, decimalValue_ofNat]

/-- `String(n).padStart(width, '0')`. -/
def padStart (width n : Nat) : JsString :=
  List.replicate (width - (ofNat n).length) 0x30 ++ ofNat n

theorem decimalValue_zeros (count : Nat) (text : JsString) :
    decimalValue (List.replicate count 0x30 ++ text) = decimalValue text := by
  induction count with
  | zero => rfl
  | succ count ih =>
      rw [List.replicate_succ, List.cons_append, decimalValue, List.foldl_cons]
      exact ih

theorem padStart_injective {width m n : Nat} (h : padStart width m = padStart width n) : m = n := by
  have hvalue := congrArg decimalValue h
  rwa [padStart, padStart, decimalValue_zeros, decimalValue_zeros, decimalValue_ofNat,
    decimalValue_ofNat] at hvalue

theorem isDigit_of_mem_padStart {width n : Nat} {unit : UInt16} (h : unit ∈ padStart width n) :
    NumberState.isDigit unit = true := by
  rcases List.mem_append.mp h with hzero | hdigit
  · rw [List.eq_of_mem_replicate hzero]
    decide
  · exact isDigit_of_mem_ofNat n unit hdigit

/-- A number below `10 ^ width` fills the width exactly. -/
theorem length_ofNat_le {width n : Nat} (hwidth : 0 < width) (h : n < 10 ^ width) :
    (ofNat n).length ≤ width := by
  induction width generalizing n with
  | zero => exact absurd hwidth (Nat.lt_irrefl 0)
  | succ width ih =>
      rw [ofNat_eq]
      split
      · simp
      · next hlarge =>
          have hpos : 0 < width := by
            rcases Nat.eq_zero_or_pos width with rfl | hpos
            · rw [Nat.zero_add, Nat.pow_one] at h
              exact absurd h hlarge
            · exact hpos
          have hless : n / 10 < 10 ^ width := by
            rw [Nat.pow_succ] at h
            omega
          have hlength := ih hpos hless
          rw [List.length_append, List.length_singleton]
          omega

theorem length_padStart {width n : Nat} (hwidth : 0 < width) (h : n < 10 ^ width) :
    (padStart width n).length = width := by
  have hle := length_ofNat_le hwidth h
  rw [padStart, List.length_append, List.length_replicate]
  omega

end JsString

/-! ## The literal of an integer -/

namespace NumberState

theorem run_append (state : NumberState) (a b : JsString) :
    state.run (a ++ b) = (state.run a).bind (fun middle => middle.run b) := by
  induction a generalizing state with
  | nil => rfl
  | cons unit rest ih =>
      rw [List.cons_append, run, run]
      cases state.next unit with
      | none => rfl
      | some state' => exact ih state'

theorem next_digit {n : Nat} (h : n < 10) :
    next .start (JsString.digit n) = some (if n = 0 then .zero else .integer) ∧
      next .minus (JsString.digit n) = some (if n = 0 then .zero else .integer) ∧
      next .integer (JsString.digit n) = some .integer := by
  revert n
  decide

/-- The digits of a number are an integer part. -/
theorem run_ofNat {state : NumberState} (hstate : state = .start ∨ state = .minus) (n : Nat) :
    state.run (JsString.ofNat n) = some (if n = 0 then .zero else .integer) := by
  have hfirst : ∀ m < 10, state.next (JsString.digit m) = some (if m = 0 then .zero else .integer) := by
    intro m hm
    obtain ⟨hstart, hminus, _⟩ := next_digit hm
    rcases hstate with rfl | rfl
    · exact hstart
    · exact hminus
  induction n using JsString.digits_induction with
  | small n hsmall =>
      rw [JsString.ofNat_eq, if_pos hsmall, List.nil_append, run, hfirst _ (Nat.mod_lt n (by decide)),
        Nat.mod_eq_of_lt hsmall]
      rfl
  | more n hlarge ih =>
      have hlast := (next_digit (Nat.mod_lt n (by decide : 0 < 10))).2.2
      have hrest : n / 10 ≠ 0 := by omega
      rw [JsString.ofNat_eq, if_neg (by omega), run_append, ih, if_neg hrest, Option.bind_some, run,
        hlast, if_neg (by omega)]
      rfl

end NumberState

/-- What JavaScript writes for an integer below 10^21. -/
def JsString.ofInt : Int → JsString
  | .ofNat n => JsString.ofNat n
  | .negSucc n => 0x2D :: JsString.ofNat (n + 1)

theorem JsString.minus_not_mem_ofNat (n : Nat) : (0x2D : UInt16) ∉ JsString.ofNat n :=
  fun hmem => absurd (JsString.isDigit_of_mem_ofNat n _ hmem) (by decide)

theorem JsString.ofInt_injective {m n : Int} (h : JsString.ofInt m = JsString.ofInt n) : m = n := by
  cases m with
  | ofNat m =>
      cases n with
      | ofNat n => rw [JsString.ofNat_injective h]
      | negSucc n =>
          have hmem : (0x2D : UInt16) ∈ JsString.ofNat m := by
            rw [show JsString.ofNat m = _ from h]
            exact List.mem_cons_self
          exact absurd hmem (JsString.minus_not_mem_ofNat m)
  | negSucc m =>
      cases n with
      | ofNat n =>
          have hmem : (0x2D : UInt16) ∈ JsString.ofNat n := by
            rw [← show _ = JsString.ofNat n from h]
            exact List.mem_cons_self
          exact absurd hmem (JsString.minus_not_mem_ofNat n)
      | negSucc n =>
          have hdigits := JsString.ofNat_injective (List.cons.inj h).2
          obtain rfl : m = n := by omega
          rfl

theorem isNumberLiteral_ofInt (n : Int) : isNumberLiteral (JsString.ofInt n) = true := by
  cases n with
  | ofNat n =>
      rw [JsString.ofInt, isNumberLiteral, NumberState.run_ofNat (Or.inl rfl), Option.any_some]
      split <;> rfl
  | negSucc n =>
      have hminus : NumberState.start.next 0x2D = some .minus := by decide
      rw [JsString.ofInt, isNumberLiteral, NumberState.run, hminus, Option.bind_some,
        NumberState.run_ofNat (Or.inr rfl), if_neg (Nat.succ_ne_zero n)]
      rfl

/-- The number `n` as `JSON.stringify` has it. -/
def NumberLiteral.ofInt (n : Int) : NumberLiteral := ⟨JsString.ofInt n, isNumberLiteral_ofInt n⟩

theorem NumberLiteral.ofInt_injective {m n : Int} (h : NumberLiteral.ofInt m = NumberLiteral.ofInt n) :
    m = n :=
  JsString.ofInt_injective (congrArg NumberLiteral.text h)
