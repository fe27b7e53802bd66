import SecureMcp.Lib.Utf8

set_option autoImplicit false

/-! # UTF-8 there and back

The decoder reads the octets of a scalar value as that value (`decode_encodePoint`), and octets that
it reads without an error are those of the values it found (`encode_of_decode`). On the other side the
code units of scalar values are read back as these values, and a text in which surrogates only come
in pairs (`WellFormed`) is the one that its code points are written as. -/

/-- A code point that is not a surrogate. -/
def IsScalar (point : Nat) : Prop := point < 0xD800 ∨ 0xE000 ≤ point ∧ point < 0x110000

/-! ## One sequence -/

namespace Utf8State

theorem first_one {octet : Nat} (h : octet < 0x80) : first octet = ([some octet], {}) := by
  rw [first, if_pos h]

theorem first_two {octet : Nat} (h : 0xC2 ≤ octet) (h' : octet < 0xE0) :
    first octet = ([], { point := octet % 0x20, needed := 1 }) := by
  rw [first, if_neg (by omega), if_neg (by omega), if_pos h']

theorem first_three {octet : Nat} (h : 0xE0 ≤ octet) (h' : octet < 0xF0) :
    first octet = ([], { point := octet % 0x10, needed := 2,
                         lower := if octet = 0xE0 then 0xA0 else 0x80,
                         upper := if octet = 0xED then 0x9F else 0xBF }) := by
  rw [first, if_neg (by omega), if_neg (by omega), if_neg (by omega), if_pos h']

theorem first_four {octet : Nat} (h : 0xF0 ≤ octet) (h' : octet < 0xF5) :
    first octet = ([], { point := octet % 0x08, needed := 3,
                         lower := if octet = 0xF0 then 0x90 else 0x80,
                         upper := if octet = 0xF4 then 0x8F else 0xBF }) := by
  rw [first, if_neg (by omega), if_neg (by omega), if_neg (by omega), if_neg (by omega), if_pos h']

/-- An octet that begins no sequence. -/
theorem first_error {octet : Nat} (h : 0x80 ≤ octet ∧ octet < 0xC2 ∨ 0xF5 ≤ octet) :
    first octet = ([none], {}) := by
  rw [first, if_neg (by omega)]
  rcases h with h | h
  · rw [if_pos (by omega)]
  · rw [if_neg (by omega), if_neg (by omega), if_neg (by omega), if_neg (by omega)]

theorem decode_first (octet : UInt8) (rest : Bytes) :
    decode {} (octet :: rest) = (first octet.toNat).1 ++ decode (first octet.toNat).2 rest := rfl

theorem next_in_range {state : Utf8State} {octet : Nat} (hneeded : state.needed ≠ 0)
    (hlower : state.lower ≤ octet) (hupper : octet ≤ state.upper) :
    state.next octet =
      if state.needed = 1 then ([some (state.point * 0x40 + octet % 0x40)], {})
      else ([], { point := state.point * 0x40 + octet % 0x40, needed := state.needed - 1 }) := by
  have hrange : (decide (octet < state.lower) || decide (state.upper < octet)) = false := by
    simp only [Bool.or_eq_false_iff, decide_eq_false_iff_not]
    omega
  rw [next, if_neg hneeded, hrange]
  rfl

theorem next_out_of_range {state : Utf8State} {octet : Nat} (hneeded : state.needed ≠ 0)
    (hrange : octet < state.lower ∨ state.upper < octet) :
    state.next octet = (none :: (first octet).1, (first octet).2) := by
  have hbool : (decide (octet < state.lower) || decide (state.upper < octet)) = true := by
    simpa using hrange
  rw [next, if_neg hneeded, if_pos hbool]

/-- The last octet of a sequence. -/
theorem decode_last {point lower upper : Nat} {octet : UInt8} (rest : Bytes)
    (h : lower ≤ octet.toNat) (h' : octet.toNat ≤ upper) :
    decode ⟨point, 1, lower, upper⟩ (octet :: rest) =
      some (point * 0x40 + octet.toNat % 0x40) :: decode {} rest := by
  rw [decode, next_in_range Nat.one_ne_zero h h']
  rfl

/-- An octet in the middle of a sequence. -/
theorem decode_more {point needed lower upper : Nat} {octet : UInt8} (rest : Bytes)
    (h : lower ≤ octet.toNat) (h' : octet.toNat ≤ upper) :
    decode ⟨point, needed + 2, lower, upper⟩ (octet :: rest) =
      decode ⟨point * 0x40 + octet.toNat % 0x40, needed + 1, 0x80, 0xBF⟩ rest := by
  rw [decode, next_in_range (Nat.succ_ne_zero _) h h', if_neg (by simp)]
  rfl

/-- Inside a sequence, octets that give no error begin with one in its range. -/
theorem exists_octet {point needed lower upper : Nat} {bytes : Bytes}
    (h : none ∉ decode ⟨point, needed + 1, lower, upper⟩ bytes) :
    ∃ octet rest, bytes = octet :: rest ∧ lower ≤ octet.toNat ∧ octet.toNat ≤ upper := by
  cases bytes with
  | nil => exact absurd (by simp [decode]) h
  | cons octet rest =>
      refine ⟨octet, rest, rfl, ?_⟩
      by_contra hout
      refine h ?_
      rw [decode, next_out_of_range (Nat.succ_ne_zero _) (by dsimp only; omega)]
      exact List.mem_append_left _ List.mem_cons_self

end Utf8State

namespace JsString

open Utf8State

/-- The sequence of a scalar value is read as this value. -/
theorem decode_encodePoint {point : Nat} (hpoint : IsScalar point) (rest : Bytes) :
    decode {} (encodePoint point ++ rest) = some point :: decode {} rest := by
  have hnat : ∀ n : Nat, n < 0x100 → (UInt8.ofNat n).toNat = n := fun n hn =>
    UInt8.toNat_ofNat_of_lt' hn
  unfold IsScalar at hpoint
  unfold encodePoint
  by_cases h1 : point < 0x80
  · rw [if_pos h1, List.singleton_append, decode_first, hnat point (by omega), first_one h1]
    rfl
  rw [if_neg h1]
  by_cases h2 : point < 0x800
  · rw [if_pos h2, List.cons_append, List.cons_append, List.nil_append, decode_first,
      hnat _ (by omega), first_two (by omega) (by omega), List.nil_append,
      decode_last _ (by rw [hnat _ (by omega)]; omega) (by rw [hnat _ (by omega)]; omega),
      hnat _ (by omega)]
    congr 2
    omega
  rw [if_neg h2]
  by_cases h3 : point < 0x10000
  · rw [if_pos h3, List.cons_append, List.cons_append, List.cons_append, List.nil_append,
      decode_first, hnat _ (by omega), first_three (by omega) (by omega), List.nil_append,
      decode_more _ (by rw [hnat _ (by omega)]; split <;> omega)
        (by rw [hnat _ (by omega)]; split <;> omega), hnat _ (by omega),
      decode_last _ (by rw [hnat _ (by omega)]; omega) (by rw [hnat _ (by omega)]; omega),
      hnat _ (by omega)]
    congr 2
    omega
  · rw [if_neg h3, List.cons_append, List.cons_append, List.cons_append, List.cons_append,
      List.nil_append, decode_first, hnat _ (by omega), first_four (by omega) (by omega),
      List.nil_append,
      decode_more _ (by rw [hnat _ (by omega)]; split <;> omega)
        (by rw [hnat _ (by omega)]; split <;> omega), hnat _ (by omega),
      decode_more _ (by rw [hnat _ (by omega)]; omega) (by rw [hnat _ (by omega)]; omega),
      hnat _ (by omega),
      decode_last _ (by rw [hnat _ (by omega)]; omega) (by rw [hnat _ (by omega)]; omega),
      hnat _ (by omega)]
    congr 2
    omega

theorem decode_encode {points : List Nat} (h : ∀ point ∈ points, IsScalar point) :
    decode {} (points.flatMap encodePoint) = points.map some := by
  induction points with
  | nil => rfl
  | cons point later ih =>
      rw [List.flatMap_cons, decode_encodePoint (h point List.mem_cons_self),
        ih (fun other hother => h other (List.mem_cons_of_mem _ hother))]
      rfl

/-- Octets that give no error begin with the sequence of a scalar value. -/
theorem exists_sequence {octet : UInt8} {rest : Bytes} (h : none ∉ decode {} (octet :: rest)) :
    ∃ point tail, IsScalar point ∧ octet :: rest = encodePoint point ++ tail ∧
      decode {} (octet :: rest) = some point :: decode {} tail := by
  have hnat : ∀ (unit : UInt8) (n : Nat), n = unit.toNat → unit = UInt8.ofNat n := by
    rintro unit n rfl
    exact (UInt8.ofNat_toNat).symm
  -- The sequence that was read is the one of its value, so `decode_encodePoint` says how it is read.
  have hread : ∀ (point : Nat) (tail : Bytes), IsScalar point →
      octet :: rest = encodePoint point ++ tail → ∃ point tail, IsScalar point ∧
        octet :: rest = encodePoint point ++ tail ∧
        decode {} (octet :: rest) = some point :: decode {} tail :=
    fun point tail hpoint heq => ⟨point, tail, hpoint, heq, by rw [heq, decode_encodePoint hpoint]⟩
  have hbound := octet.toNat_lt
  rw [decode_first] at h
  by_cases h1 : octet.toNat < 0x80
  · refine hread octet.toNat rest (Or.inl (by omega)) ?_
    rw [encodePoint, if_pos h1, ← hnat octet _ rfl]
    rfl
  by_cases herror : octet.toNat < 0xC2 ∨ 0xF5 ≤ octet.toNat
  · rw [first_error (by omega)] at h
    exact absurd List.mem_cons_self h
  by_cases h2 : octet.toNat < 0xE0
  · rw [first_two (by omega) h2] at h
    obtain ⟨second, tail, rfl, hb, hb'⟩ := exists_octet h
    refine hread (octet.toNat % 0x20 * 0x40 + second.toNat % 0x40) tail (Or.inl (by omega)) ?_
    rw [encodePoint, if_neg (by omega), if_pos (by omega), ← hnat octet _ (by omega),
      ← hnat second _ (by omega)]
    rfl
  by_cases h3 : octet.toNat < 0xF0
  · rw [first_three (by omega) h3] at h
    obtain ⟨second, tail, rfl, hb, hb'⟩ := exists_octet h
    rw [List.nil_append, decode_more tail hb hb'] at h
    obtain ⟨third, tail, rfl, hc, hc'⟩ := exists_octet h
    have hsecond : (octet.toNat = 0xE0 → 0xA0 ≤ second.toNat) ∧
        (octet.toNat = 0xED → second.toNat ≤ 0x9F) ∧ 0x80 ≤ second.toNat ∧ second.toNat ≤ 0xBF := by
      refine ⟨fun heq => by rw [if_pos heq] at hb; exact hb,
        fun heq => by rw [if_pos heq] at hb'; exact hb', ?_, ?_⟩
      · split at hb <;> omega
      · split at hb' <;> omega
    refine hread ((octet.toNat % 0x10 * 0x40 + second.toNat % 0x40) * 0x40 + third.toNat % 0x40) tail
      (by unfold IsScalar; omega) ?_
    rw [encodePoint, if_neg (by omega), if_neg (by omega), if_pos (by omega),
      ← hnat octet _ (by omega), ← hnat second _ (by omega), ← hnat third _ (by omega)]
    rfl
  · rw [first_four (by omega) (by omega)] at h
    obtain ⟨second, tail, rfl, hb, hb'⟩ := exists_octet h
    rw [List.nil_append, decode_more tail hb hb'] at h
    obtain ⟨third, tail, rfl, hc, hc'⟩ := exists_octet h
    rw [decode_more tail hc hc'] at h
    obtain ⟨fourth, tail, rfl, hd, hd'⟩ := exists_octet h
    have hsecond : (octet.toNat = 0xF0 → 0x90 ≤ second.toNat) ∧
        (octet.toNat = 0xF4 → second.toNat ≤ 0x8F) ∧ 0x80 ≤ second.toNat ∧ second.toNat ≤ 0xBF := by
      refine ⟨fun heq => by rw [if_pos heq] at hb; exact hb,
        fun heq => by rw [if_pos heq] at hb'; exact hb', ?_, ?_⟩
      · split at hb <;> omega
      · split at hb' <;> omega
    refine hread (((octet.toNat % 0x08 * 0x40 + second.toNat % 0x40) * 0x40 + third.toNat % 0x40) *
      0x40 + fourth.toNat % 0x40) tail (by unfold IsScalar; omega) ?_
    rw [encodePoint, if_neg (by omega), if_neg (by omega), if_neg (by omega),
      ← hnat octet _ (by omega), ← hnat second _ (by omega), ← hnat third _ (by omega),
      ← hnat fourth _ (by omega)]
    rfl

/-- Octets that are read without an error are the sequences of what was read. -/
theorem encode_of_decode {points : List Nat} {bytes : Bytes}
    (h : decode {} bytes = points.map some) :
    (∀ point ∈ points, IsScalar point) ∧ points.flatMap encodePoint = bytes := by
  induction points generalizing bytes with
  | nil =>
      cases bytes with
      | nil => exact ⟨by simp, rfl⟩
      | cons octet rest =>
          obtain ⟨point, tail, _, _, hdecode⟩ := exists_sequence (by rw [h]; simp)
          exact absurd (hdecode.symm.trans h) (by simp)
  | cons point later ih =>
      cases bytes with
      | nil => exact absurd h (by simp [decode])
      | cons octet rest =>
          obtain ⟨first, tail, hfirst, hbytes, hdecode⟩ := exists_sequence (by rw [h]; simp)
          obtain ⟨heq, hlater⟩ := List.cons.inj (hdecode.symm.trans h)
          obtain rfl := Option.some.inj heq
          obtain ⟨hscalar, hflat⟩ := ih hlater
          refine ⟨fun other hother => ?_, by rw [List.flatMap_cons, hflat, hbytes]⟩
          rcases List.mem_cons.mp hother with rfl | hin
          · exact hfirst
          · exact hscalar other hin

/-! ## Code units -/

theorem isScalar_unit {unit : UInt16} (h : (isHigh unit || isLow unit) = false) :
    IsScalar unit.toNat := by
  have hbound := unit.toNat_lt
  simp only [isHigh, isLow, Bool.or_eq_false_iff, Bool.and_eq_false_iff,
    decide_eq_false_iff_not] at h
  unfold IsScalar
  omega

theorem isScalar_codePoints (text : JsString) : ∀ point ∈ codePoints text, IsScalar point := by
  have hone : ∀ unit : UInt16,
      IsScalar (if isHigh unit || isLow unit then 0xFFFD else unit.toNat) := by
    intro unit
    split
    · exact Or.inr (by omega)
    · next h => exact isScalar_unit (by simpa using h)
  fun_induction codePoints text with
  | case1 => simp
  | case2 unit => simpa using hone unit
  | case3 unit next rest hpair ih =>
      have hpoint := pair_bounds hpair
      intro point h
      rcases List.mem_cons.mp h with heq | hin
      · rw [heq]
        exact Or.inr (by omega)
      · exact ih point hin
  | case4 unit next rest hpair ih =>
      intro point h
      rcases List.mem_cons.mp h with rfl | hin
      · exact hone unit
      · exact ih point hin

/-- The code units of a scalar value are read as this value. -/
theorem codePoints_ofPoint {point : Nat} (hpoint : IsScalar point) (rest : JsString) :
    codePoints (ofPoint point ++ rest) = point :: codePoints rest := by
  have hnat : ∀ n : Nat, n < 0x10000 → (UInt16.ofNat n).toNat = n := fun n hn =>
    UInt16.toNat_ofNat_of_lt' hn
  unfold IsScalar at hpoint
  unfold ofPoint
  by_cases h : point < 0x10000
  · have hhigh : isHigh (UInt16.ofNat point) = false := by
      rw [isHigh, hnat point h]
      simp only [Bool.and_eq_false_iff, decide_eq_false_iff_not]
      omega
    have hlow : isLow (UInt16.ofNat point) = false := by
      rw [isLow, hnat point h]
      simp only [Bool.and_eq_false_iff, decide_eq_false_iff_not]
      omega
    rw [if_pos h, List.singleton_append]
    cases rest with
    | nil =>
        show [if isHigh _ || isLow _ then 0xFFFD else _] = [point]
        rw [hhigh, hlow, Bool.or_false, if_neg Bool.false_ne_true, hnat point h]
    | cons next later =>
        rw [codePoints, hhigh, hlow, Bool.false_and, Bool.or_false, if_neg Bool.false_ne_true,
          if_neg Bool.false_ne_true, hnat point h]
  · have hfirst := hnat (0xD800 + (point - 0x10000) / 0x400) (by omega)
    have hsecond := hnat (0xDC00 + (point - 0x10000) % 0x400) (by omega)
    have hpair : (isHigh (UInt16.ofNat (0xD800 + (point - 0x10000) / 0x400)) &&
        isLow (UInt16.ofNat (0xDC00 + (point - 0x10000) % 0x400))) = true := by
      rw [isHigh, isLow, hfirst, hsecond]
      simp only [Bool.and_eq_true, decide_eq_true_eq]
      omega
    have hvalue : pair (UInt16.ofNat (0xD800 + (point - 0x10000) / 0x400))
        (UInt16.ofNat (0xDC00 + (point - 0x10000) % 0x400)) = point := by
      unfold pair
      rw [hfirst, hsecond, Nat.add_sub_cancel_left, Nat.add_sub_cancel_left, Nat.add_assoc,
        Nat.div_add_mod']
      exact Nat.add_sub_cancel' (Nat.le_of_not_lt h)
    rw [if_neg h, List.cons_append, List.cons_append, List.nil_append, codePoints, if_pos hpair,
      hvalue]

theorem codePoints_ofPoints {points : List Nat} (h : ∀ point ∈ points, IsScalar point) :
    codePoints (points.flatMap ofPoint) = points := by
  induction points with
  | nil => rfl
  | cons point later ih =>
      rw [List.flatMap_cons, codePoints_ofPoint (h point List.mem_cons_self),
        ih (fun other hother => h other (List.mem_cons_of_mem _ hother))]

/-- Surrogates only come in pairs. -/
def wellFormed : JsString → Bool
  | [] => true
  | [unit] => !(isHigh unit || isLow unit)
  | unit :: next :: rest =>
    if isHigh unit && isLow next then wellFormed rest
    else !(isHigh unit || isLow unit) && wellFormed (next :: rest)

theorem ofPoint_unit (unit : UInt16) : ofPoint unit.toNat = [unit] := by
  rw [ofPoint, if_pos unit.toNat_lt, UInt16.ofNat_toNat]

theorem ofPoint_pair {high low : UInt16} (h : (isHigh high && isLow low) = true) :
    ofPoint (pair high low) = [high, low] := by
  have hbounds := pair_bounds h
  have hhigh : ∀ n : Nat, n = high.toNat → UInt16.ofNat n = high := by
    rintro n rfl
    exact UInt16.ofNat_toNat
  have hlow : ∀ n : Nat, n = low.toNat → UInt16.ofNat n = low := by
    rintro n rfl
    exact UInt16.ofNat_toNat
  simp only [isHigh, isLow, Bool.and_eq_true, decide_eq_true_eq] at h
  rw [ofPoint, if_neg (by omega), hhigh _ (by unfold pair; omega), hlow _ (by unfold pair; omega)]

/-- Such a text is written as its code points. -/
theorem ofPoints_codePoints {text : JsString} (h : wellFormed text = true) :
    (codePoints text).flatMap ofPoint = text := by
  fun_induction codePoints text with
  | case1 => rfl
  | case2 unit =>
      rw [wellFormed, Bool.not_eq_true'] at h
      rw [h, if_neg Bool.false_ne_true, List.flatMap_singleton, ofPoint_unit]
  | case3 unit next rest hpair ih =>
      rw [wellFormed, if_pos hpair] at h
      rw [List.flatMap_cons, ih h, ofPoint_pair hpair]
      rfl
  | case4 unit next rest hpair ih =>
      rw [wellFormed, if_neg hpair, Bool.and_eq_true, Bool.not_eq_true'] at h
      rw [List.flatMap_cons, ih h.2, h.1, if_neg Bool.false_ne_true, ofPoint_unit]
      rfl

theorem wellFormed_append {a b : JsString} (ha : wellFormed a = true) (hb : wellFormed b = true) :
    wellFormed (a ++ b) = true := by
  fun_induction wellFormed a with
  | case1 => exact hb
  | case2 unit =>
      rw [Bool.not_eq_true', Bool.or_eq_false_iff] at ha
      cases b with
      | nil => simp [wellFormed, ha]
      | cons next rest => simp [wellFormed, ha, hb]
  | case3 unit next rest hpair ih =>
      rw [List.cons_append, List.cons_append, wellFormed, if_pos hpair]
      exact ih ha
  | case4 unit next rest hpair ih =>
      rw [Bool.and_eq_true] at ha
      rw [List.cons_append, List.cons_append, wellFormed, if_neg hpair, Bool.and_eq_true]
      exact ⟨ha.1, ih ha.2⟩

/-- Writing such a text as octets loses nothing. -/
theorem ofUtf8_utf8 {text : JsString} (h : wellFormed text = true) : ofUtf8 text.utf8 = text := by
  rw [ofUtf8, utf8, decode_encode (isScalar_codePoints text), List.flatMap_map]
  simp only [Option.getD_some]
  exact ofPoints_codePoints h

/-! ## Lone surrogates -/

/-- `text.toWellFormed()`: U+FFFD stands for each lone surrogate. -/
def toWellFormed : JsString → JsString
  | [] => []
  | [unit] => [if isHigh unit || isLow unit then 0xFFFD else unit]
  | unit :: next :: rest =>
    if isHigh unit && isLow next then unit :: next :: toWellFormed rest
    else (if isHigh unit || isLow unit then 0xFFFD else unit) :: toWellFormed (next :: rest)

theorem ofPoint_lone (unit : UInt16) :
    ofPoint (if isHigh unit || isLow unit then 0xFFFD else unit.toNat) =
      [if isHigh unit || isLow unit then 0xFFFD else unit] := by
  by_cases h : (isHigh unit || isLow unit) = true
  · rw [if_pos h, if_pos h]
    rfl
  · rw [if_neg h, if_neg h, ofPoint_unit]

theorem toWellFormed_eq (text : JsString) : toWellFormed text = (codePoints text).flatMap ofPoint := by
  fun_induction codePoints text with
  | case1 => rfl
  | case2 unit => rw [toWellFormed, List.flatMap_singleton, ofPoint_lone]
  | case3 unit next rest hpair ih =>
      rw [toWellFormed, if_pos hpair, ih, List.flatMap_cons, ofPoint_pair hpair]
      rfl
  | case4 unit next rest hpair ih =>
      rw [toWellFormed, if_neg hpair, ih, List.flatMap_cons, ofPoint_lone]
      rfl

theorem codePoints_toWellFormed (text : JsString) : codePoints (toWellFormed text) = codePoints text := by
  rw [toWellFormed_eq, codePoints_ofPoints (isScalar_codePoints text)]

/-- In UTF-8 two texts are told apart when they differ in more than their lone surrogates. -/
theorem utf8_eq_iff {a b : JsString} : a.utf8 = b.utf8 ↔ toWellFormed a = toWellFormed b := by
  constructor
  · intro h
    have hdecode : (codePoints a).map some = (codePoints b).map some := by
      rw [← decode_encode (isScalar_codePoints a), ← decode_encode (isScalar_codePoints b)]
      exact congrArg _ h
    rw [toWellFormed_eq, toWellFormed_eq, (List.map_inj_right (fun _ _ => Option.some.inj)).mp hdecode]
  · intro h
    rw [utf8, utf8, ← codePoints_toWellFormed a, h, codePoints_toWellFormed b]

theorem toWellFormed_of_wellFormed {text : JsString} (h : wellFormed text = true) :
    toWellFormed text = text := by
  rw [toWellFormed_eq, ofPoints_codePoints h]

theorem length_toWellFormed (text : JsString) : (toWellFormed text).length = text.length := by
  fun_induction toWellFormed text with
  | case1 => rfl
  | case2 unit => rfl
  | case3 unit next rest hpair ih => rw [List.length_cons, List.length_cons, ih]; rfl
  | case4 unit next rest hpair ih => rw [List.length_cons, ih]; rfl

/-- A text stays as it is, or U+FFFD appears in it. -/
theorem toWellFormed_of_not_mem {text : JsString} (h : 0xFFFD ∉ toWellFormed text) :
    toWellFormed text = text := by
  fun_induction toWellFormed text with
  | case1 => rfl
  | case2 unit =>
      by_cases hlone : (isHigh unit || isLow unit) = true
      · rw [if_pos hlone] at h
        exact absurd List.mem_cons_self h
      · rw [if_neg hlone]
  | case3 unit next rest hpair ih =>
      rw [ih (fun hmem => h (List.mem_cons_of_mem _ (List.mem_cons_of_mem _ hmem)))]
  | case4 unit next rest hpair ih =>
      rw [ih (fun hmem => h (List.mem_cons_of_mem _ hmem))]
      by_cases hlone : (isHigh unit || isLow unit) = true
      · rw [if_pos hlone] at h
        exact absurd List.mem_cons_self h
      · rw [if_neg hlone]

theorem wellFormed_ofPoint {point : Nat} (hpoint : IsScalar point) : wellFormed (ofPoint point) = true := by
  have hnat : ∀ n : Nat, n < 0x10000 → (UInt16.ofNat n).toNat = n := fun n hn =>
    UInt16.toNat_ofNat_of_lt' hn
  unfold IsScalar at hpoint
  unfold ofPoint
  by_cases h : point < 0x10000
  · rw [if_pos h, wellFormed, isHigh, isLow, hnat point h]
    simp only [Bool.not_eq_true', Bool.or_eq_false_iff, Bool.and_eq_false_iff, decide_eq_false_iff_not]
    omega
  · rw [if_neg h, wellFormed, isHigh, isLow, hnat _ (by omega), hnat _ (by omega), if_pos]
    · rfl
    · simp only [Bool.and_eq_true, decide_eq_true_eq]
      omega

theorem wellFormed_ofPoints {points : List Nat} (h : ∀ point ∈ points, IsScalar point) :
    wellFormed (points.flatMap ofPoint) = true := by
  induction points with
  | nil => rfl
  | cons point rest ih =>
      exact wellFormed_append (wellFormed_ofPoint (h point List.mem_cons_self))
        (ih (fun other hother => h other (List.mem_cons_of_mem _ hother)))

theorem wellFormed_toWellFormed (text : JsString) : wellFormed (toWellFormed text) = true := by
  rw [toWellFormed_eq]
  exact wellFormed_ofPoints (isScalar_codePoints text)

theorem isLow_head {unit : UInt16} {rest : JsString} (h : wellFormed (unit :: rest) = true) :
    isLow unit = false := by
  cases rest with
  | nil =>
      rw [wellFormed, Bool.not_eq_true', Bool.or_eq_false_iff] at h
      exact h.2
  | cons next later =>
      rw [wellFormed] at h
      split at h
      · next hpair =>
          simp only [isHigh, isLow, Bool.and_eq_true, decide_eq_true_eq] at hpair
          simp only [isLow, Bool.and_eq_false_iff, decide_eq_false_iff_not]
          omega
      · rw [Bool.and_eq_true, Bool.not_eq_true', Bool.or_eq_false_iff] at h
        exact h.1.2

/-- A text with U+FFFD in it is what remains of another one, with a lone surrogate there. -/
theorem exists_lone {text : JsString} (hwell : wellFormed text = true) (h : 0xFFFD ∈ text) :
    ∃ other, other ≠ text ∧ toWellFormed other = text := by
  fun_induction wellFormed text with
  | case1 => exact absurd h (by simp)
  | case2 unit =>
      obtain rfl := List.mem_singleton.mp h
      exact ⟨[0xD800], by decide, by decide⟩
  | case3 unit next rest hpair ih =>
      have hsurrogates : (0xFFFD : UInt16) ≠ unit ∧ (0xFFFD : UInt16) ≠ next := by
        rw [Bool.and_eq_true] at hpair
        constructor
        · rintro rfl
          exact absurd hpair.1 (by decide)
        · rintro rfl
          exact absurd hpair.2 (by decide)
      have hrest : 0xFFFD ∈ rest := by simpa [hsurrogates] using h
      obtain ⟨other, hne, heq⟩ := ih hwell hrest
      refine ⟨unit :: next :: other, fun hsame => hne ?_, ?_⟩
      · exact (List.cons.inj (List.cons.inj hsame).2).2
      · rw [toWellFormed, if_pos hpair, heq]
  | case4 unit next rest hpair ih =>
      rw [Bool.and_eq_true, Bool.not_eq_true'] at hwell
      by_cases hunit : unit = 0xFFFD
      · -- The next code unit is no low surrogate, so that the new one stays alone.
        refine ⟨0xD800 :: next :: rest, fun hsame => ?_, ?_⟩
        · rw [hunit] at hsame
          exact absurd (List.cons.inj hsame).1 (by decide)
        · rw [toWellFormed, isLow_head hwell.2, Bool.and_false, if_neg Bool.false_ne_true,
            toWellFormed_of_wellFormed hwell.2, hunit]
          rfl
      · have hrest : 0xFFFD ∈ next :: rest := by
          rcases List.mem_cons.mp h with heq | hlater
          · exact absurd heq.symm hunit
          · exact hlater
        obtain ⟨other, hne, heq⟩ := ih hwell.2 hrest
        refine ⟨unit :: other, fun hsame => hne (List.cons.inj hsame).2, ?_⟩
        have hhigh : isHigh unit = false := (Bool.or_eq_false_iff.mp hwell.1).1
        cases other with
        | nil => exact absurd heq (by simp [toWellFormed])
        | cons first later =>
            rw [toWellFormed, if_neg (by rw [hhigh]; exact Bool.false_ne_true), heq, hwell.1,
              if_neg Bool.false_ne_true]

/-- The texts that UTF-8 confuses with another one: they have a lone surrogate or U+FFFD in them. -/
theorem confused_iff {text : JsString} :
    (∃ other, other ≠ text ∧ toWellFormed other = toWellFormed text) ↔
      wellFormed text = false ∨ 0xFFFD ∈ text := by
  constructor
  · rintro ⟨other, hne, heq⟩
    by_contra hplain
    rw [not_or, Bool.not_eq_false] at hplain
    rw [toWellFormed_of_wellFormed hplain.1] at heq
    rw [← heq] at hplain hne
    exact hne (toWellFormed_of_not_mem hplain.2).symm
  · intro h
    by_cases hwell : wellFormed text = true
    · have hmem : 0xFFFD ∈ text := h.resolve_left (by rw [hwell]; exact Bool.noConfusion)
      obtain ⟨other, hne, heq⟩ := exists_lone hwell hmem
      exact ⟨other, hne, heq.trans (toWellFormed_of_wellFormed hwell).symm⟩
    · refine ⟨toWellFormed text, fun heq => hwell ?_, ?_⟩
      · rw [← heq]
        exact wellFormed_toWellFormed text
      · exact toWellFormed_of_wellFormed (wellFormed_toWellFormed text)

/-! ## The fatal decoder -/

/-- Octets that are the sequences of scalar values. -/
def IsUtf8 (bytes : Bytes) : Prop :=
  ∃ points : List Nat, (∀ point ∈ points, IsScalar point) ∧ points.flatMap encodePoint = bytes

/-- The octets of U+FEFF. -/
def mark : Bytes := [0xEF, 0xBB, 0xBF]

theorem mapM_id_eq_some {read : List (Option Nat)} {points : List Nat} :
    read.mapM id = some points ↔ read = points.map some := by
  induction read generalizing points with
  | nil => cases points <;> simp
  | cons first rest ih =>
      rw [List.mapM_cons]
      cases first with
      | none => cases points <;> simp
      | some point =>
          show (rest.mapM id).bind (fun later => some (point :: later)) = some points ↔ _
          cases points with
          | nil => simp [Option.bind_eq_some_iff]
          | cons head tail =>
              rw [List.map_cons, List.cons_eq_cons, ← ih, Option.bind_eq_some_iff]
              simp [and_comm]

theorem utf8_ofPoints {points : List Nat} (h : ∀ point ∈ points, IsScalar point) :
    utf8 (points.flatMap ofPoint) = points.flatMap encodePoint := by
  rw [utf8, codePoints_ofPoints h]

theorem decodeFatal_encode {points : List Nat} (h : ∀ point ∈ points, IsScalar point) :
    decodeFatal (points.flatMap encodePoint) = some ((dropMark points).flatMap ofPoint) := by
  rw [decodeFatal, mapM_id_eq_some.mpr (decode_encode h)]
  rfl

theorem isUtf8_of_decodeFatal {bytes : Bytes} {text : JsString} (h : decodeFatal bytes = some text) :
    IsUtf8 bytes := by
  obtain ⟨points, hpoints, _⟩ := Option.map_eq_some_iff.mp h
  exact ⟨points, encode_of_decode (mapM_id_eq_some.mp hpoints)⟩

theorem dropMark_eq (points : List Nat) (h : points.head? ≠ some 0xFEFF) : dropMark points = points := by
  unfold dropMark
  split
  · exact absurd rfl h
  · rfl

/-- Decoding and encoding again loses the mark at the start, and nothing else. -/
theorem utf8_of_decodeFatal {bytes : Bytes} {text : JsString} (h : decodeFatal bytes = some text) :
    text.utf8 = bytes ↔ ¬ mark <+: bytes := by
  obtain ⟨points, hscalar, rfl⟩ := isUtf8_of_decodeFatal h
  obtain rfl := Option.some.inj ((decodeFatal_encode hscalar).symm.trans h)
  have hmark : encodePoint 0xFEFF = mark := by decide
  by_cases hhead : points.head? = some 0xFEFF
  · obtain ⟨rest, rfl⟩ := List.head?_eq_some_iff.mp hhead
    rw [show dropMark (0xFEFF :: rest) = rest from rfl,
      utf8_ofPoints (fun point hpoint => hscalar point (List.mem_cons_of_mem _ hpoint)),
      List.flatMap_cons, hmark]
    refine ⟨fun heq => ?_, fun hno => absurd (List.prefix_append _ _) hno⟩
    have hlength := congrArg List.length heq
    rw [List.length_append] at hlength
    exact absurd hlength (by simp [mark])
  · rw [dropMark_eq points hhead, utf8_ofPoints hscalar]
    refine ⟨fun _ hstarts => hhead ?_, fun _ => rfl⟩
    obtain ⟨rest, hrest⟩ := hstarts
    have hdecode := decode_encode hscalar
    rw [← hrest, ← hmark, decode_encodePoint (Or.inr (by omega))] at hdecode
    cases points with
    | nil => exact absurd hdecode (by simp)
    | cons first later =>
        obtain ⟨hfirst, _⟩ := List.cons.inj hdecode
        rw [List.head?_cons, hfirst]

end JsString
