import Mathlib.Tactic.Common

set_option autoImplicit false

/-! # JavaScript strings and their bytes

A JavaScript string is a list of UTF-16 code units; nothing forces surrogates to come in pairs.
`utf8` is what `Buffer.from(text)` and `Buffer.byteLength(text)` see: paired surrogates become one
four-byte sequence, a lone one is replaced by U+FFFD. -/

/-- A string as JavaScript has it. -/
abbrev JsString : Type := List UInt16

/-- A sequence of octets. -/
abbrev Bytes : Type := List UInt8

namespace JsString

/-- The code units of one character. -/
def ofChar (c : Char) : JsString :=
  if c.toNat < 0x10000 then [UInt16.ofNat c.toNat]
  else
    [UInt16.ofNat (0xD800 + (c.toNat - 0x10000) / 0x400),
      UInt16.ofNat (0xDC00 + (c.toNat - 0x10000) % 0x400)]

end JsString

/-- A text of the source as the string it denotes. -/
def js (text : String) : JsString := text.toList.flatMap JsString.ofChar

namespace JsString

def isHigh (unit : UInt16) : Bool := 0xD800 ≤ unit.toNat && unit.toNat < 0xDC00

def isLow (unit : UInt16) : Bool := 0xDC00 ≤ unit.toNat && unit.toNat < 0xE000

/-- The code point of a surrogate pair. -/
def pair (high low : UInt16) : Nat :=
  0x10000 + (high.toNat - 0xD800) * 0x400 + (low.toNat - 0xDC00)

theorem pair_bounds {high low : UInt16} (h : (isHigh high && isLow low) = true) :
    0x10000 ≤ pair high low ∧ pair high low < 0x110000 := by
  simp only [isHigh, isLow, Bool.and_eq_true, decide_eq_true_eq] at h
  unfold pair
  omega

/-- The code points of a string, a lone surrogate standing for U+FFFD. -/
def codePoints : JsString → List Nat
  | [] => []
  | [unit] => [if isHigh unit || isLow unit then 0xFFFD else unit.toNat]
  | unit :: next :: rest =>
    if isHigh unit && isLow next then pair unit next :: codePoints rest
    else (if isHigh unit || isLow unit then 0xFFFD else unit.toNat) :: codePoints (next :: rest)

/-- The octets of one code point. -/
def encodePoint (point : Nat) : Bytes :=
  if point < 0x80 then [UInt8.ofNat point]
  else if point < 0x800 then
    [UInt8.ofNat (0xC0 + point / 0x40), UInt8.ofNat (0x80 + point % 0x40)]
  else if point < 0x10000 then
    [UInt8.ofNat (0xE0 + point / 0x1000), UInt8.ofNat (0x80 + point / 0x40 % 0x40),
      UInt8.ofNat (0x80 + point % 0x40)]
  else
    [UInt8.ofNat (0xF0 + point / 0x40000), UInt8.ofNat (0x80 + point / 0x1000 % 0x40),
      UInt8.ofNat (0x80 + point / 0x40 % 0x40), UInt8.ofNat (0x80 + point % 0x40)]

def utf8 (text : JsString) : Bytes := text.codePoints.flatMap encodePoint

/-- `Buffer.byteLength`. -/
def byteLength (text : JsString) : Nat := text.utf8.length

/-- The decimal digits of a natural number. -/
def ofNat (n : Nat) : JsString := js (toString n)

/-! ## Splitting -/

/-- `text.split(separator)` for a separator of one code unit. -/
def split (separator : UInt16) : JsString → List JsString
  | [] => [[]]
  | unit :: rest =>
    if unit = separator then [] :: split separator rest
    else
      match split separator rest with
      | part :: parts => (unit :: part) :: parts
      | [] => [[unit]]

/-- No part has the separator in it, and every unit of a part is one of the text. -/
theorem split_units (separator : UInt16) (text : JsString) :
    ∀ part ∈ split separator text, ∀ unit ∈ part, unit ≠ separator ∧ unit ∈ text := by
  induction text with
  | nil =>
      intro part hpart unit hunit
      rw [split, List.mem_singleton] at hpart
      rw [hpart] at hunit
      exact absurd hunit (by simp)
  | cons first rest ih =>
      intro part hpart unit hunit
      rw [split] at hpart
      by_cases hfirst : first = separator
      · rw [if_pos hfirst] at hpart
        rcases List.mem_cons.mp hpart with rfl | hmem
        · exact absurd hunit (by simp)
        · obtain ⟨hne, hin⟩ := ih part hmem unit hunit
          exact ⟨hne, List.mem_cons_of_mem _ hin⟩
      · rw [if_neg hfirst] at hpart
        cases hsplit : split separator rest with
        | nil =>
            rw [hsplit, List.mem_singleton] at hpart
            rw [hpart, List.mem_singleton] at hunit
            exact ⟨by rw [hunit]; exact hfirst, by rw [hunit]; exact List.mem_cons_self⟩
        | cons head tail =>
            rw [hsplit] at hpart
            rw [hsplit] at ih
            rcases List.mem_cons.mp hpart with rfl | hmem
            · rcases List.mem_cons.mp hunit with rfl | hhead
              · exact ⟨hfirst, List.mem_cons_self⟩
              · obtain ⟨hne, hin⟩ := ih head List.mem_cons_self unit hhead
                exact ⟨hne, List.mem_cons_of_mem _ hin⟩
            · obtain ⟨hne, hin⟩ := ih part (List.mem_cons_of_mem _ hmem) unit hunit
              exact ⟨hne, List.mem_cons_of_mem _ hin⟩

/-- A text without the separator is its only part. -/
theorem split_of_not_mem {separator : UInt16} {text : JsString} (h : separator ∉ text) :
    split separator text = [text] := by
  induction text with
  | nil => rfl
  | cons first rest ih =>
      have hfirst : first ≠ separator := fun heq => h (by rw [heq]; exact List.mem_cons_self)
      have hrest := ih (fun hmem => h (List.mem_cons_of_mem _ hmem))
      rw [split, if_neg hfirst, hrest]

/-- What comes before the first separator is the first part. -/
theorem split_append {separator : UInt16} {part : JsString} (h : separator ∉ part) (rest : JsString) :
    split separator (part ++ separator :: rest) = part :: split separator rest := by
  induction part with
  | nil => rw [List.nil_append, split, if_pos rfl]
  | cons first more ih =>
      have hfirst : first ≠ separator := fun heq => h (by rw [heq]; exact List.mem_cons_self)
      have hmore := ih (fun hmem => h (List.mem_cons_of_mem _ hmem))
      rw [List.cons_append, split, if_neg hfirst, hmore]

theorem split_ne_nil (separator : UInt16) (text : JsString) : split separator text ≠ [] := by
  cases text with
  | nil => exact List.cons_ne_nil _ _
  | cons first rest =>
      rw [split]
      split
      · exact List.cons_ne_nil _ _
      · split <;> exact List.cons_ne_nil _ _

/-- The first part of a text. -/
theorem split_head (separator : UInt16) (text : JsString) :
    (split separator text).headD [] = text.takeWhile (· != separator) := by
  induction text with
  | nil => rfl
  | cons first rest ih =>
      by_cases hfirst : first = separator
      · rw [split, if_pos hfirst, List.takeWhile_cons_of_neg (by simp [hfirst])]
        rfl
      · obtain ⟨part, parts, hsplit⟩ := List.exists_cons_of_ne_nil (split_ne_nil separator rest)
        rw [hsplit] at ih
        rw [split, if_neg hfirst, hsplit, List.takeWhile_cons_of_pos (by simp [hfirst]), ← ih]
        rfl

/-- Each part after its separator makes up the text again. -/
theorem flatMap_split (separator : UInt16) (text : JsString) :
    (split separator text).flatMap (separator :: ·) = separator :: text := by
  induction text with
  | nil => rfl
  | cons first rest ih =>
      by_cases hfirst : first = separator
      · rw [split, if_pos hfirst, List.flatMap_cons, ih, hfirst]
        rfl
      · obtain ⟨part, parts, hsplit⟩ := List.exists_cons_of_ne_nil (split_ne_nil separator rest)
        rw [hsplit, List.flatMap_cons, List.cons_append] at ih
        rw [split, if_neg hfirst, hsplit, List.flatMap_cons, List.cons_append, List.cons_append,
          List.tail_eq_of_cons_eq ih]

theorem split_flatMap {separator : UInt16} {parts : List JsString} (h : ∀ part ∈ parts, separator ∉ part) :
    split separator (parts.flatMap (separator :: ·)) = [] :: parts := by
  induction parts with
  | nil => rfl
  | cons part rest ih =>
      have hrest := ih (fun other hother => h other (List.mem_cons_of_mem _ hother))
      have hpart := h part List.mem_cons_self
      rw [List.flatMap_cons, List.cons_append, split, if_pos rfl]
      congr 1
      cases rest with
      | nil => rw [List.flatMap_nil, List.append_nil, split_of_not_mem hpart]
      | cons next more =>
          rw [List.flatMap_cons, List.cons_append] at hrest ⊢
          rw [split, if_pos rfl] at hrest
          rw [split_append hpart, List.tail_eq_of_cons_eq hrest]

/-- What stands before the first separator, and what after it. -/
theorem append_separator_inj {α : Type} {separator : α} {a b c d : List α} (ha : separator ∉ a)
    (hc : separator ∉ c) (h : a ++ [separator] ++ b = c ++ [separator] ++ d) : a = c ∧ b = d := by
  induction a generalizing c with
  | nil =>
      cases c with
      | nil => exact ⟨rfl, (List.cons.inj h).2⟩
      | cons first rest =>
          obtain rfl := (List.cons.inj h).1
          exact absurd List.mem_cons_self hc
  | cons first rest ih =>
      cases c with
      | nil =>
          obtain rfl := (List.cons.inj h).1
          exact absurd List.mem_cons_self ha
      | cons first' rest' =>
          obtain ⟨hfirst, hlater⟩ := List.cons.inj h
          obtain ⟨hrest, htail⟩ := ih (fun hmem => ha (List.mem_cons_of_mem _ hmem))
            (fun hmem => hc (List.mem_cons_of_mem _ hmem)) hlater
          exact ⟨by rw [hfirst, hrest], htail⟩

/-! ## Code points of a text -/

theorem codePoints_cons {unit : UInt16} (h : unit.toNat < 0xD800) (rest : JsString) :
    codePoints (unit :: rest) = unit.toNat :: codePoints rest := by
  have hhigh : isHigh unit = false := by
    simp only [isHigh, Bool.and_eq_false_iff, decide_eq_false_iff_not]
    omega
  have hlow : isLow unit = false := by
    simp only [isLow, Bool.and_eq_false_iff, decide_eq_false_iff_not]
    omega
  cases rest <;> simp [codePoints, hhigh, hlow]

theorem codePoints_append {text : JsString} (h : ∀ unit ∈ text, unit.toNat < 0xD800) (rest : JsString) :
    codePoints (text ++ rest) = text.map UInt16.toNat ++ codePoints rest := by
  induction text with
  | nil => rfl
  | cons unit more ih =>
      rw [List.cons_append, codePoints_cons (h unit List.mem_cons_self),
        ih (fun other hother => h other (List.mem_cons_of_mem _ hother))]
      rfl

/-- A code point below U+FFFD is one of the code units. -/
theorem mem_codePoints {text : JsString} {point : Nat} (h : point ∈ codePoints text) :
    point < 0x110000 ∧ (0xFFFD ≤ point ∨ ∃ unit ∈ text, unit.toNat = point) := by
  have hone : ∀ unit : UInt16, point = (if isHigh unit || isLow unit then 0xFFFD else unit.toNat) →
      point < 0x110000 ∧ (0xFFFD ≤ point ∨ unit.toNat = point) := by
    intro unit hpoint
    have hbound := unit.toNat_lt
    split at hpoint <;> omega
  induction text using codePoints.induct with
  | case1 => exact absurd h (by simp [codePoints])
  | case2 unit =>
      rw [codePoints, List.mem_singleton] at h
      obtain ⟨hlt, hunit⟩ := hone unit h
      exact ⟨hlt, hunit.imp_right (fun heq => ⟨unit, List.mem_cons_self, heq⟩)⟩
  | case3 unit next rest hpair ih =>
      rw [codePoints, if_pos hpair] at h
      rcases List.mem_cons.mp h with hpoint | hrest
      · have hbounds := pair_bounds hpair
        exact ⟨by omega, Or.inl (by omega)⟩
      · obtain ⟨hlt, hunit⟩ := ih hrest
        refine ⟨hlt, hunit.imp_right (fun ⟨other, hother, heq⟩ => ⟨other, ?_, heq⟩)⟩
        exact List.mem_cons_of_mem _ (List.mem_cons_of_mem _ hother)
  | case4 unit next rest hpair ih =>
      rw [codePoints, if_neg hpair] at h
      rcases List.mem_cons.mp h with heq | hrest
      · obtain ⟨hlt, hunit⟩ := hone unit heq
        exact ⟨hlt, hunit.imp_right (fun heq => ⟨unit, List.mem_cons_self, heq⟩)⟩
      · obtain ⟨hlt, hunit⟩ := ih hrest
        exact ⟨hlt, hunit.imp_right
          (fun ⟨other, hother, heq⟩ => ⟨other, List.mem_cons_of_mem _ hother, heq⟩)⟩

/-- In UTF-8 no other code point has an octet of ASCII. -/
theorem ascii_mem_encodePoint {point : Nat} {octet : UInt8} (hascii : octet.toNat < 0x80)
    (hlt : point < 0x110000) (h : octet ∈ encodePoint point) : point = octet.toNat := by
  have hoctet : ∀ n : Nat, octet = UInt8.ofNat n → octet.toNat = n % 256 := by
    rintro n rfl
    simp
  unfold encodePoint at h
  split at h
  · have := hoctet _ (List.mem_singleton.mp h)
    omega
  · split at h
    · simp only [List.mem_cons, List.not_mem_nil, or_false] at h
      rcases h with h | h <;> have := hoctet _ h <;> omega
    · split at h
      · simp only [List.mem_cons, List.not_mem_nil, or_false] at h
        rcases h with h | h | h <;> have := hoctet _ h <;> omega
      · simp only [List.mem_cons, List.not_mem_nil, or_false] at h
        rcases h with h | h | h | h <;> have := hoctet _ h <;> omega

/-- An octet of ASCII is there for a code unit of the text. -/
theorem mem_of_mem_utf8 {text : JsString} {u : UInt16} (hascii : u.toNat < 0x80)
    (h : UInt8.ofNat u.toNat ∈ text.utf8) : u ∈ text := by
  have hoctet : (UInt8.ofNat u.toNat).toNat = u.toNat :=
    UInt8.toNat_ofNat_of_lt' (Nat.lt_trans hascii (by decide))
  obtain ⟨point, hpoint, hin⟩ := List.mem_flatMap.mp h
  obtain ⟨hlt, hunit⟩ := mem_codePoints hpoint
  obtain rfl := ascii_mem_encodePoint (by omega) hlt hin
  rcases hunit with hhigh | ⟨other, hother, heq⟩
  · omega
  · obtain rfl : other = u := UInt16.toNat_inj.mp (heq.trans hoctet)
    exact hother

theorem head_codePoints {unit : UInt16} {rest : JsString} {point : Nat}
    (h : (codePoints (unit :: rest)).head? = some point) : 0xFFFD ≤ point ∨ unit.toNat = point := by
  cases rest with
  | nil =>
      rw [codePoints, List.head?_cons] at h
      obtain rfl := Option.some.inj h
      split
      · exact Or.inl (Nat.le_refl _)
      · exact Or.inr rfl
  | cons next more =>
      rw [codePoints] at h
      split at h
      · next hpair =>
          have hbound := (pair_bounds hpair).1
          have hpoint := Option.some.inj h
          exact Or.inl (by omega)
      · obtain rfl := Option.some.inj h
        split
        · exact Or.inl (Nat.le_refl _)
        · exact Or.inr rfl

end JsString
