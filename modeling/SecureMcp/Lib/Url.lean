import SecureMcp.Lib.Text
import Mathlib.Data.List.DropRight

set_option autoImplicit false

/-! # Resolving a reference against an http or https URL

The part of the WHATWG URL parser that handles a reference without a scheme and an authority of its
own: preprocessing, the relative and the relative slash state, and the path state with its
percent-encoding. The other references go on to the host parser; that part is a parameter. Of a
parsed URL only the origin and the path are kept, so the parser may stop where a query starts. -/

inductive WebScheme
  | http
  | https
deriving DecidableEq, Repr

/-- An origin, which stands for its serialization. -/
structure Origin where
  scheme : WebScheme
  host : JsString
  port : Option UInt16 := none
deriving DecidableEq

structure Url where
  /-- `none` where the origin is opaque. -/
  origin : Option Origin
  path : List JsString
deriving DecidableEq

namespace Url

/-! ## Code points -/

def isSlash (point : Nat) : Bool := point == 0x2F || point == 0x5C

def isAlpha (point : Nat) : Bool := (0x41 ≤ point && point ≤ 0x5A) || (0x61 ≤ point && point ≤ 0x7A)

def isDigit (point : Nat) : Bool := 0x30 ≤ point && point ≤ 0x39

/-- The path percent-encode set. -/
def inPathSet (point : Nat) : Bool :=
  point ≤ 0x20 || 0x7E < point ||
    [0x22, 0x23, 0x3C, 0x3E, 0x3F, 0x5E, 0x60, 0x7B, 0x7D].contains point

def hexDigit (n : Nat) : UInt16 := UInt16.ofNat (if n < 10 then 0x30 + n else 0x41 + (n - 10))

def escape (octet : UInt8) : JsString := [0x25, hexDigit (octet.toNat / 16), hexDigit (octet.toNat % 16)]

/-- UTF-8 percent-encode a code point with the path percent-encode set. -/
def percentEncode (point : Nat) : JsString :=
  if inPathSet point then (JsString.encodePoint point).flatMap escape else [UInt16.ofNat point]

/-! ## Segments -/

def lower (unit : UInt16) : UInt16 := if 0x41 ≤ unit ∧ unit ≤ 0x5A then unit + 0x20 else unit

def isSingleDot (segment : JsString) : Bool :=
  [js ".", js "%2e"].contains (segment.map lower)

def isDoubleDot (segment : JsString) : Bool :=
  [js "..", js ".%2e", js "%2e.", js "%2e%2e"].contains (segment.map lower)

/-- The end of a segment; `slash` says whether a slash ends it. -/
def endSegment (path : List JsString) (buffer : JsString) (slash : Bool) : List JsString :=
  if isDoubleDot buffer then if slash then path.dropLast else path.dropLast ++ [[]]
  else if isSingleDot buffer then if slash then path else path ++ [[]]
  else path ++ [buffer]

/-- The path state. -/
def pathState (path : List JsString) (buffer : JsString) : List Nat → List JsString
  | [] => endSegment path buffer false
  | point :: rest =>
    if isSlash point then pathState (endSegment path buffer true) [] rest
    else if point = 0x3F ∨ point = 0x23 then endSegment path buffer false
    else pathState path (buffer ++ percentEncode point) rest

/-- The path serializer. -/
def pathname (url : Url) : JsString := url.path.flatMap (0x2F :: ·)

/-! ## The parser -/

/-- Leading and trailing C0 controls and spaces go, and so do tabs and line breaks. -/
def preprocess (input : JsString) : List Nat :=
  ((input.codePoints.dropWhile (· ≤ 0x20)).rdropWhile (· ≤ 0x20)).filter
    (fun point => !(([0x09, 0x0A, 0x0D] : List Nat).contains point))

/-- The scheme state gets as far as a colon. -/
def hasScheme : List Nat → Bool
  | [] => false
  | point :: rest =>
    isAlpha point && (rest.dropWhile (fun point =>
      isAlpha point || isDigit point || [0x2B, 0x2D, 0x2E].contains point)).head? == some 0x3A

/-- `new URL(input, base)`; `none` when it throws. The path of an origin is a single empty segment. -/
def parse (foreign : List Nat → Origin → Option Url) (input : JsString) (base : Origin) : Option Url :=
  let points := preprocess input
  if hasScheme points then foreign points base
  else
    match points with
    | [] => some { origin := base, path := [[]] }
    | first :: rest =>
      if isSlash first then
        if rest.head?.any isSlash then foreign points base
        else some { origin := base, path := pathState [] [] rest }
      else if first = 0x3F ∨ first = 0x23 then some { origin := base, path := [[]] }
      else some { origin := base, path := pathState [] [] points }

example : (parse (fun _ _ => none) (js "/a/./b/../c d?e") ⟨.https, js "mcp.test", none⟩).map pathname =
    some (js "/a/c%20d") := by decide

/-! ## What a path is made of -/

/-- A code unit that the path state copies into a segment. -/
def isPlain (unit : UInt16) : Bool := !inPathSet unit.toNat && !isSlash unit.toNat

/-- The spellings of a dot. -/
def dots : List JsString := [js ".", js "%2e", js "%2E"]

/-- A segment that stands for the same or for the parent directory, in any spelling. -/
def IsDotSegment (segment : JsString) : Prop :=
  segment ∈ dots ∨ ∃ a ∈ dots, ∃ b ∈ dots, segment = a ++ b

/-- A segment as the path state leaves it. -/
structure Clean (segment : JsString) : Prop where
  plain : ∀ unit ∈ segment, isPlain unit = true
  undotted : ¬ IsDotSegment segment

theorem isSlash_toNat {unit : UInt16} : isSlash unit.toNat = false ↔ unit ≠ 0x2F ∧ unit ≠ 0x5C := by
  rw [isSlash, Bool.or_eq_false_iff, beq_eq_false_iff_ne, beq_eq_false_iff_ne]
  exact and_congr (not_congr (UInt16.toNat_inj (b := 0x2F))) (not_congr (UInt16.toNat_inj (b := 0x5C)))

theorem visible_of_isPlain {unit : UInt16} (h : isPlain unit = true) :
    0x20 < unit.toNat ∧ unit.toNat ≤ 0x7E ∧ unit ≠ 0x23 ∧ unit ≠ 0x2F ∧ unit ≠ 0x5C := by
  obtain ⟨hcopied, hslash⟩ := Bool.and_eq_true_iff.mp h
  obtain ⟨hne, hne'⟩ := isSlash_toNat.mp (by simpa using hslash)
  have hset : inPathSet unit.toNat = false := by simpa using hcopied
  obtain ⟨hrange, hlisted⟩ := Bool.or_eq_false_iff.mp hset
  obtain ⟨hlow, hhigh⟩ := Bool.or_eq_false_iff.mp hrange
  refine ⟨by simpa using hlow, by simpa using hhigh, ?_, hne, hne'⟩
  rintro rfl
  exact absurd hlisted (by decide)

theorem lower_eq {unit low : UInt16} (h : lower unit = low) :
    unit = low ∨ (0x61 ≤ low.toNat ∧ unit.toNat + 0x20 = low.toNat) := by
  unfold lower at h
  split at h
  · next hupper =>
      have hlower : 0x41 ≤ unit.toNat := UInt16.le_iff_toNat_le.mp hupper.1
      have hbound : unit.toNat ≤ 0x5A := UInt16.le_iff_toNat_le.mp hupper.2
      have hsum : (unit + 0x20).toNat = unit.toNat + 0x20 := by
        rw [UInt16.toNat_add, show (0x20 : UInt16).toNat = 0x20 from rfl]
        omega
      rw [← h, hsum]
      omega
  · exact Or.inl h

/-- Nothing but itself is lowered to a code unit that is no letter. -/
theorem lower_eq_iff {unit low : UInt16} (hlow : low.toNat < 0x41) : lower unit = low ↔ unit = low := by
  constructor
  · intro h
    rcases lower_eq h with heq | ⟨hge, -⟩
    · exact heq
    · omega
  · rintro rfl
    unfold lower
    rw [if_neg]
    intro hupper
    have hge : 0x41 ≤ unit.toNat := UInt16.le_iff_toNat_le.mp hupper.1
    omega

theorem lower_eq_e_iff {unit : UInt16} : lower unit = 0x65 ↔ unit = 0x65 ∨ unit = 0x45 := by
  constructor
  · intro h
    rcases lower_eq h with heq | ⟨-, hsum⟩
    · exact Or.inl heq
    · refine Or.inr (UInt16.toNat_inj.mp ?_)
      have hsum' : unit.toNat + 0x20 = 0x65 := hsum
      show unit.toNat = 0x45
      omega
  · rintro (rfl | rfl) <;> rfl

theorem lower_eq_dot {unit : UInt16} : lower unit = 0x2E ↔ unit = 0x2E := lower_eq_iff (by decide)

theorem lower_eq_percent {unit : UInt16} : lower unit = 0x25 ↔ unit = 0x25 := lower_eq_iff (by decide)

theorem lower_eq_two {unit : UInt16} : lower unit = 0x32 ↔ unit = 0x32 := lower_eq_iff (by decide)

theorem lower_iff_dot {segment : JsString} :
    segment.map lower = js "." ∨ segment.map lower = js "%2e" ↔ segment ∈ dots := by
  have hdot : js "." = [0x2E] := rfl
  have hlower : js "%2e" = [0x25, 0x32, 0x65] := rfl
  have hupper : js "%2E" = [0x25, 0x32, 0x45] := rfl
  rw [dots, hdot, hlower, hupper]
  simp only [List.mem_cons, List.not_mem_nil, or_false, List.map_eq_cons_iff, List.map_eq_nil_iff,
    lower_eq_dot, lower_eq_percent, lower_eq_two, lower_eq_e_iff]
  constructor
  · rintro (⟨_, _, rfl, rfl, rfl⟩ | ⟨_, _, rfl, rfl, _, _, rfl, rfl, _, _, rfl, rfl | rfl, rfl⟩)
    · exact Or.inl rfl
    · exact Or.inr (Or.inl rfl)
    · exact Or.inr (Or.inr rfl)
  · rintro (rfl | rfl | rfl)
    · exact Or.inl ⟨_, _, rfl, rfl, rfl⟩
    · exact Or.inr ⟨_, _, rfl, rfl, _, _, rfl, rfl, _, _, rfl, Or.inl rfl, rfl⟩
    · exact Or.inr ⟨_, _, rfl, rfl, _, _, rfl, rfl, _, _, rfl, Or.inr rfl, rfl⟩

theorem isSingleDot_iff {segment : JsString} : isSingleDot segment = true ↔ segment ∈ dots := by
  rw [← lower_iff_dot, isSingleDot, List.contains_iff_mem, List.mem_cons, List.mem_singleton]

theorem isDoubleDot_iff {segment : JsString} :
    isDoubleDot segment = true ↔ ∃ a ∈ dots, ∃ b ∈ dots, segment = a ++ b := by
  -- Each spelling is one dot after the other.
  have hpairs : isDoubleDot segment = true ↔ ∃ a b, (a = js "." ∨ a = js "%2e") ∧
      (b = js "." ∨ b = js "%2e") ∧ segment.map lower = a ++ b := by
    rw [isDoubleDot, List.contains_iff_mem]
    simp only [List.mem_cons, List.not_mem_nil, or_false, or_and_right, exists_or, exists_eq_left,
      exists_and_left]
    exact or_assoc.symm
  rw [hpairs]
  constructor
  · rintro ⟨a, b, ha, hb, heq⟩
    obtain ⟨s, t, rfl, rfl, rfl⟩ := List.map_eq_append_iff.mp heq
    exact ⟨s, lower_iff_dot.mp ha, t, lower_iff_dot.mp hb, rfl⟩
  · rintro ⟨s, hs, t, ht, rfl⟩
    exact ⟨s.map lower, t.map lower, lower_iff_dot.mpr hs, lower_iff_dot.mpr ht, List.map_append⟩

theorem isDotSegment_iff {segment : JsString} :
    IsDotSegment segment ↔ isSingleDot segment = true ∨ isDoubleDot segment = true := by
  rw [IsDotSegment, isSingleDot_iff, isDoubleDot_iff]

theorem clean_nil : Clean [] := by
  refine ⟨by simp, ?_⟩
  rw [isDotSegment_iff]
  decide

/-! ## What the path state leaves -/

theorem clean_endSegment {path : List JsString} (h : ∀ segment ∈ path, Clean segment)
    {buffer : JsString} (hbuffer : ∀ unit ∈ buffer, isPlain unit = true) (slash : Bool) :
    ∀ segment ∈ endSegment path buffer slash, Clean segment := by
  have hempty : ∀ path : List JsString, (∀ segment ∈ path, Clean segment) →
      ∀ segment ∈ path ++ [[]], Clean segment := by
    intro path hpath segment hsegment
    rcases List.mem_append.mp hsegment with hold | hnew
    · exact hpath segment hold
    · rw [List.mem_singleton.mp hnew]
      exact clean_nil
  have hshorter : ∀ segment ∈ path.dropLast, Clean segment := fun segment hsegment =>
    h segment (List.dropLast_subset path hsegment)
  unfold endSegment
  split
  · split
    · exact hshorter
    · exact hempty _ hshorter
  · next hdouble =>
      split
      · split
        · exact h
        · exact hempty _ h
      · next hsingle =>
          intro segment hsegment
          rcases List.mem_append.mp hsegment with hold | hnew
          · exact h segment hold
          · rw [List.mem_singleton.mp hnew]
            refine ⟨hbuffer, fun hdots => ?_⟩
            rcases isDotSegment_iff.mp hdots with hone | htwo
            · exact hsingle hone
            · exact hdouble htwo

theorem isPlain_hexDigit : ∀ n < 16, isPlain (hexDigit n) = true := by decide

theorem isPlain_percentEncode {point : Nat} (hslash : isSlash point = false) :
    ∀ unit ∈ percentEncode point, isPlain unit = true := by
  intro unit hunit
  unfold percentEncode at hunit
  split at hunit
  · obtain ⟨octet, -, hescape⟩ := List.mem_flatMap.mp hunit
    have hbound := octet.toNat_lt
    rcases List.mem_cons.mp hescape with rfl | hrest
    · decide
    · rcases List.mem_cons.mp hrest with rfl | hlast
      · exact isPlain_hexDigit _ (by omega)
      · rw [List.mem_singleton.mp hlast]
        exact isPlain_hexDigit _ (by omega)
  · next hcopied =>
      have hin : inPathSet point = false := Bool.eq_false_iff.mpr hcopied
      have hlow : point ≤ 0x7E := by
        by_contra hhigh
        exact hcopied (by simp [inPathSet, Nat.lt_of_not_le hhigh])
      have hsame : (UInt16.ofNat point).toNat = point := by
        rw [UInt16.toNat_ofNat']
        omega
      rw [List.mem_singleton.mp hunit, isPlain, hsame, hin, hslash]
      rfl

theorem clean_pathState (points : List Nat) {path : List JsString}
    (h : ∀ segment ∈ path, Clean segment) {buffer : JsString}
    (hbuffer : ∀ unit ∈ buffer, isPlain unit = true) :
    ∀ segment ∈ pathState path buffer points, Clean segment := by
  induction points generalizing path buffer with
  | nil => exact clean_endSegment h hbuffer false
  | cons point rest ih =>
      rw [pathState]
      split
      · exact ih (clean_endSegment h hbuffer true) (by simp)
      · next hslash =>
          split
          · exact clean_endSegment h hbuffer false
          · refine ih h (fun unit hunit => ?_)
            rcases List.mem_append.mp hunit with hold | hnew
            · exact hbuffer unit hold
            · exact isPlain_percentEncode (Bool.eq_false_iff.mpr hslash) unit hnew

/-! ## A path that is copied -/

theorem percentEncode_of_isPlain {unit : UInt16} (h : isPlain unit = true) :
    percentEncode unit.toNat = [unit] := by
  have hcopied : inPathSet unit.toNat = false := by simpa using (Bool.and_eq_true_iff.mp h).1
  rw [percentEncode, hcopied]
  exact congrArg (fun unit => [unit]) UInt16.ofNat_toNat

theorem endSegment_of_undotted {segment : JsString} (h : ¬ IsDotSegment segment) (path : List JsString)
    (slash : Bool) : endSegment path segment slash = path ++ [segment] := by
  rw [isDotSegment_iff, not_or] at h
  rw [endSegment, if_neg h.2, if_neg h.1]

/-- The path state copies a text of plain code units and slashes, up to its end or to the query, when
    none of its segments is a dot segment. -/
theorem pathState_of_plain {text : JsString} (htext : ∀ unit ∈ text, unit = 0x2F ∨ isPlain unit = true)
    {tail : List Nat} (htail : tail = [] ∨ tail.head? = some 0x3F) (path : List JsString)
    (buffer : JsString) {first : JsString} {others : List JsString}
    (hsplit : JsString.split 0x2F text = first :: others)
    (hfirst : ¬ IsDotSegment (buffer ++ first)) (hothers : ∀ segment ∈ others, ¬ IsDotSegment segment) :
    pathState path buffer (text.map UInt16.toNat ++ tail) = path ++ (buffer ++ first) :: others := by
  induction text generalizing path buffer first others with
  | nil =>
      obtain ⟨rfl, rfl⟩ := List.cons.inj hsplit
      rw [List.append_nil] at hfirst ⊢
      have hend := endSegment_of_undotted hfirst path false
      cases tail with
      | nil => exact hend
      | cons point rest =>
          obtain rfl := Option.some.inj (htail.resolve_left (List.cons_ne_nil _ _))
          exact hend
  | cons unit rest ih =>
      have hrest : ∀ unit ∈ rest, unit = 0x2F ∨ isPlain unit = true := fun other hother =>
        htext other (List.mem_cons_of_mem _ hother)
      obtain ⟨part, parts, hparts⟩ := List.exists_cons_of_ne_nil (JsString.split_ne_nil 0x2F rest)
      rw [List.map_cons, List.cons_append, pathState]
      by_cases hslash : unit = 0x2F
      · rw [JsString.split, if_pos hslash] at hsplit
        obtain ⟨rfl, rfl⟩ := List.cons.inj hsplit
        rw [List.append_nil] at hfirst ⊢
        have hpart : ¬ IsDotSegment ([] ++ part) :=
          hothers part (by rw [hparts]; exact List.mem_cons_self)
        rw [hslash, if_pos (by decide), endSegment_of_undotted hfirst,
          ih hrest _ [] hparts hpart (fun segment hsegment => hothers segment (by
            rw [hparts]
            exact List.mem_cons_of_mem _ hsegment)), hparts, List.append_assoc]
        rfl
      · have hplain := (htext unit List.mem_cons_self).resolve_left hslash
        obtain ⟨hcopied, hnot⟩ := Bool.and_eq_true_iff.mp hplain
        have hstop : ¬ (unit.toNat = 0x3F ∨ unit.toNat = 0x23) := by
          rintro (heq | heq) <;> rw [heq] at hcopied <;> exact absurd hcopied (by decide)
        rw [JsString.split, if_neg hslash, hparts] at hsplit
        obtain ⟨rfl, rfl⟩ := List.cons.inj hsplit
        have happend : buffer ++ unit :: part = buffer ++ [unit] ++ part := by
          rw [List.append_assoc]
          rfl
        rw [if_neg (by simpa using hnot), if_neg hstop, percentEncode_of_isPlain hplain, happend]
        exact ih hrest path _ hparts (happend ▸ hfirst) hothers

/-! ## References that begin with one slash -/

theorem preprocess_of_visible {input : JsString} (h : ∀ unit ∈ input, 0x20 < unit.toNat) :
    preprocess input = input.codePoints := by
  have hpoints : ∀ point ∈ input.codePoints, 0x20 < point := by
    intro point hpoint
    rcases (JsString.mem_codePoints hpoint).2 with hhigh | ⟨unit, hunit, rfl⟩
    · omega
    · exact h unit hunit
  have hleading : input.codePoints.dropWhile (· ≤ 0x20) = input.codePoints := by
    cases hcons : input.codePoints with
    | nil => rfl
    | cons point rest =>
        have hpoint := hpoints point (by rw [hcons]; exact List.mem_cons_self)
        rw [List.dropWhile_cons_of_neg (by simpa using hpoint)]
  have htrailing : input.codePoints.rdropWhile (· ≤ 0x20) = input.codePoints := by
    rw [List.rdropWhile_eq_self_iff]
    intro hne
    have hlast := hpoints _ (List.getLast_mem hne)
    simpa using hlast
  rw [preprocess, hleading, htrailing, List.filter_eq_self]
  intro point hpoint
  have hvisible := hpoints point hpoint
  have hbreak : point ≠ 0x09 ∧ point ≠ 0x0A ∧ point ≠ 0x0D := by omega
  simp [hbreak]

/-- Behind a slash that no other slash follows, the path state reads on from an empty path. -/
theorem parse_of_rooted (foreign : List Nat → Origin → Option Url) {input rest : JsString} (base : Origin)
    (hinput : input = 0x2F :: rest) (hvisible : ∀ unit ∈ input, 0x20 < unit.toNat)
    (hslash : ∀ unit, rest.head? = some unit → isSlash unit.toNat = false) :
    parse foreign input base =
      some { origin := base, path := pathState [] [] rest.codePoints } := by
  have hpoints : input.codePoints = 0x2F :: rest.codePoints := by
    rw [hinput]
    exact JsString.codePoints_cons (by decide) rest
  have hnext : rest.codePoints.head?.any isSlash = false := by
    cases hhead : rest.codePoints.head? with
    | none => rfl
    | some point =>
        cases rest with
        | nil => exact absurd hhead (by simp [JsString.codePoints])
        | cons unit more =>
            rcases JsString.head_codePoints hhead with hhigh | rfl
            · have hne : point ≠ 0x2F ∧ point ≠ 0x5C := by omega
              simp [isSlash, hne]
            · exact hslash unit rfl
  rw [parse, preprocess_of_visible hvisible, hpoints]
  have hscheme : hasScheme (0x2F :: rest.codePoints) = false := rfl
  have hfirst : isSlash 0x2F = true := rfl
  simp only [hscheme, hfirst, hnext, Bool.false_eq_true, if_false, if_true]

end Url
