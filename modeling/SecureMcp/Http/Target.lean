import SecureMcp.Lib.Url
import SecureMcp.Http.Server

set_option autoImplicit false

/-! # Request targets (`requestPath` in `src/http.ts`)

The listener takes the path of a request from its target by hand, and lets the URL parser confirm it,
because an adapter behind it resolves the target once more. `foreign` is the part of the URL parser
that no accepted target gets to. -/

namespace SecureMcp

/-! ## The guard -/

/-- `/[\x00-\x20\x7f#]/`. -/
def isForbidden (unit : UInt16) : Bool := unit ≤ 0x20 || unit == 0x7F || unit == 0x23

/-- `[a-f0-9]`, in either case. -/
def isHex (unit : UInt16) : Bool :=
  (0x30 ≤ unit && unit ≤ 0x39) || (0x41 ≤ unit && unit ≤ 0x46) || (0x61 ≤ unit && unit ≤ 0x66)

def startsWithHexPair : JsString → Bool
  | a :: b :: _ => isHex a && isHex b
  | _ => false

/-- `/%(?![a-f0-9]{2})/i`. -/
def hasLooseEscape : JsString → Bool
  | [] => false
  | unit :: rest => (unit == 0x25 && !startsWithHexPair rest) || hasLooseEscape rest

variable (foreign : List Nat → Origin → Option Url)

def requestPath (target : JsString) (origin : Origin) : Option JsString :=
  if !(js "/").isPrefixOf target || (js "//").isPrefixOf target || target.any isForbidden then none
  else
    let path := (target.split 0x3F).headD []
    if path.contains 0x5C || hasLooseEscape path then none
    else
      match Url.parse foreign target origin with
      | some parsed =>
        if parsed.origin = some origin ∧ parsed.pathname = path then some path else none
      | none => none

/-! ## What a path says -/

/-- A control character, of Unicode's general category `Cc`. -/
def IsControl (unit : UInt16) : Prop := unit.toNat < 0x20 ∨ (0x7F ≤ unit.toNat ∧ unit.toNat < 0xA0)

/-- The text before the query. -/
def beforeQuery (target : JsString) : JsString := target.takeWhile (· != 0x3F)

/-- A path that nobody behind the listener reads in another way. -/
structure Unambiguous (target path : JsString) : Prop where
  text : path = beforeQuery target
  rooted : ∃ rest, path = 0x2F :: rest ∧ rest.head? ≠ some 0x2F
  visible : ∀ unit ∈ path, unit ≠ 0x5C ∧ ¬ IsControl unit ∧ unit ≠ 0x20 ∧ unit ≠ 0x23
  escapes : ∀ before after, path = before ++ 0x25 :: after → startsWithHexPair after = true
  undotted : ∀ segment ∈ path.split 0x2F, ¬ Url.IsDotSegment segment
  resolved : ∀ origin, ∃ url, Url.parse foreign target origin = some url ∧ url.origin = some origin ∧
    url.pathname = path

/-- A letter, a digit, or another unreserved character of RFC 3986. -/
def isUnreserved (unit : UInt16) : Bool :=
  (0x41 ≤ unit && unit ≤ 0x5A) || (0x61 ≤ unit && unit ≤ 0x7A) || (0x30 ≤ unit && unit ≤ 0x39) ||
    (js "-._~").contains unit

def isSubDelimiter (unit : UInt16) : Bool := (js "!$&'()*+,;=").contains unit

/-- Slashes and the `pchar`s of RFC 3986. -/
inductive PathText : JsString → Prop
  | nil : PathText []
  | unit {unit : UInt16} {rest : JsString}
      (hunit : (isUnreserved unit || isSubDelimiter unit || (js "/:@").contains unit) = true) :
      PathText rest → PathText (unit :: rest)
  | triplet {a b : UInt16} {rest : JsString} (ha : isHex a = true) (hb : isHex b = true) :
      PathText rest → PathText (0x25 :: a :: b :: rest)

/-- A target in origin form that leaves nothing to normalize. -/
structure OriginForm (target : JsString) : Prop where
  rooted : ∃ rest, target = 0x2F :: rest ∧ rest.head? ≠ some 0x2F
  visible : ∀ unit ∈ target, 0x20 < unit.toNat ∧ unit ≠ 0x7F ∧ unit ≠ 0x23
  path : PathText (beforeQuery target)
  undotted : ∀ segment ∈ (beforeQuery target).split 0x2F, ¬ Url.IsDotSegment segment

/-! ## Lemmas about the guard -/

theorem isForbidden_eq_false_iff {unit : UInt16} :
    isForbidden unit = false ↔ 0x20 < unit.toNat ∧ unit ≠ 0x7F ∧ unit ≠ 0x23 := by
  simp only [isForbidden, Bool.or_eq_false_iff, decide_eq_false_iff_not, beq_eq_false_iff_ne,
    UInt16.le_iff_toNat_le, Nat.not_le, and_assoc]
  exact Iff.rfl

theorem rooted_iff {target : JsString} :
    (!(js "/").isPrefixOf target || (js "//").isPrefixOf target) = false ↔
      ∃ rest, target = 0x2F :: rest ∧ rest.head? ≠ some 0x2F := by
  have hone : (js "/").isPrefixOf target = true ↔ ∃ rest, target = 0x2F :: rest := by
    rw [List.isPrefixOf_iff_prefix]
    exact ⟨fun ⟨rest, heq⟩ => ⟨rest, heq.symm⟩, fun ⟨rest, heq⟩ => ⟨rest, heq.symm⟩⟩
  have htwo : (js "//").isPrefixOf target = true ↔ ∃ rest, target = 0x2F :: 0x2F :: rest := by
    rw [List.isPrefixOf_iff_prefix]
    exact ⟨fun ⟨rest, heq⟩ => ⟨rest, heq.symm⟩, fun ⟨rest, heq⟩ => ⟨rest, heq.symm⟩⟩
  rw [Bool.or_eq_false_iff, Bool.not_eq_false', hone, ← Bool.not_eq_true, htwo]
  constructor
  · rintro ⟨⟨rest, rfl⟩, hdouble⟩
    refine ⟨rest, rfl, fun hhead => hdouble ?_⟩
    obtain ⟨more, rfl⟩ := List.head?_eq_some_iff.mp hhead
    exact ⟨more, rfl⟩
  · rintro ⟨rest, rfl, hhead⟩
    refine ⟨⟨rest, rfl⟩, ?_⟩
    rintro ⟨more, heq⟩
    obtain rfl := List.tail_eq_of_cons_eq heq
    exact hhead rfl

theorem hasLooseEscape_eq_false {path : JsString} (h : hasLooseEscape path = false)
    (before after : JsString) (hpath : path = before ++ 0x25 :: after) :
    startsWithHexPair after = true := by
  induction before generalizing path with
  | nil =>
      rw [hpath, List.nil_append, hasLooseEscape] at h
      simpa using (Bool.or_eq_false_iff.mp h).1
  | cons unit rest ih =>
      rw [hpath, List.cons_append, hasLooseEscape] at h
      exact ih (Bool.or_eq_false_iff.mp h).2 rfl

/-- Letters and digits are plain. -/
theorem isPlain_of_range {unit : UInt16}
    (h : (0x30 ≤ unit.toNat ∧ unit.toNat ≤ 0x39) ∨ (0x41 ≤ unit.toNat ∧ unit.toNat ≤ 0x5A) ∨
      (0x61 ≤ unit.toNat ∧ unit.toNat ≤ 0x7A)) : Url.isPlain unit = true ∧ unit ≠ 0x25 := by
  refine ⟨?_, ?_⟩
  · simp only [Url.isPlain, Url.inPathSet, Url.isSlash, List.contains_cons, List.contains_nil,
      Bool.and_eq_true, Bool.not_eq_true', Bool.or_eq_false_iff, decide_eq_false_iff_not,
      beq_eq_false_iff_ne, and_true]
    omega
  · rintro rfl
    exact absurd h (by decide)

theorem isPlain_of_isHex {unit : UInt16} (h : isHex unit = true) :
    Url.isPlain unit = true ∧ unit ≠ 0x25 := by
  simp only [isHex, Bool.or_eq_true, Bool.and_eq_true, decide_eq_true_eq, UInt16.le_iff_toNat_le] at h
  refine isPlain_of_range ?_
  rcases h with (h | h) | h
  · exact Or.inl h
  · exact Or.inr (Or.inl ⟨h.1, Nat.le_trans h.2 (by decide)⟩)
  · exact Or.inr (Or.inr ⟨h.1, Nat.le_trans h.2 (by decide)⟩)

theorem isPlain_of_listed {listed : JsString} {unit : UInt16}
    (hlisted : listed.all (fun unit => Url.isPlain unit && unit != 0x25) = true)
    (h : listed.contains unit = true) : Url.isPlain unit = true ∧ unit ≠ 0x25 := by
  have hboth := List.all_eq_true.mp hlisted unit (List.contains_iff_mem.mp h)
  rwa [Bool.and_eq_true, bne_iff_ne] at hboth

theorem isPlain_of_isUnreserved {unit : UInt16} (h : isUnreserved unit = true) :
    Url.isPlain unit = true ∧ unit ≠ 0x25 := by
  simp only [isUnreserved, Bool.or_eq_true, Bool.and_eq_true, decide_eq_true_eq,
    UInt16.le_iff_toNat_le] at h
  rcases h with ((h | h) | h) | h
  · exact isPlain_of_range (Or.inr (Or.inl h))
  · exact isPlain_of_range (Or.inr (Or.inr h))
  · exact isPlain_of_range (Or.inl h)
  · exact isPlain_of_listed (by decide) h

theorem isPlain_of_isSubDelimiter {unit : UInt16} (h : isSubDelimiter unit = true) :
    Url.isPlain unit = true ∧ unit ≠ 0x25 := by
  unfold isSubDelimiter at h
  exact isPlain_of_listed (by decide) h

/-- The path state copies a path text, and every percent sign of it begins a triplet. -/
theorem PathText.plain {path : JsString} (h : PathText path) :
    (∀ unit ∈ path, unit = 0x2F ∨ Url.isPlain unit = true) ∧ hasLooseEscape path = false := by
  induction h with
  | nil => exact ⟨by simp, rfl⟩
  | @unit char _ hunit _ ih =>
      have hone : (char = 0x2F ∨ Url.isPlain char = true) ∧ char ≠ 0x25 := by
        rcases Bool.or_eq_true_iff.mp hunit with hpchar | hother
        · rcases Bool.or_eq_true_iff.mp hpchar with hunreserved | hsub
          · exact (isPlain_of_isUnreserved hunreserved).imp_left Or.inr
          · exact (isPlain_of_isSubDelimiter hsub).imp_left Or.inr
        · have hlisted : (js "/:@").all (fun unit =>
              (unit == 0x2F || Url.isPlain unit) && unit != 0x25) = true := by decide
          have hboth := List.all_eq_true.mp hlisted _ (List.contains_iff_mem.mp hother)
          rwa [Bool.and_eq_true, Bool.or_eq_true, beq_iff_eq, bne_iff_ne] at hboth
      refine ⟨List.forall_mem_cons.mpr ⟨hone.1, ih.1⟩, ?_⟩
      rw [hasLooseEscape, ih.2, Bool.or_false, Bool.and_eq_false_iff]
      exact Or.inl (beq_eq_false_iff_ne.mpr hone.2)
  | triplet ha hb _ ih =>
      obtain ⟨haplain, hane⟩ := isPlain_of_isHex ha
      obtain ⟨hbplain, hbne⟩ := isPlain_of_isHex hb
      refine ⟨?_, ?_⟩
      · exact List.forall_mem_cons.mpr ⟨Or.inr (by decide), List.forall_mem_cons.mpr ⟨Or.inr haplain,
          List.forall_mem_cons.mpr ⟨Or.inr hbplain, ih.1⟩⟩⟩
      · simp [hasLooseEscape, startsWithHexPair, ha, hb, hane, hbne, ih.2]

/-! ## Accepted targets -/

/-- What every accepted target has passed. -/
theorem requestPath_eq_some {target path : JsString} {origin : Origin}
    (h : requestPath foreign target origin = some path) :
    (∃ rest, target = 0x2F :: rest ∧ rest.head? ≠ some 0x2F) ∧
      (∀ unit ∈ target, 0x20 < unit.toNat ∧ unit ≠ 0x7F ∧ unit ≠ 0x23) ∧
      path = beforeQuery target ∧ 0x5C ∉ path ∧ hasLooseEscape path = false ∧
      ∃ parsed, Url.parse foreign target origin = some parsed ∧ parsed.pathname = path := by
  unfold requestPath at h
  split at h
  · exact absurd h (by simp)
  · next hguard =>
      obtain ⟨hrooted, hforbidden⟩ := Bool.or_eq_false_iff.mp (Bool.eq_false_iff.mpr hguard)
      dsimp only at h
      split at h
      · exact absurd h (by simp)
      · next hpath =>
          obtain ⟨hbackslash, hloose⟩ := Bool.or_eq_false_iff.mp (Bool.eq_false_iff.mpr hpath)
          split at h
          · next parsed hparsed =>
              split at h
              · next hsame =>
                  obtain rfl := Option.some.inj h
                  refine ⟨rooted_iff.mp hrooted, fun unit hunit => isForbidden_eq_false_iff.mp ?_,
                    JsString.split_head 0x3F target, ?_, hloose, parsed, hparsed, hsame.2⟩
                  · exact Bool.eq_false_iff.mpr (List.any_eq_false.mp hforbidden unit hunit)
                  · simpa using hbackslash
              · exact absurd h (by simp)
          · exact absurd h (by simp)

theorem unambiguous_of_accepted {target path : JsString} {origin : Origin}
    (h : requestPath foreign target origin = some path) : Unambiguous foreign target path := by
  obtain ⟨⟨rest, rfl, hsingle⟩, hvisible, hpath, hbackslash, hloose, parsed, hparsed, hname⟩ :=
    requestPath_eq_some foreign h
  have hstart : path = 0x2F :: beforeQuery rest := by
    rw [hpath, beforeQuery, List.takeWhile_cons_of_pos (by decide)]
    rfl
  have hnext : ∀ unit, rest.head? = some unit → Url.isSlash unit.toNat = false := by
    intro unit hunit
    obtain ⟨more, rfl⟩ := List.head?_eq_some_iff.mp hunit
    refine Url.isSlash_toNat.mpr ⟨fun heq => hsingle (by rw [heq]; rfl), ?_⟩
    rintro rfl
    refine hbackslash ?_
    rw [hstart, beforeQuery, List.takeWhile_cons_of_pos (by decide)]
    exact List.mem_cons_of_mem _ List.mem_cons_self
  have hresolved : ∀ other, Url.parse foreign (0x2F :: rest) other =
      some { origin := some other, path := Url.pathState [] [] (JsString.codePoints rest) } := fun other =>
    Url.parse_of_rooted foreign other rfl (fun unit hunit => (hvisible unit hunit).1) hnext
  obtain rfl := Option.some.inj (hparsed.symm.trans (hresolved origin))
  have hclean : ∀ segment ∈ Url.pathState [] [] (JsString.codePoints rest), Url.Clean segment :=
    Url.clean_pathState _ (by simp) (by simp)
  have hsplit : path.split 0x2F = [] :: Url.pathState [] [] (JsString.codePoints rest) := by
    rw [← hname]
    exact JsString.split_flatMap (fun segment hsegment hslash =>
      (Url.visible_of_isPlain ((hclean segment hsegment).plain _ hslash)).2.2.2.1 rfl)
  constructor
  case text => exact hpath
  case rooted =>
    refine ⟨_, hstart, fun hhead => hsingle ?_⟩
    cases rest with
    | nil => exact hhead
    | cons unit more =>
        by_cases hquery : unit = 0x3F
        · rw [beforeQuery, List.takeWhile_cons_of_neg (by simp [hquery])] at hhead
          exact absurd hhead (by simp)
        · rwa [beforeQuery, List.takeWhile_cons_of_pos (by simp [hquery]), List.head?_cons] at hhead
  case visible =>
    intro unit hunit
    rw [← hname] at hunit
    obtain ⟨segment, hsegment, hmem⟩ := List.mem_flatMap.mp hunit
    rcases List.mem_cons.mp hmem with rfl | hplain
    · exact ⟨by decide, by simp [IsControl], by decide, by decide⟩
    · obtain ⟨hlow, hhigh, hhash, -, hne⟩ :=
        Url.visible_of_isPlain ((hclean segment hsegment).plain unit hplain)
      refine ⟨hne, by rw [IsControl]; omega, ?_, hhash⟩
      rintro rfl
      exact absurd hlow (by decide)
  case escapes => exact hasLooseEscape_eq_false hloose
  case undotted =>
    intro segment hsegment
    rw [hsplit] at hsegment
    rcases List.mem_cons.mp hsegment with rfl | hmem
    · exact Url.clean_nil.undotted
    · exact (hclean segment hmem).undotted
  case resolved => exact fun other => ⟨_, hresolved other, rfl, hname⟩

theorem accepted_of_originForm {target : JsString} (h : OriginForm target) (origin : Origin) :
    requestPath foreign target origin = some (beforeQuery target) := by
  obtain ⟨rest, rfl, hsingle⟩ := h.rooted
  obtain ⟨hplain, hloose⟩ := h.path.plain
  have hundotted := h.undotted
  have hpath : beforeQuery (0x2F :: rest) = 0x2F :: beforeQuery rest := by
    rw [beforeQuery, List.takeWhile_cons_of_pos (by decide)]
    rfl
  have hrest : ∀ unit ∈ beforeQuery rest, unit = 0x2F ∨ Url.isPlain unit = true := fun unit hunit =>
    hplain unit (by rw [hpath]; exact List.mem_cons_of_mem _ hunit)
  have hbackslash : 0x5C ∉ beforeQuery (0x2F :: rest) := by
    intro hmem
    rcases hplain _ hmem with hslash | hcopied
    · exact absurd hslash (by decide)
    · exact absurd hcopied (by decide)
  have hnext : ∀ unit, rest.head? = some unit → Url.isSlash unit.toNat = false := by
    intro unit hunit
    obtain ⟨more, rfl⟩ := List.head?_eq_some_iff.mp hunit
    refine Url.isSlash_toNat.mpr ⟨fun heq => hsingle (by rw [heq]; rfl), ?_⟩
    rintro rfl
    refine hbackslash ?_
    rw [hpath, beforeQuery, List.takeWhile_cons_of_pos (by decide)]
    exact List.mem_cons_of_mem _ List.mem_cons_self
  -- What the path state reads behind the slash: the plain text, then the query.
  have hascii : ∀ unit ∈ beforeQuery rest, unit.toNat < 0xD800 := by
    intro unit hunit
    rcases hrest unit hunit with rfl | hcopied
    · decide
    · have hhigh := (Url.visible_of_isPlain hcopied).2.1
      omega
  have hpoints : JsString.codePoints rest = (beforeQuery rest).map UInt16.toNat ++
      JsString.codePoints (rest.dropWhile (· != 0x3F)) := by
    rw [← JsString.codePoints_append hascii, beforeQuery, List.takeWhile_append_dropWhile]
  have htail : JsString.codePoints (rest.dropWhile (· != 0x3F)) = [] ∨
      (JsString.codePoints (rest.dropWhile (· != 0x3F))).head? = some 0x3F := by
    cases hquery : rest.dropWhile (· != 0x3F) with
    | nil => exact Or.inl rfl
    | cons unit query =>
        have hunit := List.head?_dropWhile_not (· != 0x3F) rest
        rw [hquery, List.head?_cons] at hunit
        obtain rfl : unit = 0x3F := by simpa using hunit
        exact Or.inr (by rw [JsString.codePoints_cons (by decide)]; rfl)
  obtain ⟨first, others, hsplit⟩ :=
    List.exists_cons_of_ne_nil (JsString.split_ne_nil 0x2F (beforeQuery rest))
  rw [hpath, JsString.split, if_pos rfl] at hundotted
  have hstate := Url.pathState_of_plain hrest htail [] [] hsplit
    (hundotted _ (List.mem_cons_of_mem _ (by rw [hsplit]; exact List.mem_cons_self)))
    (fun segment hsegment => hundotted _ (List.mem_cons_of_mem _ (by
      rw [hsplit]
      exact List.mem_cons_of_mem _ hsegment)))
  have hparsed := Url.parse_of_rooted foreign origin rfl (fun unit hunit => (h.visible unit hunit).1) hnext
  rw [hpoints, hstate, List.nil_append, List.nil_append, ← hsplit] at hparsed
  have hguard : (!(js "/").isPrefixOf (0x2F :: rest) || (js "//").isPrefixOf (0x2F :: rest) ||
      (0x2F :: rest).any isForbidden) = false := by
    rw [Bool.or_eq_false_iff]
    refine ⟨rooted_iff.mpr ⟨rest, rfl, hsingle⟩, List.any_eq_false.mpr fun unit hunit => ?_⟩
    rw [isForbidden_eq_false_iff.mpr (h.visible unit hunit)]
    exact Bool.false_ne_true
  have hname : Url.pathname { origin := some origin, path := (beforeQuery rest).split 0x2F } =
      beforeQuery (0x2F :: rest) := by
    rw [hpath]
    exact JsString.flatMap_split 0x2F (beforeQuery rest)
  have hhead : (JsString.split 0x3F (0x2F :: rest)).headD [] = beforeQuery (0x2F :: rest) :=
    JsString.split_head 0x3F (0x2F :: rest)
  rw [requestPath, hguard, if_neg Bool.false_ne_true, hhead]
  dsimp only
  rw [if_neg (by simpa [hloose] using hbackslash), hparsed]
  dsimp only
  rw [hname, if_pos ⟨rfl, rfl⟩]

/-- A path that `requestPath` returns is the only one anybody can read from the target, and every
    target in origin form is accepted. -/
theorem requestPath_unambiguous (target : JsString) (origin : Origin) :
    (∀ path, requestPath foreign target origin = some path → Unambiguous foreign target path) ∧
      (OriginForm target → requestPath foreign target origin = some (beforeQuery target)) :=
  ⟨fun _ h => unambiguous_of_accepted foreign h, fun h => accepted_of_originForm foreign h origin⟩

/-- A query may hold what a path may not. -/
theorem requestPath_unambiguous_query :
    requestPath (fun _ _ => none) (js "/mcp?label=\\query") ⟨.http, js "127.0.0.1", some 3000⟩ =
        some (js "/mcp") ∧
      Unambiguous (fun _ _ => none) (js "/mcp?label=\\query") (js "/mcp") := by
  have haccepted : requestPath (fun _ _ => none) (js "/mcp?label=\\query")
      ⟨.http, js "127.0.0.1", some 3000⟩ = some (js "/mcp") := by decide
  exact ⟨haccepted, (requestPath_unambiguous _ _ _).1 _ haccepted⟩

example : [js "http://127.0.0.1:3000/mcp", js "/./mcp", js "/a/../mcp", js "/%2e/mcp", js "/\\mcp",
    js "//other/mcp", js "/mcp#fragment"].all (fun target =>
      requestPath (fun _ _ => none) target ⟨.http, js "127.0.0.1", some 3000⟩ == none) = true := by
  decide

/-- The path of an endpoint. -/
def Endpoint.path : Endpoint → JsString
  | .mcp => js "/mcp"
  | .metrics => js "/metrics"

/-- A request that gets as far as its token is for the endpoint that the adapter will see. -/
theorem endpoint_of_route {setup : HttpSetup} {closing : Bool} {request : HttpRequest}
    {target : JsString} {origin : Origin} {endpoint : Endpoint}
    (hpath : request.path = requestPath foreign target origin)
    (hroute : request.route setup closing = .verify endpoint) (other : Origin) :
    ∃ url, Url.parse foreign target other = some url ∧ url.origin = some other ∧
      url.pathname = endpoint.path := by
  cases hsome : request.path with
  | none =>
      rw [HttpRequest.route, hsome] at hroute
      exact absurd hroute (by simp)
  | some path =>
      obtain ⟨url, hparsed, horigin, hname⟩ :=
        (unambiguous_of_accepted foreign (hpath.symm.trans hsome)).resolved other
      refine ⟨url, hparsed, horigin, hname.trans ?_⟩
      rw [HttpRequest.route, hsome] at hroute
      dsimp only at hroute
      -- Of all branches only the last one verifies.
      repeat' split at hroute
      all_goals cases hroute
      · next hmcp => exact beq_iff_eq.mp hmcp
      · next hknown _ hmcp =>
          by_contra hmetrics
          refine hknown (Bool.and_eq_true_iff.mpr ⟨?_, bne_iff_ne.mpr hmetrics⟩)
          exact bne_iff_ne.mpr (fun heq => hmcp (beq_iff_eq.mpr heq))

end SecureMcp
