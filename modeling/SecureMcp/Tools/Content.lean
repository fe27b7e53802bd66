import SecureMcp.Lib.Utf8Inverse
import SecureMcp.Tools.Documents
import SecureMcp.Lib.Triples

set_option autoImplicit false

/-! # The text that `documents_read` returns

Where the path leads to a regular file, its content stays the same, no system call fails and nobody
aborts, the outcome is a function of the content alone (`outcome`), whatever the lengths of the
reads. -/

namespace SecureMcp

namespace Documents

variable {w : World} {root node : Inode} {maxBytes : Nat} {path : JsString} {content : Bytes}

/-! ## A file that stays as it is -/

/-- Opening these components one after another, from this moment on, leads to this inode. -/
def Opens (w : World) (node : Inode) : Nat → Inode → List JsString → Prop
  | _, parent, [] => parent = node
  | time, parent, part :: rest => ∃ next,
      (w.moment time).openPath w.kind { noFollow := true, directory := !rest.isEmpty } parent part =
        some next ∧ Opens w node (time + 1) next rest

/-- The path leads to a regular file with this content throughout the call; the lengths of the reads
    are arbitrary, and so is all the rest of the file system. -/
structure Readable (w : World) (root node : Inode) (path : JsString) (content : Bytes) : Prop where
  allowed : isDenied path = false
  opens : Opens w node 0 root (path.split slash)
  regular : w.kind node = .regular
  content : ∀ time, (w.moment time).fs.content node = content
  sound : ∀ time, (w.moment time).fault = false
  abort : w.abort = none

/-- What the call comes to. -/
def outcome (maxBytes : Nat) (content : Bytes) : Except FailureCode JsString :=
  if maxBytes < content.length then .error .output_too_large
  else
    match JsString.decodeFatal content with
    | some text => .ok text
    | none => .error .not_found

open EStateM

/-! ## System calls that do not fail -/

theorem throwIfAborted_steady (habort : w.abort = none) (pre : Opened → Prop)
    (thrown : Thrown → Opened → Prop) :
    Triple pre (throwIfAborted w) (fun _ s => pre s) thrown := by
  refine Triple.bind Triple.gets (fun s => ?_)
  have hnone : w.aborted s.time = none := by rw [World.aborted, habort]
  rw [hnone]
  exact Triple.returns (fun _ hs => hs.1)

/-- Any system call: time moves on. -/
theorem systemCall_steady (pre : Opened → Prop) (thrown : Thrown → Opened → Prop) :
    Triple pre (systemCall w)
      (fun moment s' => ∃ s, pre s ∧ moment = w.moment s.time ∧ s'.time = s.time + 1) thrown :=
  fun s hs => ⟨s, hs, rfl, rfl⟩

/-- The loop over the components gets to the file. -/
theorem openParts_steady (habort : w.abort = none) (thrown : Thrown → Opened → Prop)
    (parts : List JsString) (parent : Handle) (time : Nat)
    (hopens : Opens w node time parent.node parts) :
    Triple (fun s => s.time = time) (openParts w parts parent)
      (fun handle _ => handle.node = node) thrown := by
  induction parts generalizing parent time with
  | nil => exact Triple.returns (fun _ _ => hopens)
  | cons part rest ih =>
      obtain ⟨next, hnext, hrest⟩ := hopens
      refine Triple.bind (throwIfAborted_steady habort _ thrown) (fun _ => ?_)
      have hopened : Triple (fun s => s.time = time) (openPart w parent part rest.isEmpty)
          (fun handle s => handle.node = next ∧ s.time = time + 1) thrown := by
        refine Triple.bind (systemCall_steady _ thrown) (fun moment => ?_)
        refine Triple.bind Triple.gets (fun s' => ?_)
        rintro s ⟨⟨s0, rfl, rfl, htime⟩, rfl⟩
        rw [hnext]
        exact ⟨rfl, htime⟩
      refine Triple.bind hopened (fun handle => ?_)
      refine Triple.bind (Triple.updates (fun s => handle.node = next ∧ s.time = time + 1)
        (fun s hs => hs)) (fun _ => ?_)
      rintro s ⟨hnode, htime⟩
      exact ih handle (time + 1) (by rw [hnode]; exact hrest) s htime

theorem stat_steady (h : Readable w root node path content) (document : Handle)
    (hnode : document.node = node) (thrown : Thrown → Opened → Prop) :
    Triple (fun _ => True) (stat w document)
      (fun result _ => result = (.regular, content.length)) thrown := by
  refine Triple.bind (systemCall_steady _ thrown) (fun moment => ?_)
  rintro s ⟨s0, _, rfl, _⟩
  rw [h.sound s0.time, hnode, h.regular, h.content]
  rfl

/-- A read gives some of what is left, and something unless nothing is left. -/
theorem read_steady (h : Readable w root node path content) (document : Handle)
    (hnode : document.node = node) (position length : Nat) (hlength : 0 < length)
    (thrown : Thrown → Opened → Prop) :
    Triple (fun _ => True) (read w document position length)
      (fun bytes _ => ∃ count, 0 < count ∧ count ≤ length ∧
        bytes = (content.drop position).take count) thrown := by
  refine Triple.bind (systemCall_steady _ thrown) (fun moment => ?_)
  rintro s ⟨s0, _, rfl, _⟩
  rw [h.sound s0.time, hnode, h.content]
  exact ⟨min length (max 1 (w.moment s0.time).atMost), by omega, Nat.min_le_left _ _, rfl⟩

/-- The loop that reads fills the buffer from the start of the content. The invariant is that the
    buffer holds the first octets of it; the induction is on the rounds that are left. -/
theorem readAll_steady (h : Readable w root node path content) (document : Handle)
    (hnode : document.node = node) (size rounds : Nat) (buffer : Bytes)
    (thrown : Thrown → Opened → Prop) (hbuffer : buffer = content.take buffer.length)
    (hsize : buffer.length ≤ size) (hrounds : size ≤ buffer.length + rounds) :
    Triple (fun _ => True) (readAll w document size rounds buffer)
      (fun bytes _ => bytes = content.take size) thrown := by
  induction rounds generalizing buffer with
  | zero =>
      refine Triple.returns (fun _ _ => ?_)
      rw [show size = buffer.length by omega]
      exact hbuffer
  | succ rounds ih =>
      refine Triple.ite (fun hless => ?_) (fun hfull => ?_)
      · refine Triple.bind (throwIfAborted_steady h.abort _ thrown) (fun _ => ?_)
        refine Triple.bind (read_steady h document hnode buffer.length (size - buffer.length)
          (by omega) thrown) (fun bytes => ?_)
        rintro s ⟨count, hpositive, hcount, hbytes⟩
        refine Triple.ite (P := fun _ => True) (fun hnone => Triple.returns (fun _ _ => ?_))
          (fun hsome => ?_) s trivial
        · -- Nothing was read, so nothing is left.
          have hend : content.length ≤ buffer.length := by
            rw [hbytes, List.length_take, List.length_drop] at hnone
            omega
          rw [hbuffer, List.take_of_length_le hend, List.take_of_length_le (by omega)]
        · have hlength : bytes.length ≤ size - buffer.length := by
            rw [hbytes, List.length_take]
            omega
          refine ih (buffer ++ bytes) ?_ (by rw [List.length_append]; omega)
            (by rw [List.length_append]; omega)
          have hbytes' : bytes = (content.drop buffer.length).take bytes.length := by
            conv_lhs => rw [hbytes]
            rw [hbytes, List.length_take, List.take_eq_take_min]
          rw [List.length_append, List.take_add, ← hbytes', ← hbuffer]
      · refine Triple.returns (fun _ _ => ?_)
        rw [show size = buffer.length by omega]
        exact hbuffer

/-! ## The call -/

/-- An outcome as an exception of the body. -/
def Fails (maxBytes : Nat) (content : Bytes) (error : Thrown) : Prop :=
  match outcome maxBytes content with
  | .ok _ => False
  | .error code => error = .runtimeFailure code

theorem readDocument_steady (maxBytes : Nat) (h : Readable w root node path content)
    (document : Handle) (hnode : document.node = node) :
    Triple (fun _ => True) (readDocument w maxBytes document)
      (fun text _ => outcome maxBytes content = .ok text)
      (fun error _ => Fails maxBytes content error ∨
        (∃ message, error = .other message) ∧ outcome maxBytes content = .error .not_found) := by
  refine Triple.bind (stat_steady h document hnode _) ?_
  rintro ⟨kind, size⟩ s hresult
  obtain ⟨rfl, rfl⟩ := Prod.mk.inj hresult
  refine Triple.ite (P := fun _ => True) (fun hno => absurd rfl hno) (fun _ => ?_) s trivial
  refine Triple.ite (fun hlarge => Triple.throws (fun _ _ => Or.inl ?_)) (fun hfits => ?_)
  · rw [Fails, outcome, if_pos hlarge]
  have hread := readAll_steady h document hnode (maxBytes + 1) (maxBytes + 1) []
    (fun error _ => Fails maxBytes content error ∨
      (∃ message, error = .other message) ∧ outcome maxBytes content = .error .not_found)
    (by simp) (Nat.zero_le _) (by simp)
  refine Triple.bind hread (fun bytes => ?_)
  rintro s hbytes
  rw [List.take_of_length_le (by omega)] at hbytes
  subst hbytes
  refine Triple.ite (P := fun _ => True) (fun hlarge => absurd hlarge hfits) (fun _ => ?_) s trivial
  cases hdecoded : JsString.decodeFatal bytes with
  | none =>
      refine Triple.throws (fun _ _ => Or.inr ⟨⟨_, rfl⟩, ?_⟩)
      rw [outcome, if_neg hfits, hdecoded]
  | some text =>
      refine Triple.returns (fun _ _ => ?_)
      rw [outcome, if_neg hfits, hdecoded]

theorem rethrow_steady (habort : w.abort = none) (error : Thrown)
    (post : JsString → Opened → Prop) :
    Triple (fun _ => Fails maxBytes content error ∨
        (∃ message, error = .other message) ∧ outcome maxBytes content = .error .not_found)
      (rethrow w error) post (fun error _ => Fails maxBytes content error) := by
  refine Triple.bind Triple.gets (fun s => ?_)
  cases error with
  | runtimeFailure code =>
      refine Triple.throws ?_
      rintro _ ⟨hfails | ⟨⟨message, hother⟩, _⟩, _⟩
      · exact hfails
      · exact absurd hother (by simp)
  | other message =>
      have hnone : w.aborted s.time = none := by rw [World.aborted, habort]
      rw [hnone]
      refine Triple.throws ?_
      rintro _ ⟨hfails | ⟨_, hnotFound⟩, _⟩
      · unfold Fails at hfails
        split at hfails
        · exact hfails.elim
        · exact absurd hfails (by simp)
      · rw [Fails, hnotFound]

theorem closeEach_steady (hsound : ∀ time, (w.moment time).fault = false) (handles : List Handle)
    (thrown : Thrown → Opened → Prop) :
    Triple (fun _ => True) (closeEach w handles) (fun ok _ => ok = true) thrown := by
  induction handles with
  | nil => exact Triple.returns (fun _ _ => rfl)
  | cons handle rest ih =>
      have hclose : Triple (fun _ => True) (close w handle) (fun ok _ => ok = true) thrown := by
        refine Triple.bind (systemCall_steady _ thrown) (fun moment => ?_)
        rintro s ⟨s0, _, rfl, _⟩
        rw [hsound]
        rfl
      refine Triple.bind hclose (fun first => ?_)
      rintro s rfl
      refine Triple.bind ih (fun others => ?_) s trivial
      rintro s rfl
      rfl

theorem closeAll_steady (hsound : ∀ time, (w.moment time).fault = false) (holds : Prop)
    (thrown : Thrown → Opened → Prop) :
    Triple (fun _ => holds) (closeAll w) (fun _ _ => holds) thrown := by
  intro s hs
  refine Triple.bind (P := fun _ => True) Triple.gets (fun found => ?_) s trivial
  refine Triple.bind ((closeEach_steady hsound found.opened thrown).weaken (fun _ _ => trivial)
    (fun _ _ hok => hok) (fun _ _ ht => ht)) (fun ok => ?_)
  rintro s rfl
  exact hs

theorem invoke_steady (maxBytes : Nat) (h : Readable w root node path content) :
    Triple (fun s => s = {}) (invoke w root maxBytes path)
      (fun text _ => outcome maxBytes content = .ok text)
      (fun error _ => Fails maxBytes content error) := by
  rw [invoke, h.allowed, if_neg Bool.false_ne_true]
  have hopen := (openParts_steady h.abort (fun error _ => Fails maxBytes content error ∨
      (∃ message, error = .other message) ∧ outcome maxBytes content = .error .not_found)
    (path.split slash) { id := 0, node := root } 0 h.opens).weaken (P := fun s => s = {})
    (fun s hs => by rw [hs]) (fun _ _ hs => hs) (fun _ _ hs => hs)
  have hbody := Triple.bind hopen (fun document =>
    show Triple _ (readDocument w maxBytes document) _ _ from fun s hnode =>
      readDocument_steady maxBytes h document hnode s trivial)
  have hcaught := Triple.catching hbody
    (fun error => rethrow_steady h.abort error (fun text _ => outcome maxBytes content = .ok text))
  exact Triple.ensuring hcaught (fun text => closeAll_steady h.sound _ _)
    (fun error => closeAll_steady h.sound _ _)

/-- The call returns the text, or fails with the code, that the content has for its outcome. -/
theorem invoke_outcome (maxBytes : Nat) (h : Readable w root node path content) :
    (∀ text, outcome maxBytes content = .ok text →
      ∃ s, invoke w root maxBytes path {} = .ok text s) ∧
    (∀ code, outcome maxBytes content = .error code →
      ∃ s, invoke w root maxBytes path {} = .error (.runtimeFailure code) s) := by
  have hrun := invoke_steady maxBytes h {} rfl
  cases hinvoke : invoke w root maxBytes path {} with
  | ok text s =>
      rw [hinvoke] at hrun
      replace hrun : outcome maxBytes content = .ok text := hrun
      refine ⟨fun text' htext => ?_, fun code hcode => ?_⟩
      · obtain rfl := Except.ok.inj (hrun.symm.trans htext)
        exact ⟨s, rfl⟩
      · exact absurd (hrun.symm.trans hcode) (by simp)
  | error error s =>
      rw [hinvoke] at hrun
      replace hrun : Fails maxBytes content error := hrun
      unfold Fails at hrun
      refine ⟨fun text htext => ?_, fun code hcode => ?_⟩
      · rw [htext] at hrun
        exact hrun.elim
      · rw [hcode] at hrun
        exact ⟨s, by rw [hrun]⟩

/-! ## The document and its text -/

/-- Text is returned exactly for valid UTF-8 that fits, and it is what the file holds; a longer file
    is too large, and other octets are not found. -/
structure Unchanged (w : World) (root : Inode) (maxBytes : Nat) (path : JsString) (content : Bytes) :
    Prop where
  returned : (∃ text s, invoke w root maxBytes path {} = .ok text s) ↔
    content.length ≤ maxBytes ∧ JsString.IsUtf8 content
  same : ∀ text s, invoke w root maxBytes path {} = .ok text s → text.utf8 = content
  large : maxBytes < content.length →
    ∃ s, invoke w root maxBytes path {} = .error (.runtimeFailure .output_too_large) s
  invalid : content.length ≤ maxBytes → ¬ JsString.IsUtf8 content →
    ∃ s, invoke w root maxBytes path {} = .error (.runtimeFailure .not_found) s

theorem decodeFatal_eq_none {bytes : Bytes} :
    JsString.decodeFatal bytes = none ↔ ¬ JsString.IsUtf8 bytes := by
  constructor
  · rintro hnone ⟨points, hscalar, rfl⟩
    exact absurd ((JsString.decodeFatal_encode hscalar).symm.trans hnone) (by simp)
  · intro hno
    cases hdecoded : JsString.decodeFatal bytes with
    | none => rfl
    | some text => exact absurd (JsString.isUtf8_of_decodeFatal hdecoded) hno

theorem outcome_large (h : maxBytes < content.length) :
    outcome maxBytes content = .error .output_too_large := if_pos h

theorem outcome_invalid (h : content.length ≤ maxBytes) (hinvalid : ¬ JsString.IsUtf8 content) :
    outcome maxBytes content = .error .not_found := by
  rw [outcome, if_neg (Nat.not_lt.mpr h), decodeFatal_eq_none.mpr hinvalid]

theorem outcome_valid (h : content.length ≤ maxBytes) (hvalid : JsString.IsUtf8 content) :
    ∃ text, JsString.decodeFatal content = some text ∧ outcome maxBytes content = .ok text := by
  cases hdecoded : JsString.decodeFatal content with
  | none => exact absurd hvalid (decodeFatal_eq_none.mp hdecoded)
  | some text => exact ⟨text, rfl, by rw [outcome, if_neg (Nat.not_lt.mpr h), hdecoded]⟩

/-- The document comes back unchanged unless it is text that begins with a byte order mark. -/
theorem document_unchanged_iff (h : Readable w root node path content) :
    Unchanged w root maxBytes path content ↔
      ¬ (content.length ≤ maxBytes ∧ JsString.IsUtf8 content ∧ JsString.mark <+: content) := by
  obtain ⟨hok, herror⟩ := invoke_outcome maxBytes h
  constructor
  · rintro hunchanged ⟨hfits, hvalid, hmark⟩
    obtain ⟨text, hdecoded, houtcome⟩ := outcome_valid hfits hvalid
    obtain ⟨s, hreturned⟩ := hok text houtcome
    exact (JsString.utf8_of_decodeFatal hdecoded).mp (hunchanged.same text s hreturned) hmark
  · intro hno
    -- What the call came to, in each of the three cases.
    have hcases : (∀ text s, invoke w root maxBytes path {} = .ok text s →
        content.length ≤ maxBytes ∧ JsString.IsUtf8 content ∧ text.utf8 = content) := by
      intro text s hreturned
      by_cases hfits : content.length ≤ maxBytes
      · by_cases hvalid : JsString.IsUtf8 content
        · obtain ⟨text', hdecoded, houtcome⟩ := outcome_valid hfits hvalid
          obtain ⟨s', hreturned'⟩ := hok text' houtcome
          obtain ⟨rfl, _⟩ := EStateM.Result.ok.inj (hreturned.symm.trans hreturned')
          exact ⟨hfits, hvalid, (JsString.utf8_of_decodeFatal hdecoded).mpr
            (fun hmark => hno ⟨hfits, hvalid, hmark⟩)⟩
        · obtain ⟨s', hfailed⟩ := herror _ (outcome_invalid hfits hvalid)
          exact absurd (hreturned.symm.trans hfailed) (by simp)
      · obtain ⟨s', hfailed⟩ := herror _ (outcome_large (Nat.lt_of_not_le hfits))
        exact absurd (hreturned.symm.trans hfailed) (by simp)
    constructor
    case returned =>
      constructor
      · rintro ⟨text, s, hreturned⟩
        exact ⟨(hcases text s hreturned).1, (hcases text s hreturned).2.1⟩
      · rintro ⟨hfits, hvalid⟩
        obtain ⟨text, _, houtcome⟩ := outcome_valid hfits hvalid
        exact ⟨text, hok text houtcome⟩
    case same => exact fun text s hreturned => (hcases text s hreturned).2.2
    case large => exact fun hlarge => herror _ (outcome_large hlarge)
    case invalid => exact fun hfits hinvalid => herror _ (outcome_invalid hfits hinvalid)

/-- A workspace (inode 0) with one document (inode 1), which is read one octet at a time. -/
def oneDocument (content : Bytes) : World where
  kind := fun node => if node = 1 then .regular else .directory
  moment := fun _ =>
    { atMost := 1
      fs :=
        { root := 0
          entry := fun node part => if node = 0 && part = js "a.txt" then some 1 else none
          parent := fun _ => 0
          target := fun _ => []
          content := fun node => if node = 1 then content else [] } }

theorem readable_oneDocument (content : Bytes) :
    Readable (oneDocument content) 0 1 (js "a.txt") content :=
  ⟨by decide, ⟨1, rfl, rfl⟩, rfl, fun _ => rfl, fun _ => rfl, rfl⟩

theorem document_unchanged_iff_accented :
    Unchanged (oneDocument (js "é").utf8) 0 64 (js "a.txt") (js "é").utf8 :=
  (document_unchanged_iff (readable_oneDocument _)).mpr (by
    rintro ⟨_, _, hmark⟩
    exact absurd hmark (by decide))

/-- The document is `a` after a byte order mark. -/
theorem mark_is_lost : ∃ s, invoke (oneDocument [0xEF, 0xBB, 0xBF, 0x61]) 0 64 (js "a.txt") {} =
      .ok (js "a") s ∧ (js "a").utf8 = [0x61] ∧
    Readable (oneDocument [0xEF, 0xBB, 0xBF, 0x61]) 0 1 (js "a.txt") [0xEF, 0xBB, 0xBF, 0x61] ∧
    ¬ Unchanged (oneDocument [0xEF, 0xBB, 0xBF, 0x61]) 0 64 (js "a.txt") [0xEF, 0xBB, 0xBF, 0x61] := by
  have hrun : ∃ s, invoke (oneDocument [0xEF, 0xBB, 0xBF, 0x61]) 0 64 (js "a.txt") {} =
      .ok (js "a") s := ⟨_, rfl⟩
  obtain ⟨s, hreturned⟩ := hrun
  refine ⟨s, hreturned, by decide, readable_oneDocument _, fun hunchanged => ?_⟩
  exact absurd (hunchanged.same _ s hreturned) (by decide)

end Documents

end SecureMcp
