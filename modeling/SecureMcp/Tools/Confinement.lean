import SecureMcp.Tools.Documents

set_option autoImplicit false

/-! # What `documents_read` can reach

Each call of the tool ends in one of two ways. If it returns a text, the path is a list of plain
components, and the text was read from a regular file that these components lead to, entry by entry
and without a link, from the workspace. Otherwise it throws, and what the caller gets is a failure
code; only where `close` itself failed, on a handle of this call, the tool throws that error, and the
code is `internal`. Either way every handle it opened is closed, once. -/

namespace SecureMcp

namespace Documents

variable (w : World) (root : Inode)

/-! ## What holds of a result -/

/-- Each of these components was an entry of the directory before it, and not a link, at some moment
    before `time`, and later ones at later moments. -/
inductive Reached : List JsString → Inode → Nat → Prop
  | workspace (time : Nat) : Reached [] root time
  | entry (parts : List JsString) (part : JsString) (node next : Inode) (since time : Nat)
      (hparent : Reached parts node since) (hsince : since ≤ time)
      (hdirectory : w.kind node = .directory)
      (hentry : (w.moment time).fs.entry node part = some next)
      (hkind : w.kind next ≠ .symlink) : Reached (parts ++ [part]) next (time + 1)

/-- These octets are successive pieces of the content of this inode, each as it was when it was
    read, after `start`. -/
inductive ReadFrom (node : Inode) (start : Nat) : Bytes → Nat → Prop
  | nothing : ReadFrom node start [] start
  | piece (bytes : Bytes) (length since time : Nat) (hbytes : ReadFrom node start bytes since)
      (hsince : since ≤ time) :
      ReadFrom node start
        (bytes ++ (((w.moment time).fs.content node).drop bytes.length).take length) (time + 1)

/-- The text is that of a regular file below the workspace. -/
structure Confined (maxBytes : Nat) (path text : JsString) : Prop where
  plain : ∀ part ∈ path.split slash, Plain part ∧ (0x5C : UInt16) ∉ part ∧ (0 : UInt16) ∉ part
  file : ∃ node opened time bytes, Reached w root (path.split slash) node opened ∧
    w.kind node = .regular ∧ ReadFrom w node opened bytes time ∧ bytes.length ≤ maxBytes ∧
    JsString.decodeFatal bytes = some text

/-- A failure with one of the codes of the tool, or with that of the abort. -/
def Coded (error : Thrown) : Prop :=
  ∃ code, error = .runtimeFailure code ∧
    (code = .denied ∨ code = .output_too_large ∨ code = .not_found ∨ code = .cancelled ∨
      ∃ since, w.abort = some (since, error))

/-- Every handle is closed once, and none of them is that of the workspace. -/
structure Released (s : Opened) : Prop where
  closed : s.closed.map Prod.fst = s.handed.map Handle.id
  once : (s.closed.map Prod.fst).Nodup
  workspace : 0 ∉ s.closed.map Prod.fst

/-- Until the `finally` block: `opened` is what was handed out, and nothing is closed. -/
structure Holding (s : Opened) : Prop where
  opened : s.opened = s.handed
  closed : s.closed = []
  ids : s.handed.map Handle.id = List.range' 1 s.handed.length

/-- What the body of the `try` block throws. -/
def Raised (error : Thrown) (s : Opened) : Prop :=
  Holding s ∧ ((∃ message, error = .other message) ∨ error = .runtimeFailure .denied ∨
    error = .runtimeFailure .output_too_large ∨ ∃ since, w.abort = some (since, error))

variable {w} {root}

theorem aborted_eq {time : Nat} {reason : Thrown} (h : w.aborted time = some reason) :
    ∃ since, w.abort = some (since, reason) := by
  unfold World.aborted at h
  split at h
  · next since reason' habort =>
      split at h
      · exact ⟨since, by rw [habort, Option.some.inj h]⟩
      · exact absurd h (by simp)
  · exact absurd h (by simp)

/-! ## System calls -/

open EStateM

variable {pre : Opened → Prop}

theorem systemCall_spec (pre : Opened → Prop) {thrown : Thrown → Opened → Prop} :
    Triple pre (systemCall w)
      (fun moment s' => ∃ s, pre s ∧ moment = w.moment s.time ∧ s' = { s with time := s.time + 1 })
      thrown :=
  fun s hs => ⟨s, hs, rfl, rfl⟩

theorem throwIfAborted_spec (pre : Opened → Prop) :
    Triple pre (throwIfAborted w) (fun _ s => pre s)
      (fun error s => pre s ∧ ∃ since, w.abort = some (since, error)) := by
  refine Triple.bind Triple.gets (fun s => ?_)
  cases haborted : w.aborted s.time with
  | some reason => exact Triple.throws (fun _ hs => ⟨hs.1, aborted_eq haborted⟩)
  | none => exact Triple.returns (fun _ hs => hs.1)

theorem openPart_spec (pre : Opened → Prop) (parent : Handle) (part : JsString) (final : Bool) :
    Triple pre (openPart w parent part final)
      (fun handle s' => ∃ s, pre s ∧ handle.id = s.handed.length + 1 ∧
        (w.moment s.time).openPath w.kind { noFollow := true, directory := !final }
          parent.node part = some handle.node ∧
        s' = { s with time := s.time + 1, handed := s.handed ++ [handle] })
      (fun error s' => (∃ message, error = .other message) ∧
        ∃ s, pre s ∧ s' = { s with time := s.time + 1 }) := by
  refine Triple.bind (systemCall_spec pre) (fun moment => ?_)
  refine Triple.bind Triple.gets (fun s' => ?_)
  cases hfound : moment.openPath w.kind { noFollow := true, directory := !final } parent.node
      part with
  | none =>
      refine Triple.throws (fun _ hs => ⟨⟨_, rfl⟩, ?_⟩)
      obtain ⟨⟨s, hpre, _, heq⟩, _⟩ := hs
      exact ⟨s, hpre, heq⟩
  | some node =>
      refine Triple.bind (Triple.updates (fun s'' => ∃ s, pre s ∧
        moment = w.moment s.time ∧ s'.handed.length = s.handed.length ∧
        s'' = { s with
          time := s.time + 1
          handed := s.handed ++ [{ id := s.handed.length + 1, node }] }) ?_) (fun _ => ?_)
      · rintro s'' ⟨⟨s, hpre, hmoment, rfl⟩, rfl⟩
        exact ⟨s, hpre, hmoment, rfl, rfl⟩
      · refine Triple.returns ?_
        rintro s'' ⟨s, hpre, rfl, hlength, rfl⟩
        rw [hlength]
        exact ⟨s, hpre, rfl, hfound, rfl⟩

theorem stat_spec (pre : Opened → Prop) (handle : Handle) :
    Triple pre (stat w handle)
      (fun result s' => result.1 = w.kind handle.node ∧
        ∃ s, pre s ∧ s' = { s with time := s.time + 1 })
      (fun error s' => (∃ message, error = .other message) ∧
        ∃ s, pre s ∧ s' = { s with time := s.time + 1 }) := by
  refine Triple.bind (systemCall_spec pre) (fun moment => Triple.ite (fun _ => ?_) (fun _ => ?_))
  · refine Triple.throws ?_
    rintro _ ⟨s, hpre, _, heq⟩
    exact ⟨⟨_, rfl⟩, s, hpre, heq⟩
  · refine Triple.returns ?_
    rintro _ ⟨s, hpre, _, heq⟩
    exact ⟨rfl, s, hpre, heq⟩

theorem read_spec (pre : Opened → Prop) (handle : Handle) (position length : Nat) :
    Triple pre (read w handle position length)
      (fun bytes s' => ∃ s n, pre s ∧ s' = { s with time := s.time + 1 } ∧ n ≤ length ∧
        bytes = (((w.moment s.time).fs.content handle.node).drop position).take n)
      (fun error s' => (∃ message, error = .other message) ∧
        ∃ s, pre s ∧ s' = { s with time := s.time + 1 }) := by
  refine Triple.bind (systemCall_spec pre) (fun moment => Triple.ite (fun _ => ?_) (fun _ => ?_))
  · refine Triple.throws ?_
    rintro _ ⟨s, hpre, _, heq⟩
    exact ⟨⟨_, rfl⟩, s, hpre, heq⟩
  · refine Triple.returns ?_
    rintro _ ⟨s, hpre, hmoment, heq⟩
    exact ⟨s, _, hpre, heq, Nat.min_le_left _ _, by rw [hmoment]⟩

/-! ## The body of the `try` block -/

theorem Holding.tick {s : Opened} (h : Holding s) : Holding { s with time := s.time + 1 } :=
  ⟨h.opened, h.closed, h.ids⟩

theorem Holding.take {s : Opened} (h : Holding s) {handle : Handle}
    (hid : handle.id = s.handed.length + 1) :
    Holding { s with
      time := s.time + 1
      opened := s.opened ++ [handle]
      handed := s.handed ++ [handle] } := by
  refine ⟨by rw [h.opened], h.closed, ?_⟩
  rw [List.map_append, h.ids, List.length_append, List.length_singleton, List.range'_concat]
  simp [hid, Nat.add_comm]

/-- A system call fails, or the signal is aborted, before anything else has changed. -/
theorem raised_of_other {error : Thrown} {s' : Opened}
    (h : (∃ message, error = .other message) ∧
      ∃ s, Holding s ∧ s' = { s with time := s.time + 1 }) : Raised w error s' := by
  obtain ⟨hother, s, hs, rfl⟩ := h
  exact ⟨hs.tick, Or.inl hother⟩

/-- The loop over the components. The induction is on those that are left; `past` are those that
    have led to `parent`. -/
theorem openParts_spec (parts past : List JsString) (parent : Handle)
    (hplain : ∀ part ∈ parts, Plain part) :
    Triple (fun s => Holding s ∧ ∃ since ≤ s.time, Reached w root past parent.node since)
      (openParts w parts parent)
      (fun handle s => Holding s ∧
        ∃ since ≤ s.time, Reached w root (past ++ parts) handle.node since)
      (Raised w) := by
  induction parts generalizing past parent with
  | nil =>
      refine Triple.returns (fun s hs => ?_)
      rw [List.append_nil]
      exact hs
  | cons part rest ih =>
      have hrest := ih (past ++ [part])
      refine Triple.bind ((throwIfAborted_spec _).weaken (fun _ hs => hs) (fun _ _ hs => hs)
        (fun error s hs => ⟨hs.1.1, Or.inr (Or.inr (Or.inr hs.2))⟩)) (fun _ => ?_)
      refine Triple.bind ((openPart_spec _ parent part rest.isEmpty).weaken (fun _ hs => hs)
        (fun _ _ hs => hs) (fun error s hs => raised_of_other ⟨hs.1, ?_⟩)) (fun handle => ?_)
      · obtain ⟨_, s0, ⟨hholding, _⟩, heq⟩ := hs
        exact ⟨s0, hholding, heq⟩
      · refine Triple.bind (Triple.updates (fun s => Holding s ∧
          ∃ since ≤ s.time, Reached w root (past ++ [part]) handle.node since) ?_) (fun _ => ?_)
        · rintro s ⟨s0, ⟨hholding, since, hsince, hreached⟩, hid, hopen, rfl⟩
          obtain ⟨hdirectory, hentry, hkind⟩ :=
            Moment.openPath_plain (hplain part List.mem_cons_self) hopen
          exact ⟨hholding.take hid, s0.time + 1, Nat.le_refl _,
            .entry past part parent.node handle.node since s0.time hreached hsince hdirectory
              hentry hkind⟩
        · have hstep := hrest handle (fun other hother => hplain other (List.mem_cons_of_mem _ hother))
          rw [List.append_assoc, List.singleton_append] at hstep
          exact hstep

/-- The loop that reads. -/
theorem readAll_spec (document : Handle) (size start rounds : Nat) (buffer : Bytes) :
    Triple (fun s => Holding s ∧ ∃ since ≤ s.time, ReadFrom w document.node start buffer since)
      (readAll w document size rounds buffer)
      (fun bytes s => Holding s ∧ ∃ since, ReadFrom w document.node start bytes since)
      (Raised w) := by
  induction rounds generalizing buffer with
  | zero =>
      refine Triple.returns ?_
      rintro s ⟨hholding, since, _, hread⟩
      exact ⟨hholding, since, hread⟩
  | succ rounds ih =>
      refine Triple.ite (fun _ => ?_) (fun _ => ?_)
      · refine Triple.bind ((throwIfAborted_spec _).weaken (fun _ hs => hs) (fun _ _ hs => hs)
          (fun error s hs => ⟨hs.1.1, Or.inr (Or.inr (Or.inr hs.2))⟩)) (fun _ => ?_)
        refine Triple.bind ((read_spec _ document buffer.length (size - buffer.length)).weaken
          (fun _ hs => hs) (fun _ _ hs => hs) (fun error s hs => raised_of_other ⟨hs.1, ?_⟩))
          (fun bytes => Triple.ite (fun _ => ?_) (fun _ => ?_))
        · obtain ⟨_, s0, ⟨hholding, _⟩, heq⟩ := hs
          exact ⟨s0, hholding, heq⟩
        · refine Triple.returns ?_
          rintro s ⟨s0, n, ⟨hholding, since, _, hread⟩, rfl, _⟩
          exact ⟨hholding.tick, since, hread⟩
        · refine (ih (buffer ++ bytes)).weaken ?_ (fun _ _ hs => hs) (fun _ _ hs => hs)
          rintro s ⟨s0, n, ⟨hholding, since, hsince, hread⟩, rfl, _, rfl⟩
          exact ⟨hholding.tick, s0.time + 1, Nat.le_refl _,
            .piece buffer n since s0.time hread hsince⟩
      · refine Triple.returns ?_
        rintro s ⟨hholding, since, _, hread⟩
        exact ⟨hholding, since, hread⟩

/-- `size` rounds are enough: one more changes nothing. -/
theorem readAll_rounds (document : Handle) (size rounds : Nat) (buffer : Bytes)
    (h : size ≤ buffer.length + rounds) :
    readAll w document size (rounds + 1) buffer = readAll w document size rounds buffer := by
  induction rounds generalizing buffer with
  | zero =>
      have hfull : ¬ buffer.length < size := by omega
      simp [readAll, hfull]
  | succ rounds ih =>
      conv_lhs => rw [readAll]
      conv_rhs => rw [readAll]
      by_cases hless : buffer.length < size
      · rw [if_pos hless, if_pos hless]
        congr 1
        funext _
        congr 1
        funext bytes
        by_cases hnone : bytes.length = 0
        · rw [if_pos hnone, if_pos hnone]
        · rw [if_neg hnone, if_neg hnone]
          refine ih (buffer ++ bytes) ?_
          rw [List.length_append]
          omega
      · rw [if_neg hless, if_neg hless]

theorem raised_code {code : FailureCode} {s : Opened} (h : Holding s)
    (hcode : code = .denied ∨ code = .output_too_large) : Raised w (.runtimeFailure code) s := by
  rcases hcode with rfl | rfl
  · exact ⟨h, Or.inr (Or.inl rfl)⟩
  · exact ⟨h, Or.inr (Or.inr (Or.inl rfl))⟩

theorem readDocument_spec (maxBytes : Nat) (parts : List JsString) (document : Handle) :
    Triple (fun s => Holding s ∧ ∃ since ≤ s.time, Reached w root parts document.node since)
      (readDocument w maxBytes document)
      (fun text s => Holding s ∧ ∃ node opened time bytes, Reached w root parts node opened ∧
        w.kind node = .regular ∧ ReadFrom w node opened bytes time ∧ bytes.length ≤ maxBytes ∧
        JsString.decodeFatal bytes = some text)
      (Raised w) := by
  rintro s0 ⟨hholding0, since, hsince, hreached⟩
  -- from here on only the time moves, and it moves forward
  have hbody : Triple (fun s => Holding s ∧ since ≤ s.time) (readDocument w maxBytes document)
      (fun text s => Holding s ∧ ∃ node opened time bytes, Reached w root parts node opened ∧
        w.kind node = .regular ∧ ReadFrom w node opened bytes time ∧ bytes.length ≤ maxBytes ∧
        JsString.decodeFatal bytes = some text) (Raised w) := by
    refine Triple.bind ((stat_spec _ document).weaken (fun _ hs => hs) (fun _ _ hs => hs)
      (fun error s hs => raised_of_other ⟨hs.1, ?_⟩)) ?_
    · obtain ⟨_, s1, ⟨hholding, _⟩, heq⟩ := hs
      exact ⟨s1, hholding, heq⟩
    rintro ⟨kind, size⟩
    refine Triple.ite (fun _ => Triple.throws ?_) (fun hregular => ?_)
    · rintro _ ⟨_, s1, ⟨hholding, _⟩, rfl⟩
      exact raised_code hholding.tick (Or.inl rfl)
    refine Triple.ite (fun _ => Triple.throws ?_) (fun _ => ?_)
    · rintro _ ⟨_, s1, ⟨hholding, _⟩, rfl⟩
      exact raised_code hholding.tick (Or.inr rfl)
    have hread := (readAll_spec (w := w) document (maxBytes + 1) since (maxBytes + 1) []).weaken
      (P := fun s' => kind = w.kind document.node ∧ Holding s' ∧ since ≤ s'.time)
      (fun s hs => ⟨hs.2.1, since, hs.2.2, ReadFrom.nothing⟩) (fun _ _ hs => hs) (fun _ _ hs => hs)
    rintro s ⟨hkind, s1, ⟨hholding, hle⟩, rfl⟩
    have hfile : w.kind document.node = .regular := by
      rw [← hkind]
      simpa using hregular
    refine Triple.bind hread (fun bytes => ?_) _ ⟨hkind, hholding.tick, Nat.le_succ_of_le hle⟩
    refine Triple.ite (fun _ => Triple.throws (fun _ hs => raised_code hs.1 (Or.inr rfl)))
      (fun hbound => ?_)
    cases hdecoded : JsString.decodeFatal bytes with
    | none => exact Triple.throws (fun _ hs => ⟨hs.1, Or.inl ⟨_, rfl⟩⟩)
    | some text =>
        refine Triple.returns ?_
        rintro s2 ⟨hholding2, time, hread2⟩
        exact ⟨hholding2, document.node, since, time, bytes, hreached, hfile, hread2, by omega,
          hdecoded⟩
  exact hbody s0 ⟨hholding0, hsince⟩

/-! ## The `catch` and `finally` blocks -/

theorem rethrow_spec (error : Thrown) (post : JsString → Opened → Prop) :
    Triple (Raised w error) (rethrow w error) post (fun error s => Holding s ∧ Coded w error) := by
  refine Triple.bind Triple.gets (fun s => ?_)
  cases error with
  | runtimeFailure code =>
      refine Triple.throws ?_
      rintro _ ⟨⟨hholding, hcode⟩, _⟩
      refine ⟨hholding, code, rfl, ?_⟩
      rcases hcode with ⟨message, hother⟩ | hdenied | hlarge | habort
      · exact absurd hother (by simp)
      · exact Or.inl (Thrown.runtimeFailure.inj hdenied)
      · exact Or.inr (Or.inl (Thrown.runtimeFailure.inj hlarge))
      · exact Or.inr (Or.inr (Or.inr (Or.inr habort)))
  | other message =>
      refine Triple.ite (fun _ => Triple.throws ?_) (fun _ => Triple.throws ?_)
      · exact fun _ hs => ⟨hs.1.1, .cancelled, rfl, Or.inr (Or.inr (Or.inr (Or.inl rfl)))⟩
      · exact fun _ hs => ⟨hs.1.1, .not_found, rfl, Or.inr (Or.inr (Or.inl rfl))⟩

theorem close_spec (pre : Opened → Prop) (handle : Handle) (thrown : Thrown → Opened → Prop) :
    Triple pre (close w handle)
      (fun ok s' => ∃ s, pre s ∧
        s' = { s with time := s.time + 1, closed := s.closed ++ [(handle.id, ok)] }) thrown := by
  refine Triple.bind (systemCall_spec pre) (fun moment => ?_)
  refine Triple.bind (Triple.updates (fun s' => ∃ s, pre s ∧
    s' = { s with time := s.time + 1, closed := s.closed ++ [(handle.id, !moment.fault)] }) ?_)
    (fun _ => Triple.returns (fun _ hs => hs))
  rintro _ ⟨s, hpre, _, rfl⟩
  exact ⟨s, hpre, rfl⟩

theorem closeEach_spec (handles : List Handle) (start : Opened) (thrown : Thrown → Opened → Prop) :
    Triple (fun s => s.handed = start.handed ∧ s.closed = start.closed)
      (closeEach w handles)
      (fun ok s => s.handed = start.handed ∧ ∃ closed, s.closed = start.closed ++ closed ∧
        closed.map Prod.fst = handles.map Handle.id ∧ ok = !closed.any (fun close => !close.2))
      thrown := by
  induction handles generalizing start with
  | nil =>
      refine Triple.returns (fun s hs => ⟨hs.1, [], ?_, rfl, rfl⟩)
      rw [List.append_nil]
      exact hs.2
  | cons handle rest ih =>
      refine Triple.bind (close_spec _ handle thrown) (fun first => ?_)
      rintro _ ⟨s, ⟨hhanded, hclosed⟩, rfl⟩
      have hothers := ih { start with closed := start.closed ++ [(handle.id, first)] }
      refine Triple.bind hothers (fun others => Triple.returns ?_) _
        ⟨hhanded, by simp only [hclosed]⟩
      rintro s' ⟨hhanded', closed, hclosed', hids, hothers⟩
      refine ⟨hhanded', (handle.id, first) :: closed, ?_, ?_, ?_⟩
      · rw [hclosed', List.append_assoc, List.singleton_append]
      · rw [List.map_cons, List.map_cons, hids]
      · rw [hothers, List.any_cons, Bool.not_or, Bool.not_not]

/-- What a call that does not return throws: a failure with a code, or, where closing one of its own
    handles failed, what `close` was rejected with, of which the caller is told `internal`. -/
def Failed (w : World) (error : Thrown) (s : Opened) : Prop :=
  if s.closeFailed then error = .other "close" ∧ failureCode error = .internal else Coded w error

theorem Holding.released {s s' : Opened} {closed : List (Nat × Bool)} (h : Holding s)
    (hhanded : s'.handed = s.handed) (hclosed : s'.closed = s.closed ++ closed)
    (hids : closed.map Prod.fst = s.opened.map Handle.id) : Released s' := by
  have hall : s'.closed.map Prod.fst = List.range' 1 s.handed.length := by
    rw [hclosed, h.closed, List.nil_append, hids, h.opened, h.ids]
  refine ⟨?_, ?_, ?_⟩
  · rw [hall, hhanded, h.ids]
  · rw [hall]
    exact List.nodup_range'
  · rw [hall, List.mem_range'_1]
    omega

/-- The `finally` block keeps what the call has come to, unless closing a handle fails. -/
theorem closeAll_spec {holds : Prop} {post : Opened → Prop} {thrown : Thrown → Opened → Prop}
    (hpost : ∀ s', holds → s'.closeFailed = false → Released s' → post s')
    (hthrown : ∀ s', s'.closeFailed = true → Released s' → thrown (.other "close") s') :
    Triple (fun s => Holding s ∧ holds) (closeAll w) (fun _ s' => post s') thrown := by
  rintro s ⟨hholding, hholds⟩
  have hclose := closeEach_spec (w := w) s.opened s thrown
  refine Triple.bind (P := fun t => t = s) (Q := fun a t => a = s ∧ t = s) ?_ (fun a => ?_) s rfl
  · rintro t rfl
    exact ⟨rfl, rfl⟩
  · rintro t ⟨rfl, rfl⟩
    have hfailed : ∀ {s' : Opened} {closed : List (Nat × Bool)}, s'.closed = t.closed ++ closed →
        s'.closeFailed = closed.any (fun close => !close.2) := by
      intro s' closed hclosed
      rw [Opened.closeFailed, hclosed, hholding.closed, List.nil_append]
    refine Triple.bind hclose (fun ok => Triple.ite (fun hok => ?_) (fun hno => ?_)) t ⟨rfl, rfl⟩
    · refine Triple.returns ?_
      rintro s' ⟨hhanded, closed, hclosed, hids, hall⟩
      refine hpost s' hholds ?_ (hholding.released hhanded hclosed hids)
      rw [hfailed hclosed, ← Bool.not_eq_true', ← hall, hok]
    · refine Triple.throws ?_
      rintro s' ⟨hhanded, closed, hclosed, hids, hall⟩
      refine hthrown s' ?_ (hholding.released hhanded hclosed hids)
      rw [hfailed hclosed, ← Bool.not_eq_false', ← hall]
      simpa using hno

/-! ## The call -/

/-- What the checks let through. -/
theorem plain_of_isDenied {path : JsString} (h : isDenied path = false) :
    ∀ part ∈ path.split slash, Plain part ∧ (0x5C : UInt16) ∉ part ∧ (0 : UInt16) ∉ part := by
  simp only [isDenied, Bool.or_eq_false_iff, List.any_eq_false, isHidden,
    beq_eq_false_iff_ne, List.contains_eq_mem, decide_eq_false_iff_not, Bool.not_eq_true] at h
  obtain ⟨⟨⟨_, hbackslash⟩, hnul⟩, hparts⟩ := h
  intro part hpart
  have hunits := JsString.split_units slash path part hpart
  have hvisible := hparts part hpart
  refine ⟨⟨?_, hvisible.2, fun hmem => (hunits slash hmem).1 rfl⟩, fun hmem => ?_, fun hmem => ?_⟩
  · intro hempty
    rw [hempty] at hvisible
    exact absurd hvisible.1 (by simp)
  · exact hbackslash (hunits _ hmem).2
  · exact hnul (hunits _ hmem).2

theorem invoke_spec (w : World) (root : Inode) (maxBytes : Nat) (path : JsString) :
    Triple (fun s => s = {}) (invoke w root maxBytes path)
      (fun text s => Confined w root maxBytes path text ∧ s.closeFailed = false ∧ Released s)
      (fun error s => Failed w error s ∧ Released s) := by
  refine Triple.ite (fun _ => Triple.throws ?_) (fun hdenied => ?_)
  · rintro _ rfl
    exact ⟨⟨.denied, rfl, Or.inl rfl⟩, rfl, List.nodup_nil, by simp⟩
  · have hplain := plain_of_isDenied (by simpa using hdenied)
    have hopen : Triple
        (fun s => Holding s ∧ ∃ since ≤ s.time, Reached w root [] root since)
        (openParts w (path.split slash) { id := 0, node := root })
        (fun handle s => Holding s ∧
          ∃ since ≤ s.time, Reached w root (path.split slash) handle.node since) (Raised w) :=
      openParts_spec (path.split slash) [] { id := 0, node := root }
        (fun part hpart => (hplain part hpart).1)
    have hstart := hopen.weaken (P := fun s => s = {})
      (fun s hs => by
        subst hs
        exact ⟨⟨rfl, rfl, rfl⟩, 0, Nat.le_refl _, .workspace 0⟩)
      (fun _ _ hs => hs) (fun _ _ hs => hs)
    have hbody := Triple.catching
      (Triple.bind hstart (readDocument_spec maxBytes (path.split slash)))
      (fun error => rethrow_spec error _)
    have hfailed : ∀ s, s.closeFailed = true → Released s →
        Failed w (.other "close") s ∧ Released s := fun s hfailed hreleased =>
      ⟨by rw [Failed, if_pos hfailed]; exact ⟨rfl, rfl⟩, hreleased⟩
    refine Triple.ensuring hbody (fun text => closeAll_spec ?_ hfailed)
      (fun error => closeAll_spec ?_ hfailed)
    · exact fun s hs hsound hreleased => ⟨⟨hplain, hs⟩, hsound, hreleased⟩
    · exact fun s hs hsound hreleased => ⟨by rw [Failed, hsound]; exact hs, hreleased⟩

/-- Whatever the file system does between two system calls, and whenever the call is aborted: a text
    that is returned is that of a regular file reached from the workspace by plain components, entry
    by entry and without a link; every other way out is a failure whose code is one of the tool's or
    that of the abort, except that it is what `close` was rejected with where closing a handle of this
    very call failed; and on each way out every handle that was opened has been closed once, and that of
    the workspace has not. -/
theorem document_confinement (w : World) (root : Inode) (maxBytes : Nat) (path : JsString) :
    match invoke w root maxBytes path {} with
    | .ok text s => Confined w root maxBytes path text ∧ s.closeFailed = false ∧ Released s
    | .error error s => Failed w error s ∧ Released s := by
  have hspec := invoke_spec w root maxBytes path {} rfl
  cases hrun : invoke w root maxBytes path {} with
  | ok text s =>
      rw [hrun] at hspec
      exact hspec
  | error error s =>
      rw [hrun] at hspec
      exact hspec

/-- A workspace (inode 1) with the document `runbooks/vpn.md` (inode 3) and a link to `/etc`
    (inode 4), read two octets at a time. -/
def runbooks : World where
  kind := fun node => if node = 3 then .regular else if node = 4 then .symlink else .directory
  moment := fun _ =>
    { atMost := 2
      fs :=
        { root := 0
          entry := fun node part =>
            if node = 1 && part = js "runbooks" then some 2
            else if node = 2 && part = js "vpn.md" then some 3
            else if node = 1 && part = js "etc" then some 4
            else none
          parent := fun _ => 0
          target := fun _ => js "/etc"
          content := fun node => if node = 3 then (js "VPN").utf8 else [] } }

example : invoke runbooks 1 64 (js "runbooks/vpn.md") {} = .ok (js "VPN")
    { time := 8
      opened := [{ id := 1, node := 2 }, { id := 2, node := 3 }]
      handed := [{ id := 1, node := 2 }, { id := 2, node := 3 }]
      closed := [(1, true), (2, true)] } := by rfl

example : invoke runbooks 1 64 (js "etc/passwd") {} =
    .error (.runtimeFailure .not_found) { time := 1 } := by rfl

end Documents

end SecureMcp
