import SecureMcp.Errors
import SecureMcp.Lib.Triples
import SecureMcp.Lib.Utf8Inverse

set_option autoImplicit false

/-! # `createApiTool` (`src/tools.ts`)

The `invoke` of the tool `api_read`, as code that throws. What `fetch` and the stream of the response
do is given beforehand; so is the moment from which on the signal is aborted, counted in the promises
that have been awaited. -/

namespace SecureMcp

namespace Api

/-- How a stream goes on after its chunks. -/
inductive Ending
  | done
  | failed (error : Thrown)
deriving DecidableEq, Repr

structure Body where
  chunks : List Bytes
  ending : Ending
  /-- `cancel` of the stream while it is readable is fulfilled. -/
  cancels : Bool
deriving DecidableEq

structure Response where
  ok : Bool
  body : Option Body
deriving DecidableEq

structure Upstream where
  fetch : Except Thrown Response
  /-- The moment and the reason of the abort. -/
  abort : Option (Nat × Thrown) := none

def Body.content (body : Body) : Bytes := body.chunks.flatten

/-- `signal.reason` at this moment. -/
def Upstream.aborted (u : Upstream) (time : Nat) : Option Thrown :=
  match u.abort with
  | some (moment, reason) => if moment ≤ time then some reason else none
  | none => none

/-- The state of a stream. -/
inductive StreamState
  | readable
  | closed
  | errored (error : Thrown)
deriving DecidableEq, Repr

structure Reading where
  time : Nat := 0
  stream : StreamState := .readable
  /-- The stream has a reader. -/
  locked : Bool := false
  /-- Bookkeeping only, like the fields below: the calls of `read`. -/
  reads : Nat := 0
  /-- The octets in `chunks`. -/
  held : Nat := 0
  cancels : Nat := 0
deriving DecidableEq, Repr

/-- Code that throws, over one response. -/
abbrev Script : Type → Type := EStateM Thrown Reading

variable (u : Upstream)

/-! ## `fetch` and streams -/

def fetch : Script Response := do
  modify (fun s => { s with time := s.time + 1 })
  match u.fetch with
  | .ok response => pure response
  | .error error => throw error

/-- `signal.throwIfAborted()`. -/
def throwIfAborted : Script Unit := do
  let s ← get
  match u.aborted s.time with
  | some reason => throw reason
  | none => pure ()

/-- `reader.read()` gives a chunk. -/
def readChunk : Script Unit :=
  modify (fun s => { s with time := s.time + 1, reads := s.reads + 1 })

/-- `reader.read()` after the last chunk. -/
def readEnd (body : Body) : Script Unit := do
  readChunk
  match body.ending with
  | .done => modify (fun s => { s with stream := .closed })
  | .failed error => do
    modify (fun s => { s with stream := .errored error })
    throw error

/-- `cancel()` of a reader or of a stream: one that is closed has nothing to do, and one that has
    failed fails again. -/
def cancel (body : Body) : Script Unit := do
  modify (fun s => { s with time := s.time + 1, cancels := s.cancels + 1 })
  let s ← get
  match s.stream with
  | .closed => pure ()
  | .errored error => throw error
  | .readable => if body.cancels then pure () else throw (.other "cancel")

/-! ## The tool -/

/-- The loop over the chunks that are left. -/
def readAll (maxBytes : Nat) (body : Body) : List Bytes → Nat → List Bytes → Script (List Bytes)
  | [], _, chunks => do
    throwIfAborted u
    readEnd body
    pure chunks
  | value :: rest, size, chunks => do
    throwIfAborted u
    readChunk
    if maxBytes < size + value.length then throw (.runtimeFailure .output_too_large)
    else do
      modify (fun s => { s with held := s.held + value.length })
      readAll maxBytes body rest (size + value.length) (chunks ++ [value])

/-- The inner `try` block. -/
def readText (maxBytes : Nat) (body : Body) : Script JsString := do
  let chunks ← readAll u maxBytes body body.chunks 0 []
  match JsString.decodeFatal chunks.flatten with
  | some text => pure text
  | none => throw (.other "decode")

/-- Its `finally` block. -/
def release (body : Body) : Script Unit := do
  cancel body
  modify (fun s => { s with locked := false })

/-- The `catch` block. -/
def rethrow (error : Thrown) : Script JsString := do
  let s ← get
  match error with
  | .runtimeFailure code => throw (.runtimeFailure code)
  | .other _ =>
    if (u.aborted s.time).isSome then throw (.runtimeFailure .cancelled)
    else throw (.runtimeFailure .upstream_failed)

/-- The outer `try` block. -/
def attempt (maxBytes : Nat) : Script JsString := do
  let response ← fetch u
  match response.ok, response.body with
  | true, some body => do
    modify (fun s => { s with locked := true })
    try
      readText u maxBytes body
    finally
      release body
  | false, some body => do
    cancel body
    throw (.runtimeFailure .upstream_failed)
  | _, none => throw (.runtimeFailure .upstream_failed)

/-- `invoke({}, { signal })`: the text of its result. -/
def invoke (maxBytes : Nat) : Script JsString := do
  try
    attempt u maxBytes
  catch error =>
    rethrow u error

example : ∃ s, invoke { fetch := .ok ⟨true, some ⟨[[0x68], [0x69]], .done, true⟩⟩ } 2 {} =
    .ok (js "hi") s := ⟨_, rfl⟩

open EStateM

variable {u : Upstream} {maxBytes : Nat} {body : Body}

/-! ## Reading

The invariant of the loop is that the octets held so far are those of the chunks read so far, and that
they fit. -/

/-- Between two reads. -/
def between (read : List Bytes) : Reading :=
  { time := read.length + 1, reads := read.length, held := read.flatten.length, locked := true }

/-- After the last read. -/
def finished (body : Body) : Reading :=
  { time := body.chunks.length + 2, reads := body.chunks.length + 1, held := body.content.length,
    stream := .closed, locked := true }

/-- Why the loop was left with this exception. -/
inductive Stopped (u : Upstream) (maxBytes : Nat) (body : Body) (s : Reading) : Thrown → Prop
  | large (hlarge : maxBytes < body.content.length) (hstream : s.stream = .readable) :
      Stopped u maxBytes body s (.runtimeFailure .output_too_large)
  | aborted (reason : Thrown) (haborted : u.aborted s.time = some reason)
      (hstream : s.stream = .readable) : Stopped u maxBytes body s reason
  | failed (error : Thrown) (hending : body.ending = .failed error)
      (hfits : body.content.length ≤ maxBytes) (hstream : s.stream = .errored error) :
      Stopped u maxBytes body s error

/-- What the loop has done when it comes to its end. -/
structure Whole (u : Upstream) (maxBytes : Nat) (body : Body) (chunks : List Bytes) (s : Reading) :
    Prop where
  content : chunks.flatten = body.content
  fits : body.content.length ≤ maxBytes
  ending : body.ending = .done
  unaborted : u.aborted (body.chunks.length + 1) = none
  state : s = finished body

/-- What holds of the reader until it is released. -/
structure Held (maxBytes : Nat) (body : Body) (s : Reading) : Prop where
  locked : s.locked = true
  cancels : s.cancels = 0
  held : s.held ≤ maxBytes
  reads : s.reads ≤ body.chunks.length + 1

theorem held_between {read rest : List Bytes} (hchunks : body.chunks = read ++ rest)
    (hfits : read.flatten.length ≤ maxBytes) : Held maxBytes body (between read) := by
  refine ⟨rfl, rfl, hfits, ?_⟩
  rw [hchunks, List.length_append]
  exact Nat.le_succ_of_le (Nat.le_add_right _ _)

/-- An abort stays. -/
theorem aborted_later {time later : Nat} {reason : Thrown} (h : u.aborted time = some reason)
    (hle : time ≤ later) : u.aborted later = some reason := by
  unfold Upstream.aborted at h ⊢
  split at h
  · split at h
    · next hmoment => rw [if_pos (Nat.le_trans hmoment hle), h]
    · exact absurd h (by simp)
  · exact absurd h (by simp)

theorem throwIfAborted_spec {s : Reading} {thrown : Thrown → Reading → Prop}
    (h : ∀ reason, u.aborted s.time = some reason → thrown reason s) :
    Triple (fun s' => s' = s) (throwIfAborted u)
      (fun _ s' => s' = s ∧ u.aborted s.time = none) thrown := by
  refine Triple.bind Triple.gets (fun found => ?_)
  rintro s' ⟨rfl, rfl⟩
  cases haborted : u.aborted found.time with
  | none => exact ⟨rfl, rfl⟩
  | some reason => exact h reason haborted

theorem readEnd_done (h : body.ending = .done) (s : Reading) : readEnd body s =
    .ok () { s with time := s.time + 1, reads := s.reads + 1, stream := .closed } := by
  unfold readEnd
  rw [h]
  rfl

theorem readEnd_failed {error : Thrown} (h : body.ending = .failed error) (s : Reading) :
    readEnd body s = .error error
      { s with time := s.time + 1, reads := s.reads + 1, stream := .errored error } := by
  unfold readEnd
  rw [h]
  rfl

/-- The signal was aborted between two reads. -/
theorem stopped_between {read rest : List Bytes} (hchunks : body.chunks = read ++ rest)
    (hfits : read.flatten.length ≤ maxBytes) (reason : Thrown)
    (haborted : u.aborted (between read).time = some reason) :
    Stopped u maxBytes body (between read) reason ∧ Held maxBytes body (between read) :=
  ⟨.aborted reason haborted rfl, held_between hchunks hfits⟩

/-- The loop over the chunks that are left; the induction is on them. -/
theorem readAll_spec (rest : List Bytes) (read : List Bytes) (hchunks : body.chunks = read ++ rest)
    (hfits : read.flatten.length ≤ maxBytes) :
    Triple (fun s => s = between read) (readAll u maxBytes body rest read.flatten.length read)
      (Whole u maxBytes body) (fun error s => Stopped u maxBytes body s error ∧ Held maxBytes body s) := by
  induction rest generalizing read with
  | nil =>
      refine Triple.bind (throwIfAborted_spec (stopped_between hchunks hfits)) (fun _ => ?_)
      rw [List.append_nil] at hchunks
      subst hchunks
      refine Triple.bind (Q := fun _ s => Whole u maxBytes body body.chunks s) ?_
        (fun _ => Triple.returns (fun _ h => h))
      rintro s ⟨rfl, hunaborted⟩
      cases hending : body.ending with
      | done =>
          rw [readEnd_done hending]
          exact ⟨rfl, hfits, hending, hunaborted, rfl⟩
      | failed error =>
          rw [readEnd_failed hending]
          exact ⟨.failed error hending hfits rfl, rfl, rfl, hfits, Nat.le_refl _⟩
  | cons value rest ih =>
      have hsize : (read ++ [value]).flatten.length = read.flatten.length + value.length := by
        rw [List.flatten_append, List.length_append]
        simp
      refine Triple.bind (throwIfAborted_spec (stopped_between hchunks hfits)) (fun _ => ?_)
      refine Triple.bind (Triple.updates (fun s => s =
          { between read with time := read.length + 2, reads := read.length + 1 }) ?_) (fun _ => ?_)
      · rintro s ⟨rfl, _⟩
        rfl
      refine Triple.ite (fun hlarge => Triple.throws ?_) (fun hsmall => ?_)
      · rintro s rfl
        refine ⟨.large ?_ rfl, rfl, rfl, hfits, ?_⟩
        · rw [Body.content, hchunks, List.flatten_append, List.flatten_cons, List.length_append,
            List.length_append]
          omega
        · show read.length + 1 ≤ body.chunks.length + 1
          rw [hchunks, List.length_append]
          omega
      · refine Triple.bind (Triple.updates (fun s => s = between (read ++ [value])) ?_) (fun _ => ?_)
        · rintro s rfl
          simp only [between, hsize, List.length_append, List.length_singleton]
        · have hrest : body.chunks = (read ++ [value]) ++ rest := by
            rw [List.append_assoc]
            exact hchunks
          have hnext := ih (read ++ [value]) hrest (by omega)
          rw [hsize] at hnext
          exact hnext

/-! ## The call -/

/-- `fetch` comes to a response with a body. -/
def Upstream.Serves (u : Upstream) (body : Body) : Prop := u.fetch = .ok ⟨true, some body⟩

/-- The text of a body, where it is one. -/
def Body.text (maxBytes : Nat) (body : Body) : Option JsString :=
  if body.content.length ≤ maxBytes ∧ body.ending = .done then JsString.decodeFatal body.content
  else none

/-- After the reader: it was cancelled once, and released unless that failed. -/
structure Released (maxBytes : Nat) (body : Body) (s : Reading) : Prop where
  cancels : s.cancels = 1
  held : s.held ≤ maxBytes
  reads : s.reads ≤ body.chunks.length + 1
  locked : s.locked = true → body.cancels = false ∨ ∃ error, s.stream = .errored error

/-- Why `readText` and its `finally` block end with this exception. -/
inductive Thrower (u : Upstream) (maxBytes : Nat) (body : Body) (s : Reading) : Thrown → Prop
  | large (hlarge : maxBytes < body.content.length) (hcancels : body.cancels = true) :
      Thrower u maxBytes body s (.runtimeFailure .output_too_large)
  | aborted (reason : Thrown) (haborted : u.aborted s.time = some reason) :
      Thrower u maxBytes body s reason
  | failed (error : Thrown) (hending : body.ending = .failed error)
      (hfits : body.content.length ≤ maxBytes) : Thrower u maxBytes body s error
  | uncancelled (hcancels : body.cancels = false) (hleft : maxBytes < body.content.length ∨
        ∃ reason, u.aborted s.time = some reason) : Thrower u maxBytes body s (.other "cancel")
  | invalid (hfits : body.content.length ≤ maxBytes) (hending : body.ending = .done)
      (hinvalid : JsString.decodeFatal body.content = none) :
      Thrower u maxBytes body s (.other "decode")

theorem held_finished (hfits : body.content.length ≤ maxBytes) :
    Held maxBytes body (finished body) :=
  ⟨rfl, rfl, hfits, Nat.le_refl _⟩

theorem readText_spec : Triple (fun s => s = between []) (readText u maxBytes body)
    (fun text s => body.text maxBytes = some text ∧
      u.aborted (body.chunks.length + 1) = none ∧ s = finished body)
    (fun error s => Held maxBytes body s ∧ (Stopped u maxBytes body s error ∨
      s.stream = .closed ∧ error = .other "decode" ∧ body.content.length ≤ maxBytes ∧
        body.ending = .done ∧ JsString.decodeFatal body.content = none)) := by
  have hread : Triple (fun s => s = between []) (readAll u maxBytes body body.chunks 0 [])
      (Whole u maxBytes body) (fun error s => Stopped u maxBytes body s error ∧ Held maxBytes body s) :=
    readAll_spec body.chunks [] rfl (Nat.zero_le _)
  refine Triple.bind (hread.weaken (fun _ hs => hs) (fun _ _ hq => hq)
    (fun _ _ he => ⟨he.2, Or.inl he.1⟩)) (fun chunks => ?_)
  intro s hwhole
  rw [hwhole.content]
  cases hdecoded : JsString.decodeFatal body.content with
  | some text =>
      refine ⟨?_, hwhole.unaborted, hwhole.state⟩
      rw [Body.text, if_pos ⟨hwhole.fits, hwhole.ending⟩, hdecoded]
  | none =>
      refine ⟨hwhole.state ▸ held_finished hwhole.fits,
        Or.inr ⟨?_, rfl, hwhole.fits, hwhole.ending, rfl⟩⟩
      rw [hwhole.state]
      rfl

/-- The state once `cancel` has settled. -/
def Reading.cancelled (s : Reading) : Reading :=
  { s with time := s.time + 1, cancels := s.cancels + 1 }

theorem cancel_eq (s : Reading) : cancel body s =
    match s.stream with
    | .closed => .ok () s.cancelled
    | .errored error => .error error s.cancelled
    | .readable => if body.cancels then .ok () s.cancelled else .error (.other "cancel") s.cancelled := by
  obtain ⟨time, stream, locked, reads, held, cancels⟩ := s
  obtain ⟨chunks, ending, fulfilled⟩ := body
  cases stream with
  | closed | errored => rfl
  | readable => cases fulfilled <;> rfl

theorem release_eq (s : Reading) : release body s =
    match s.stream with
    | .closed => .ok () { s.cancelled with locked := false }
    | .errored error => .error error s.cancelled
    | .readable =>
      if body.cancels then .ok () { s.cancelled with locked := false }
      else .error (.other "cancel") s.cancelled := by
  have hbind : release body s = EStateM.bind (cancel body)
      (fun _ => modify (fun s => { s with locked := false })) s := rfl
  rw [hbind, EStateM.bind, cancel_eq]
  cases s.stream with
  | closed | errored => rfl
  | readable => cases body.cancels <;> rfl

/-- The text or the exception of `readText`, after `finally`. -/
theorem read_spec : Triple (fun s => s = between [])
    (tryFinally (readText u maxBytes body) (release body))
    (fun text s => body.text maxBytes = some text ∧
      u.aborted (body.chunks.length + 1) = none ∧ Released maxBytes body s)
    (fun error s => Thrower u maxBytes body s error ∧ Released maxBytes body s) := by
  refine Triple.ensuring readText_spec (fun text => ?_) (fun error => ?_)
  · rintro s ⟨htext, hunaborted, rfl⟩
    have hfits : body.content.length ≤ maxBytes := by
      by_contra hlarge
      rw [Body.text, if_neg (fun h => hlarge h.1)] at htext
      exact absurd htext (by simp)
    rw [release_eq]
    exact ⟨htext, hunaborted, rfl, hfits, Nat.le_refl _, fun h => absurd h (by simp)⟩
  · rintro s ⟨hheld, hstopped⟩
    have hcancels : s.cancelled.cancels = 1 := by rw [Reading.cancelled, hheld.cancels]
    have hreleased : Released maxBytes body { s.cancelled with locked := false } :=
      ⟨hcancels, hheld.held, hheld.reads, fun h => absurd h (by simp)⟩
    have hlocked : body.cancels = false ∨ (∃ error, s.stream = .errored error) →
        Released maxBytes body s.cancelled :=
      fun h => ⟨hcancels, hheld.held, hheld.reads, fun _ => h⟩
    rw [release_eq]
    rcases hstopped with hstopped | ⟨hstream, rfl, hfits, hending, hinvalid⟩
    · cases hstopped with
      | large hlarge hstream =>
          rw [hstream]
          cases hfulfilled : body.cancels with
          | true => exact ⟨.large hlarge hfulfilled, hreleased⟩
          | false => exact ⟨.uncancelled hfulfilled (Or.inl hlarge), hlocked (Or.inl hfulfilled)⟩
      | aborted reason haborted hstream =>
          rw [hstream]
          have hlater : u.aborted (s.time + 1) = some _ := aborted_later haborted (Nat.le_succ _)
          cases hfulfilled : body.cancels with
          | true => exact ⟨.aborted _ hlater, hreleased⟩
          | false =>
              exact ⟨.uncancelled hfulfilled (Or.inr ⟨_, hlater⟩), hlocked (Or.inl hfulfilled)⟩
      | failed error hending hfits hstream =>
          rw [hstream]
          exact ⟨.failed _ hending hfits, hlocked (Or.inr ⟨_, hstream⟩)⟩
    · rw [hstream]
      exact ⟨.invalid hfits hending hinvalid, hreleased⟩

/-- Why the outer `try` block ends with this exception, and what it leaves. -/
inductive Cause (u : Upstream) (maxBytes : Nat) (s : Reading) : Thrown → Prop
  | rejected (error : Thrown) (hfetch : u.fetch = .error error) : Cause u maxBytes s error
  | unserved (error : Thrown) (hno : ∀ body, ¬ u.Serves body)
      (herror : error = .runtimeFailure .upstream_failed ∨ error = .other "cancel") :
      Cause u maxBytes s error
  | read (error : Thrown) (body : Body) (hserves : u.Serves body)
      (hthrower : Thrower u maxBytes body s error) (hreleased : Released maxBytes body s) :
      Cause u maxBytes s error

theorem fetch_spec : Triple (fun s => s = {}) (fetch u)
    (fun response s => u.fetch = .ok response ∧ s = { time := 1 })
    (fun error _ => u.fetch = .error error) := by
  refine Triple.bind (Triple.updates (fun s => s = { time := 1 }) ?_) (fun _ => ?_)
  · rintro s rfl
    rfl
  · cases u.fetch with
    | ok response => exact Triple.returns (fun s hs => ⟨rfl, hs⟩)
    | error error => exact Triple.throws (fun _ _ => rfl)

theorem attempt_spec : Triple (fun s => s = {}) (attempt u maxBytes)
    (fun text s => ∃ body, u.Serves body ∧ body.text maxBytes = some text ∧
      u.aborted (body.chunks.length + 1) = none ∧ Released maxBytes body s)
    (fun error s => Cause u maxBytes s error) := by
  refine Triple.bind (fetch_spec.weaken (fun _ hs => hs) (fun _ _ hq => hq)
    (fun error _ he => .rejected error he)) (fun response => ?_)
  rcases response with ⟨_ | _, _ | body⟩
  · refine Triple.throws (fun s hs => .unserved _ (fun body hserves => ?_) (Or.inl rfl))
    cases hs.1.symm.trans hserves
  · have hno : u.fetch = .ok ⟨false, some body⟩ → ∀ body, ¬ u.Serves body := by
      intro hfetch body hserves
      cases hfetch.symm.trans hserves
    refine Triple.bind (Q := fun _ s => ∀ body, ¬ u.Serves body) ?_
      (fun _ => Triple.throws (fun s hs => .unserved _ hs (Or.inl rfl)))
    rintro s ⟨hfetch, rfl⟩
    rw [cancel_eq]
    cases body.cancels with
    | true => exact hno hfetch
    | false => exact .unserved _ (hno hfetch) (Or.inr rfl)
  · refine Triple.throws (fun s hs => .unserved _ (fun body hserves => ?_) (Or.inl rfl))
    cases hs.1.symm.trans hserves
  · refine Triple.bind (Q := fun _ s => u.Serves body ∧ s = between [])
      (Triple.updates _ ?_) (fun _ => ?_)
    · rintro s ⟨hfetch, rfl⟩
      exact ⟨hfetch, rfl⟩
    · rintro s ⟨hserves, rfl⟩
      have hread : Triple (fun s => s = between [])
          (tryFinally (readText u maxBytes body) (release body)) _ _ := read_spec
      refine hread.weaken (P := fun s => s = between []) (fun _ hs => hs)
        (fun text s hq => ?_) (fun error s he => ?_) (between []) rfl
      · exact ⟨body, hserves, hq⟩
      · exact .read error body hserves he.1 he.2

/-! ## The outcome -/

/-- The failure code of what is thrown at this moment. -/
def reported (u : Upstream) (error : Thrown) (time : Nat) : FailureCode :=
  match error with
  | .runtimeFailure code => code
  | .other _ => if (u.aborted time).isSome then .cancelled else .upstream_failed

theorem rethrow_eq (error : Thrown) (s : Reading) :
    rethrow u error s = .error (.runtimeFailure (reported u error s.time)) s := by
  cases error with
  | runtimeFailure code => rfl
  | other message =>
      have hrun : rethrow u (.other message) s =
          (if (u.aborted s.time).isSome then throw (.runtimeFailure .cancelled)
            else throw (.runtimeFailure .upstream_failed) : Script JsString) s := rfl
      rw [hrun, reported]
      cases (u.aborted s.time).isSome <;> rfl

theorem invoke_spec : Triple (fun s => s = {}) (invoke u maxBytes)
    (fun text s => ∃ body, u.Serves body ∧ body.text maxBytes = some text ∧
      u.aborted (body.chunks.length + 1) = none ∧ Released maxBytes body s)
    (fun error s => ∃ thrown, Cause u maxBytes s thrown ∧
      error = .runtimeFailure (reported u thrown s.time)) := by
  refine Triple.catching attempt_spec (fun thrown s hcause => ?_)
  rw [rethrow_eq]
  exact ⟨thrown, hcause, rfl⟩

/-- A `RuntimeFailure` that `fetch` or the stream fails with is the reason of the abort: what fails on
    its own account is an error of the platform. -/
structure Upstream.Foreign (u : Upstream) : Prop where
  fetch : ∀ code, u.fetch = .error (.runtimeFailure code) →
    ∃ moment, u.abort = some (moment, .runtimeFailure code)
  ending : ∀ body, u.Serves body → ∀ code, body.ending = .failed (.runtimeFailure code) →
    ∃ moment, u.abort = some (moment, .runtimeFailure code)

/-- What the tool answers while the signal is not aborted: of a body only its octets matter, how it ends
    and whether it can be cancelled, not the chunks in which it arrives. -/
def Upstream.outcome (maxBytes : Nat) (u : Upstream) : Except FailureCode JsString :=
  match u.fetch with
  | .ok ⟨true, some body⟩ =>
    if maxBytes < body.content.length ∧ body.cancels = true then .error .output_too_large
    else match body.text maxBytes with
      | some text => .ok text
      | none => .error .upstream_failed
  | _ => .error .upstream_failed

theorem outcome_unserved (hno : ∀ body, ¬ u.Serves body) :
    u.outcome maxBytes = .error .upstream_failed := by
  unfold Upstream.outcome
  split
  · next body hfetch => exact absurd hfetch (hno body)
  · rfl

theorem outcome_text (hserves : u.Serves body) {text : JsString}
    (htext : body.text maxBytes = some text) : u.outcome maxBytes = .ok text := by
  have hfits : ¬ maxBytes < body.content.length := by
    intro hlarge
    rw [Body.text, if_neg (fun h => Nat.not_lt.mpr h.1 hlarge)] at htext
    exact absurd htext (by simp)
  rw [Upstream.outcome, hserves]
  simp only
  rw [if_neg (fun h => hfits h.1), htext]

theorem outcome_failed (hserves : u.Serves body) (htext : body.text maxBytes = none)
    (hsmall : ¬ (maxBytes < body.content.length ∧ body.cancels = true)) :
    u.outcome maxBytes = .error .upstream_failed := by
  rw [Upstream.outcome, hserves]
  simp only
  rw [if_neg hsmall, htext]

/-- The failure is the one of the outcome, or the signal was aborted. -/
def Accounted (u : Upstream) (maxBytes : Nat) (code : FailureCode) : Prop :=
  u.outcome maxBytes = .error code ∨
    ∃ moment reason, u.abort = some (moment, reason) ∧
      (code = .cancelled ∨ reason = .runtimeFailure code)

theorem abort_of_aborted {time : Nat} {reason : Thrown} (h : u.aborted time = some reason) :
    ∃ moment, u.abort = some (moment, reason) := by
  unfold Upstream.aborted at h
  split at h
  · next moment found habort =>
      split at h
      · exact ⟨moment, by rw [habort, ← Option.some.inj h]⟩
      · exact absurd h (by simp)
  · exact absurd h (by simp)

/-- An error of the platform is reported as the failure of the upstream, or else as the abort. -/
theorem accounted_other {message : String} {time : Nat}
    (h : u.aborted time = none → u.outcome maxBytes = .error .upstream_failed) :
    Accounted u maxBytes (reported u (.other message) time) := by
  unfold reported
  cases haborted : u.aborted time with
  | none => exact Or.inl (h haborted)
  | some reason =>
      obtain ⟨moment, habort⟩ := abort_of_aborted haborted
      exact Or.inr ⟨moment, reason, habort, Or.inl rfl⟩

theorem accounted_thrower (hforeign : u.Foreign) (hserves : u.Serves body) {s : Reading}
    {error : Thrown} (h : Thrower u maxBytes body s error) :
    Accounted u maxBytes (reported u error s.time) := by
  cases h with
  | large hlarge hcancels =>
      refine Or.inl ?_
      rw [Upstream.outcome, hserves]
      simp only
      rw [if_pos ⟨hlarge, hcancels⟩]
      rfl
  | aborted _ haborted =>
      cases error with
      | runtimeFailure code =>
          obtain ⟨moment, habort⟩ := abort_of_aborted haborted
          exact Or.inr ⟨moment, _, habort, Or.inr rfl⟩
      | other message =>
          refine accounted_other (fun hnone => ?_)
          rw [hnone] at haborted
          cases haborted
  | failed _ hending hfits =>
      cases error with
      | runtimeFailure code =>
          obtain ⟨moment, habort⟩ := hforeign.ending body hserves code hending
          exact Or.inr ⟨moment, _, habort, Or.inr rfl⟩
      | other message =>
          refine accounted_other (fun _ => outcome_failed hserves ?_ ?_)
          · rw [Body.text, hending]
            simp
          · exact fun h => Nat.not_lt.mpr hfits h.1
  | uncancelled hcancels hleft =>
      refine accounted_other (fun hnone => ?_)
      rcases hleft with hlarge | ⟨reason, haborted⟩
      · refine outcome_failed hserves ?_ ?_
        · rw [Body.text, if_neg (fun h => Nat.not_lt.mpr h.1 hlarge)]
        · rw [hcancels]
          simp
      · rw [hnone] at haborted
        cases haborted
  | invalid hfits hending hinvalid =>
      refine accounted_other (fun _ => outcome_failed hserves ?_ ?_)
      · rw [Body.text, if_pos ⟨hfits, hending⟩, hinvalid]
      · exact fun h => Nat.not_lt.mpr hfits h.1

theorem accounted (hforeign : u.Foreign) {s : Reading} {error : Thrown}
    (h : Cause u maxBytes s error) : Accounted u maxBytes (reported u error s.time) := by
  cases h with
  | rejected hfetch =>
      have hno : ∀ body, ¬ u.Serves body := by
        intro body hserves
        cases hfetch.symm.trans hserves
      cases error with
      | runtimeFailure code =>
          obtain ⟨moment, habort⟩ := hforeign.fetch code hfetch
          exact Or.inr ⟨moment, _, habort, Or.inr rfl⟩
      | other message => exact accounted_other (fun _ => outcome_unserved hno)
  | unserved hno herror =>
      rcases herror with rfl | rfl
      · exact Or.inl (outcome_unserved hno)
      · exact accounted_other (fun _ => outcome_unserved hno)
  | read body hserves hthrower _ => exact accounted_thrower hforeign hserves hthrower

/-- The state when a call has settled, either way. -/
def settled (result : EStateM.Result Thrown Reading JsString) : Reading :=
  match result with
  | .ok _ s => s
  | .error _ s => s

/-- A call of `api_read`. -/
structure ApiRead (u : Upstream) (maxBytes : Nat) : Prop where
  /-- A text is the outcome, whatever the chunks in which it came. -/
  returned : ∀ text s, invoke u maxBytes {} = .ok text s → u.outcome maxBytes = .ok text
  failed : ∀ error s, invoke u maxBytes {} = .error error s →
    ∃ code, error = .runtimeFailure code ∧ Accounted u maxBytes code
  /-- A body that was opened was read within the bound, and given up again. -/
  released : ∀ body, u.Serves body → Released maxBytes body (settled (invoke u maxBytes {}))

/-- What comes out of a call is the outcome of the upstream or the abort of the signal, and never an
    error of the platform. -/
theorem api_read (maxBytes : Nat) (hforeign : u.Foreign) : ApiRead u maxBytes := by
  have hinvoke := (invoke_spec : EStateM.Triple _ (invoke u maxBytes) _ _) {} rfl
  refine ⟨fun text s hrun => ?_, fun error s hrun => ?_, fun body hserves => ?_⟩
  · rw [hrun] at hinvoke
    obtain ⟨body, hserves, htext, -, -⟩ := hinvoke
    exact outcome_text hserves htext
  · rw [hrun] at hinvoke
    obtain ⟨thrown, hcause, rfl⟩ := hinvoke
    exact ⟨_, rfl, accounted hforeign hcause⟩
  · cases hrun : invoke u maxBytes {} with
    | ok text s =>
        rw [hrun] at hinvoke
        obtain ⟨found, hfound, -, -, hreleased⟩ := hinvoke
        cases hfound.symm.trans hserves
        exact hreleased
    | error error s =>
        rw [hrun] at hinvoke
        obtain ⟨thrown, hcause, -⟩ := hinvoke
        cases hcause with
        | rejected hfetch => cases hfetch.symm.trans hserves
        | unserved hno _ => exact absurd hserves (hno body)
        | read found hfound _ hreleased =>
            cases hfound.symm.trans hserves
            exact hreleased

/-- The two octets of one character, in two chunks. -/
def splitCharacter : Upstream :=
  { fetch := .ok ⟨true, some ⟨[[0xC3], [0xA9]], .done, true⟩⟩ }

theorem foreign_splitCharacter : splitCharacter.Foreign := by
  refine ⟨fun code hfetch => ?_, fun body hserves code hending => ?_⟩
  · cases hfetch
  · cases hserves
    cases hending

theorem api_read_splitCharacter : ApiRead splitCharacter 2 ∧
    splitCharacter.outcome 2 = .ok (js "é") ∧ splitCharacter.outcome 1 = .error .output_too_large :=
  ⟨api_read 2 foreign_splitCharacter, by decide +kernel, by decide +kernel⟩

end Api

end SecureMcp
