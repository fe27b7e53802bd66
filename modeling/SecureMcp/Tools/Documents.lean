import SecureMcp.Lib.Triples
import SecureMcp.Lib.Utf8
import SecureMcp.Tools.FileSystem

set_option autoImplicit false

/-! # `createDocumentTool` (`src/tools.ts`)

The `invoke` of the tool `documents_read`, as code that throws. Its state is what is left of the
`FileHandle` objects: the array `opened`, and, as bookkeeping, which handles the system gave out and
which were closed. Time is the number of system calls that are over. -/

namespace SecureMcp

structure Handle where
  id : Nat
  node : Inode
deriving DecidableEq, Repr

structure Opened where
  time : Nat := 0
  /-- The array `opened`. -/
  opened : List Handle := []
  /-- Bookkeeping only, like the next field: the handles that `open` has returned. -/
  handed : List Handle := []
  /-- Those on which `close` was called, and whether its promise was fulfilled. -/
  closed : List (Nat × Bool) := []
deriving DecidableEq, Repr

/-- Closing one of the handles failed. -/
def Opened.closeFailed (s : Opened) : Bool := s.closed.any (fun close => !close.2)

namespace Documents

/-- Code that throws, over the handles of one call. -/
abbrev Script : Type → Type := EStateM Thrown Opened

variable (w : World)

/-! ## System calls -/

/-- The moment of the next system call. -/
def systemCall : Script Moment := do
  let s ← get
  modify (fun s => { s with time := s.time + 1 })
  pure (w.moment s.time)

/-- `signal.throwIfAborted()`. -/
def throwIfAborted : Script Unit := do
  let s ← get
  match w.aborted s.time with
  | some reason => throw reason
  | none => pure ()

/-- ``open(`/proc/self/fd/${parent.fd}/${part}`, …)``. -/
def openPart (parent : Handle) (part : JsString) (final : Bool) : Script Handle := do
  let moment ← systemCall w
  let s ← get
  match moment.openPath w.kind { noFollow := true, directory := !final } parent.node part with
  | none => throw (.other "open")
  | some node =>
    modify (fun s => { s with handed := s.handed ++ [{ id := s.handed.length + 1, node }] })
    pure { id := s.handed.length + 1, node }

/-- `handle.stat()`: the type and the size. -/
def stat (handle : Handle) : Script (Kind × Nat) := do
  let moment ← systemCall w
  if moment.fault then throw (.other "fstat")
  else pure (w.kind handle.node, (moment.fs.content handle.node).length)

/-- `handle.read(…, length, null)` at the position that the earlier reads have reached. -/
def read (handle : Handle) (position length : Nat) : Script Bytes := do
  let moment ← systemCall w
  if moment.fault then throw (.other "read")
  else
    pure (((moment.fs.content handle.node).drop position).take (min length (max 1 moment.atMost)))

/-- `handle.close()`, and whether its promise is fulfilled. -/
def close (handle : Handle) : Script Bool := do
  let moment ← systemCall w
  modify (fun s => { s with closed := s.closed ++ [(handle.id, !moment.fault)] })
  pure (!moment.fault)

/-! ## The tool -/

/-- The loop over `parts.entries()`. -/
def openParts : List JsString → Handle → Script Handle
  | [], parent => pure parent
  | part :: rest, parent => do
    throwIfAborted w
    let handle ← openPart w parent part rest.isEmpty
    modify (fun s => { s with opened := s.opened ++ [handle] })
    openParts rest handle

/-- The loop that fills a buffer of `size` octets. Each round but the last reads at least one, so
    `size` rounds are enough. -/
def readAll (handle : Handle) (size : Nat) : Nat → Bytes → Script Bytes
  | 0, buffer => pure buffer
  | rounds + 1, buffer =>
    if buffer.length < size then do
      throwIfAborted w
      let bytes ← read w handle buffer.length (size - buffer.length)
      if bytes.length = 0 then pure buffer else readAll handle size rounds (buffer ++ bytes)
    else pure buffer

/-- What follows the loop over the components. -/
def readDocument (maxBytes : Nat) (document : Handle) : Script JsString := do
  let (kind, size) ← stat w document
  if kind ≠ .regular then throw (.runtimeFailure .denied)
  else if maxBytes < size then throw (.runtimeFailure .output_too_large)
  else do
    let buffer ← readAll w document (maxBytes + 1) (maxBytes + 1) []
    if maxBytes < buffer.length then throw (.runtimeFailure .output_too_large)
    else
      match JsString.decodeFatal buffer with
      | some text => pure text
      | none => throw (.other "decode")

/-- The `catch` block. -/
def rethrow (error : Thrown) : Script JsString := do
  let s ← get
  match error with
  | .runtimeFailure code => throw (.runtimeFailure code)
  | .other _ =>
    if (w.aborted s.time).isSome then throw (.runtimeFailure .cancelled)
    else throw (.runtimeFailure .not_found)

/-- The calls of `close`, all of them started, and whether all were fulfilled. -/
def closeEach : List Handle → Script Bool
  | [] => pure true
  | handle :: rest => do
    let first ← close w handle
    let others ← closeEach rest
    pure (first && others)

/-- The `finally` block. -/
def closeAll : Script Unit := do
  let s ← get
  let ok ← closeEach w s.opened
  if ok then pure () else throw (.other "close")

/-- Of the checks on the path, the one on each component. -/
def isHidden (part : JsString) : Bool := part.isEmpty || part.head? == some dot

def isDenied (path : JsString) : Bool :=
  path.head? == some slash || path.contains 0x5C || path.contains 0 ||
    (path.split slash).any isHidden

/-- `invoke({ path }, { signal })`: the text of its result. -/
def invoke (root : Inode) (maxBytes : Nat) (path : JsString) : Script JsString :=
  if isDenied path then throw (.runtimeFailure .denied)
  else do
    try
      let document ← openParts w (path.split slash) { id := 0, node := root }
      readDocument w maxBytes document
    catch error =>
      rethrow w error
    finally
      closeAll w

end Documents

end SecureMcp
