import SecureMcp.Errors
import SecureMcp.Lib.Text

set_option autoImplicit false

/-! # The file system around the document tool

A file system is a graph of inodes. The type of an inode never changes; everything else (directory
entries, link targets, contents) may be different at each system call, so the surroundings of a call
are a sequence of file systems, one for each system call, together with what else the call meets:
failures that have other reasons, the lengths of short reads, and the moment of an abort.

`open` follows path resolution on Linux: a path is walked from a directory component by component,
links on the way are followed, a link at the end is followed unless `O_NOFOLLOW` is set, and
`O_DIRECTORY` wants a directory at the end. -/

namespace SecureMcp

abbrev Inode : Type := Nat

inductive Kind
  | directory
  | regular
  | symlink
  | special
deriving DecidableEq, Repr

/-- The file system at one moment. -/
structure FileSystem where
  root : Inode
  entry : Inode → JsString → Option Inode
  /-- The directory above. -/
  parent : Inode → Inode
  target : Inode → JsString
  content : Inode → Bytes

def slash : UInt16 := 0x2F

def dot : UInt16 := 0x2E

namespace FileSystem

/-- Walk a path from a directory; it fails after too many steps, as a loop of links does. -/
def lookup (kind : Inode → Kind) (fs : FileSystem) (noFollow : Bool) :
    Nat → Inode → List JsString → Option Inode
  | _, node, [] => some node
  | 0, _, _ :: _ => none
  | steps + 1, node, part :: rest =>
    if kind node ≠ .directory then none
    else if part = [] || part = [dot] then lookup kind fs noFollow steps node rest
    else if part = [dot, dot] then lookup kind fs noFollow steps (fs.parent node) rest
    else
      match fs.entry node part with
      | none => none
      | some next =>
        if kind next = .symlink then
          if rest.isEmpty && noFollow then none
          else
            lookup kind fs noFollow steps
              (if (fs.target next).head? = some slash then fs.root else node)
              ((fs.target next).split slash ++ rest)
        else lookup kind fs noFollow steps next rest

/-- `O_NOFOLLOW` and `O_DIRECTORY`. -/
structure OpenFlags where
  noFollow : Bool
  directory : Bool
deriving DecidableEq, Repr

/-- `open` of a path below a directory that is open. -/
def openPath (kind : Inode → Kind) (fs : FileSystem) (flags : OpenFlags) (node : Inode)
    (path : JsString) : Option Inode := do
  let found ← fs.lookup kind flags.noFollow 65536 node (path.split slash)
  if flags.directory && kind found ≠ .directory then none else some found

end FileSystem

/-- What one system call meets. -/
structure Moment where
  fs : FileSystem
  /-- It fails for a reason of its own. -/
  fault : Bool := false
  /-- The most that a read returns at once. -/
  atMost : Nat := 65536

def Moment.openPath (moment : Moment) (kind : Inode → Kind) (flags : FileSystem.OpenFlags)
    (node : Inode) (path : JsString) : Option Inode :=
  if moment.fault then none else moment.fs.openPath kind flags node path

/-- What one call of the tool meets, from one system call to the next. -/
structure World where
  kind : Inode → Kind
  moment : Nat → Moment
  /-- When the signal is aborted, and with what reason. -/
  abort : Option (Nat × Thrown) := none

/-- The reason of the signal once so many system calls are over. -/
def World.aborted (w : World) (time : Nat) : Option Thrown :=
  match w.abort with
  | some (since, reason) => if since ≤ time then some reason else none
  | none => none

/-! ## One plain component -/

/-- A component that names an entry of its directory and nothing else. -/
structure Plain (part : JsString) : Prop where
  nonempty : part ≠ []
  visible : part.head? ≠ some dot
  single : slash ∉ part

theorem Plain.ne_dots {part : JsString} (h : Plain part) : part ≠ [dot] ∧ part ≠ [dot, dot] := by
  refine ⟨fun hdot => h.visible ?_, fun hdots => h.visible ?_⟩
  · rw [hdot]
    rfl
  · rw [hdots]
    rfl

/-- With `O_NOFOLLOW`, opening a plain component is taking an entry that is not a link. -/
theorem Moment.openPath_plain {kind : Inode → Kind} {moment : Moment} {directory : Bool}
    {node found : Inode} {part : JsString} (hplain : Plain part)
    (h : moment.openPath kind { noFollow := true, directory } node part = some found) :
    kind node = .directory ∧ moment.fs.entry node part = some found ∧ kind found ≠ .symlink := by
  have hfault : moment.fault = false := by
    by_contra hfault
    simp [Moment.openPath, hfault] at h
  rw [Moment.openPath, hfault, if_neg (by simp)] at h
  obtain ⟨last, hlookup, h⟩ := Option.bind_eq_some_iff.mp h
  have hfound : last = found := by
    split at h
    · exact absurd h (by simp)
    · exact Option.some.inj h
  subst hfound
  rw [JsString.split_of_not_mem hplain.single] at hlookup
  simp only [FileSystem.lookup, hplain.nonempty, hplain.ne_dots.1, hplain.ne_dots.2] at hlookup
  by_cases hdirectory : kind node = .directory
  · cases hentry : moment.fs.entry node part with
    | none => simp [hdirectory, hentry] at hlookup
    | some next =>
        by_cases hlink : kind next = .symlink
        · simp [hdirectory, hentry, hlink] at hlookup
        · have hnext : next = last := by simpa [hdirectory, hentry, hlink] using hlookup
          subst hnext
          exact ⟨hdirectory, rfl, hlink⟩
  · simp [hdirectory] at hlookup

end SecureMcp
