import SecureMcp.Lib.JsonParser
import SecureMcp.Lib.Lines
import SecureMcp.Lib.Machine
import SecureMcp.Lib.Utf8

set_option autoImplicit false

/-! # The reference collector (`examples/audit-collector.mjs`)

One run of the collector with its journal, from the moment it listens. Each label is one event with
all that its handler does and the promise jobs that follow it. What the sockets read, when they are
closed and what becomes of every append and sync is decided by the labels.

`flush` may start any number of loops as far as the state is concerned; that there is never more than
one is a theorem. -/

namespace SecureMcp

/-- An element of `queue`; the socket is given by its number in the order of acceptance. -/
structure QueuedFrame where
  data : Bytes
  socket : Nat
deriving DecidableEq

def dataOf (frames : List QueuedFrame) : Bytes := frames.flatMap QueuedFrame.data

/-- Where a loop of `flush` is. -/
inductive FlushLoop
  /-- Awaiting `setImmediate`. -/
  | scheduled
  /-- Awaiting `journal.writeFile(data)`, which has written this many octets so far. -/
  | writing (batch : List QueuedFrame) (written : Nat)
  /-- Awaiting `journal.sync()`. -/
  | syncing (batch : List QueuedFrame)
deriving DecidableEq

structure CollectorSocket where
  destroyed : Bool := false
  remainder : Bytes := []
  /-- What the collector wrote to it. -/
  written : Bytes := []
  /-- Bookkeeping only: what it has read. -/
  received : Bytes := []
deriving DecidableEq

structure Collector where
  /-- The octets of the journal. -/
  journal : Bytes
  /-- How many of them the last completed `journal.sync()` has put on disk. -/
  synced : Nat
  bytes : Nat
  queue : List QueuedFrame := []
  pending : Nat := 0
  healthy : Bool := true
  flushing : Bool := false
  /-- The `async` functions that `flush` has started and that have not returned. -/
  loops : List FlushLoop := []
  stopping : Bool := false
  sockets : List CollectorSocket := []
  /-- Bookkeeping only: every frame that was queued, in order. -/
  accepted : List QueuedFrame := []
  /-- Bookkeeping only: the frames of every batch that was given to `journal.writeFile`. -/
  handed : List QueuedFrame := []
  /-- Bookkeeping only: the frames of every batch that was synced. -/
  durable : List QueuedFrame := []
  /-- Bookkeeping only: `journal.writeFile` has failed. -/
  appendFailed : Bool := false
deriving DecidableEq

/-- The options and the journal that the collector starts with. -/
structure JournalSetup where
  maxBytes : Nat
  journal : Bytes
  /-- A limit below 1024 throws. -/
  least : 1024 ≤ maxBytes
  /-- `bytes > maxBytes` throws. -/
  fits : journal.length ≤ maxBytes
  /-- A journal that ends with a partial record throws. -/
  whole : journal = [] ∨ journal.getLast? = some Lines.newline

/-- The check of a frame: it parses, `event.schema === 1`, and `event.requestId` is a string. -/
def isRecord (frame : Bytes) : Bool :=
  match Json.parse (JsString.ofUtf8 frame) with
  | none => false
  | some event =>
    (event.property (js "schema")).any Json.isOne &&
      (event.property (js "requestId")).any Json.isString

namespace Collector

/-! ## Sockets -/

/-- The listener of `createServer`; `server.maxConnections` is 64. -/
def accept (k : Collector) : Option Collector :=
  if !k.stopping && k.sockets.countP (fun socket => !socket.destroyed) < 64 then
    some { k with sockets := k.sockets ++ [{}] }
  else none

/-- `flush`, up to its first `await`. -/
def flush (k : Collector) : Collector :=
  if k.flushing then k else { k with flushing := true, loops := k.loops ++ [.scheduled] }

/-- `queue.push`, and what follows it. -/
def push (k : Collector) (y : Nat) (frame : Bytes) : Collector :=
  flush { k with
    queue := k.queue ++ [⟨frame, y⟩]
    pending := k.pending + 1
    accepted := k.accepted ++ [⟨frame, y⟩] }

/-- The loop over the frames of a chunk; `false` when it destroys the socket. -/
def offer (y : Nat) : Collector → List Bytes → Collector × Bool
  | k, [] => (k, true)
  | k, frame :: later =>
    if frame.length > 4096 || k.pending ≥ 1024 then (k, false)
    else if !isRecord frame then (k, false)
    else offer y (k.push y frame) later

def setSocket (k : Collector) (y : Nat) (socket : CollectorSocket) : Collector :=
  { k with sockets := k.sockets.set y socket }

/-- The handler of `data`, for a socket with this remainder. -/
def handle (k : Collector) (y : Nat) (socket : CollectorSocket) (chunk : Bytes) : Collector :=
  if !k.healthy || chunk.length > 1024 * 4096 then k.setSocket y { socket with destroyed := true }
  else if !(k.offer y (Lines.cut (socket.remainder ++ chunk)).1).2 ||
      (Lines.cut (socket.remainder ++ chunk)).2.length > 4096 then
    (k.offer y (Lines.cut (socket.remainder ++ chunk)).1).1.setSocket y
      { socket with destroyed := true }
  else
    (k.offer y (Lines.cut (socket.remainder ++ chunk)).1).1.setSocket y
      { socket with remainder := (Lines.cut (socket.remainder ++ chunk)).2 }

/-- The `data` event. A destroyed socket reads nothing more. -/
def data (k : Collector) (y : Nat) (chunk : Bytes) : Option Collector :=
  match k.sockets[y]? with
  | none => none
  | some socket =>
    if socket.destroyed || chunk.isEmpty then none
    else some (k.handle y { socket with received := socket.received ++ chunk } chunk)

/-- The socket is destroyed for another reason: its timeout, an error, the end of its stream. -/
def drop (k : Collector) (y : Nat) : Option Collector :=
  match k.sockets[y]? with
  | none => none
  | some socket =>
    if socket.destroyed then none else some (k.setSocket y { socket with destroyed := true })

/-- `socket.destroy()` for every socket. -/
def destroyAll (k : Collector) : Collector :=
  { k with sockets := k.sockets.map (fun socket => { socket with destroyed := true }) }

/-! ## The loop of `flush` -/

/-- Its `finally` block. -/
def finish (k : Collector) (i : Nat) : Collector :=
  { k with flushing := false, loops := k.loops.eraseIdx i }

/-- Its `catch` block, and then `finally`. -/
def unavailable (k : Collector) (i : Nat) : Collector :=
  finish (destroyAll { k with healthy := false, queue := [], pending := 0 }) i

/-- From the condition of the loop to the next `await`. -/
def next (setup : JournalSetup) (k : Collector) (i : Nat) : Collector :=
  if k.queue.isEmpty then k.finish i
  else if !k.healthy || k.bytes + (dataOf (k.queue.take 64)).length > setup.maxBytes then
    k.unavailable i
  else
    { k with
      queue := k.queue.drop 64
      loops := k.loops.set i (.writing (k.queue.take 64) 0)
      handed := k.handed ++ k.queue.take 64 }

/-- `setImmediate` calls back. -/
def run (setup : JournalSetup) (k : Collector) (i : Nat) : Option Collector :=
  match k.loops[i]? with
  | some .scheduled => some (k.next setup i)
  | _ => none

/-- `journal.writeFile` appends `count` more octets. -/
def append (k : Collector) (i count : Nat) : Option Collector :=
  match k.loops[i]? with
  | some (.writing batch written) =>
    if (dataOf batch).length < written + count then none
    else
      some { k with
        journal := k.journal ++ ((dataOf batch).drop written).take count
        loops := k.loops.set i (.writing batch (written + count)) }
  | _ => none

/-- `journal.writeFile` settles. -/
def appended (k : Collector) (i : Nat) (ok : Bool) : Option Collector :=
  match k.loops[i]? with
  | some (.writing batch written) =>
    if ok then
      if written = (dataOf batch).length then
        some { k with loops := k.loops.set i (.syncing batch) }
      else none
    else some (unavailable { k with appendFailed := true } i)
  | _ => none

/-- One octet for each of the batch's frames from this socket, unless it is destroyed or `full`:
    `socket.writableLength + count > 4096`. -/
def answer (batch : List QueuedFrame) (full : List Nat) (y : Nat) (socket : CollectorSocket) :
    CollectorSocket :=
  if batch.all (fun entry => entry.socket != y) || socket.destroyed then socket
  else if full.contains y then { socket with destroyed := true }
  else
    { socket with
      written := socket.written ++
        List.replicate (batch.countP (fun entry => entry.socket == y)) 6 }

/-- What follows `await journal.sync()`. -/
def settled (k : Collector) (batch : List QueuedFrame) (full : List Nat) : Collector :=
  { k with
    synced := k.journal.length
    bytes := k.bytes + (dataOf batch).length
    sockets := k.sockets.mapIdx (answer batch full)
    pending := k.pending - batch.length
    durable := k.durable ++ batch }

/-- `journal.sync()` settles. -/
def synchronized (setup : JournalSetup) (k : Collector) (i : Nat) (ok : Bool) (full : List Nat) :
    Option Collector :=
  match k.loops[i]? with
  | some (.syncing batch) =>
    if ok then some (next setup (k.settled batch full) i) else some (k.unavailable i)
  | _ => none

/-- `stop`, the handler of the signals. -/
def stop (k : Collector) : Collector := destroyAll { k with stopping := true }

/-! ## The machine -/

inductive Label
  | accept
  | data (y : Nat) (chunk : Bytes)
  | drop (y : Nat)
  | run (i : Nat)
  | append (i count : Nat)
  | appended (i : Nat) (ok : Bool)
  | synchronized (i : Nat) (ok : Bool) (full : List Nat)
  | stop

def step (setup : JournalSetup) (k : Collector) : Label → Option Collector
  | .accept => k.accept
  | .data y chunk => k.data y chunk
  | .drop y => k.drop y
  | .run i => k.run setup i
  | .append i count => k.append i count
  | .appended i ok => k.appended i ok
  | .synchronized i ok full => k.synchronized setup i ok full
  | .stop => some k.stop

def start (setup : JournalSetup) : Collector :=
  { journal := setup.journal, synced := setup.journal.length, bytes := setup.journal.length }

def machine (setup : JournalSetup) : Machine Collector Label :=
  { init := start setup, step := step setup }

end Collector

end SecureMcp
