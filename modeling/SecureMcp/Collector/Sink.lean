import SecureMcp.Lib.JsonLine
import SecureMcp.Lib.Machine
import SecureMcp.Lib.Table

set_option autoImplicit false

/-! # `socketAuditSink` (`src/collector.ts`)

Any number of sinks, the connections they open one after another, and the events of their sockets.
Each label is one event with all that its handler does. Nothing is assumed about the other end of a
connection: what a socket reads, and when, is decided by the labels, and a socket that the client has
given up may still report events. `socket.destroy()` and `unref()` have no effect of their own
here. -/

namespace SecureMcp

/-- What became of the promise that a sink returned. -/
inductive Settlement
  | pending
  | fulfilled
  | rejected
deriving DecidableEq, Repr

/-- One call of a sink. -/
structure SinkRecord where
  client : Nat
  line : Bytes
  promise : Settlement
deriving DecidableEq

/-- An element of `pending`: the record whose promise it settles, and the line. -/
structure SinkItem where
  record : Nat
  line : Bytes
deriving DecidableEq

/-- The variables of one `socketAuditSink`. -/
structure SocketAuditSink where
  pending : List SinkItem := []
  /-- `socket`, as the number of its connection. -/
  socket : Option Nat := none
  connected : Bool := false
  writable : Bool := false
  sent : Nat := 0
  failed : Bool := false
  closed : Bool := false
deriving DecidableEq

structure Connection where
  client : Nat
  /-- What the client wrote, one item for each write. -/
  sent : List SinkItem := []
  /-- What the client has read. -/
  received : Bytes := []
deriving DecidableEq

/-- The octets that the client wrote. -/
def Connection.stream (conn : Connection) : Bytes := conn.sent.flatMap SinkItem.line

structure Sinks where
  records : List SinkRecord := []
  clients : List SocketAuditSink := []
  connections : List Connection := []
deriving DecidableEq

namespace Sinks

/-! ## Promises and writes -/

def put (s : Sinks) (c : Nat) (client : SocketAuditSink) : Sinks :=
  { s with clients := s.clients.set c client }

/-- Settle the promises of these items; a promise settles once. -/
def settle (s : Sinks) (items : List SinkItem) (promise : Settlement) : Sinks :=
  { s with
    records := s.records.mapIdx (fun r record =>
      if record.promise = .pending && items.any (fun item => item.record == r) then
        { record with promise }
      else record) }

def fail (s : Sinks) (c : Nat) (client : SocketAuditSink) : Sinks :=
  (s.settle client.pending .rejected).put c { client with pending := [], sent := 0, failed := true }

/-- The condition of the loop of `flush`: the connection and the item to write. -/
def toWrite (client : SocketAuditSink) : Option (Nat × SinkItem) :=
  match client.socket with
  | none => none
  | some x =>
    if client.connected && client.writable then
      (client.pending[client.sent]?).map (fun item => (x, item))
    else none

/-- `writable = socket.write(item.line)`. -/
def write (s : Sinks) (c : Nat) (client : SocketAuditSink) (x : Nat) (item : SinkItem)
    (returned : Bool) : Sinks :=
  match s.connections[x]? with
  | none => s
  | some conn =>
    { s with
      clients := s.clients.set c { client with sent := client.sent + 1, writable := returned }
      connections := s.connections.set x { conn with sent := conn.sent ++ [item] } }

/-- `flush`, in which `room` calls of `socket.write` return `true` and the next one `false`. -/
def flush (c : Nat) : Nat → Sinks → Sinks
  | room, s =>
    match s.clients[c]? with
    | none => s
    | some client =>
      match toWrite client with
      | none => s
      | some (x, item) =>
        match room with
        | 0 => s.write c client x item false
        | room + 1 => flush c room (s.write c client x item true)

/-! ## Calls -/

/-- The sink refuses the record at once. -/
def refuses (client : SocketAuditSink) (line : Bytes) : Bool :=
  client.failed || client.closed || client.pending.length ≥ 1024 || line.length > 4096

/-- `pending.push`. -/
def enqueue (s : Sinks) (c : Nat) (client : SocketAuditSink) (line : Bytes) : Sinks :=
  { s with
    records := s.records ++ [{ client := c, line, promise := .pending }]
    clients := s.clients.set c
      { client with pending := client.pending ++ [⟨s.records.length, line⟩] } }

/-- `open`. -/
def openSocket (s : Sinks) (c : Nat) (client : SocketAuditSink) : Sinks :=
  { s with
    clients := s.clients.set c { client with socket := some s.connections.length }
    connections := s.connections ++ [{ client := c }] }

/-- `pending.push`, and `open` where there is no socket. -/
def call (s : Sinks) (c : Nat) (client : SocketAuditSink) (line : Bytes) : Sinks :=
  if client.socket.isNone then
    (s.enqueue c client line).openSocket c
      { client with pending := client.pending ++ [⟨s.records.length, line⟩] }
  else s.enqueue c client line

/-- A call of the sink with this event. -/
def send (s : Sinks) (c : Nat) (event : Json) (room : Nat) : Option Sinks :=
  match s.clients[c]? with
  | none => none
  | some client =>
    if refuses client event.line then
      some { s with records := s.records ++ [{ client := c, line := event.line, promise := .rejected }] }
    else some (flush c room (s.call c client event.line))

/-- `sink.close`. -/
def close (s : Sinks) (c : Nat) : Option Sinks :=
  match s.clients[c]? with
  | none => none
  | some client =>
    if client.pending.isEmpty then some (s.put c { client with closed := true })
    else some (s.fail c { client with closed := true })

/-- The timer of one of the pending items. -/
def expire (s : Sinks) (c : Nat) : Option Sinks :=
  match s.clients[c]? with
  | none => none
  | some client => if client.pending.isEmpty then none else some (s.fail c client)

/-! ## Events of a socket -/

/-- An event of a socket, which its handlers ignore unless `socket === current`. -/
def onSocket (s : Sinks) (x : Nat) (handler : Nat → SocketAuditSink → Sinks) : Option Sinks :=
  match s.connections[x]? with
  | none => none
  | some conn =>
    match s.clients[conn.client]? with
    | none => none
    | some client => some (if client.socket = some x then handler conn.client client else s)

/-- The `connect` event. -/
def connect (s : Sinks) (x room : Nat) : Option Sinks :=
  s.onSocket x (fun c client =>
    flush c room (s.put c { client with connected := true, writable := true }))

/-- The `drain` event. -/
def drain (s : Sinks) (x room : Nat) : Option Sinks :=
  s.onSocket x (fun c client => flush c room (s.put c { client with writable := true }))

/-- The first `count` items of `pending` are acknowledged. -/
def acknowledge (s : Sinks) (c : Nat) (client : SocketAuditSink) (count : Nat) : Sinks :=
  (s.settle (client.pending.take count) .fulfilled).put c
    { client with pending := client.pending.drop count, sent := client.sent - count }

/-- More octets than records on the wire, or another octet than ACK. -/
def invalid (client : SocketAuditSink) (octets : Bytes) : Bool :=
  octets.length > client.sent || octets.any (fun value => value != 6)

/-- What the socket has read, before its handlers run. -/
def read (s : Sinks) (x : Nat) (octets : Bytes) : Sinks :=
  match s.connections[x]? with
  | none => s
  | some conn =>
    { s with
      connections := s.connections.set x { conn with received := conn.received ++ octets } }

/-- The `data` event. -/
def data (s : Sinks) (x : Nat) (octets : Bytes) (room : Nat) : Option Sinks :=
  (s.read x octets).onSocket x (fun c client =>
    if invalid client octets then (s.read x octets).fail c client
    else flush c room ((s.read x octets).acknowledge c client octets.length))

/-- The `error` event. -/
def error (s : Sinks) (x : Nat) : Option Sinks :=
  s.onSocket x (fun c client => if client.pending.isEmpty then s else s.fail c client)

/-- `disconnected`, the handler of `end` and of `close`. -/
def disconnected (s : Sinks) (x : Nat) : Option Sinks :=
  s.onSocket x (fun c client =>
    if client.pending.isEmpty then
      s.put c { client with socket := none, connected := false, writable := false }
    else
      (s.settle client.pending .rejected).put c
        { client with pending := [], sent := 0, failed := true, socket := none, connected := false,
                      writable := false })

/-! ## The machine -/

inductive Label
  | socketAuditSink
  | send (c : Nat) (event : Json) (room : Nat)
  | close (c : Nat)
  | expire (c : Nat)
  | connect (x room : Nat)
  | drain (x room : Nat)
  | data (x : Nat) (octets : Bytes) (room : Nat)
  | error (x : Nat)
  | disconnected (x : Nat)

def step (s : Sinks) : Label → Option Sinks
  | .socketAuditSink => some { s with clients := s.clients ++ [{}] }
  | .send c event room => s.send c event room
  | .close c => s.close c
  | .expire c => s.expire c
  | .connect x room => s.connect x room
  | .drain x room => s.drain x room
  | .data x octets room => s.data x octets room
  | .error x => s.error x
  | .disconnected x => s.disconnected x

def machine : Machine Sinks Label := { init := {}, step }

end Sinks

end SecureMcp
