import SecureMcp.Collector.Collector
import SecureMcp.Collector.Sink

set_option autoImplicit false

/-! # Sinks and the collector together

A connection is two streams of octets. What was written to one end is read at the other in order, in
chunks cut anywhere, and reading may stop for good at any moment. Everything else is a step of a sink
or of the collector. -/

namespace SecureMcp

structure CollectorNetwork where
  sinks : Sinks := {}
  collector : Collector
  /-- The connection behind each socket of the collector. -/
  links : List Nat := []
deriving DecidableEq

namespace CollectorNetwork

/-- The collector accepts a connection. -/
def accept (s : CollectorNetwork) (x : Nat) : Option CollectorNetwork :=
  if x < s.sinks.connections.length ∧ x ∉ s.links then
    s.collector.accept.map (fun collector => { s with collector, links := s.links ++ [x] })
  else none

/-- A socket of the collector reads the next `count` octets of what the client wrote. -/
def deliver (s : CollectorNetwork) (y count : Nat) : Option CollectorNetwork :=
  match s.links[y]?, s.collector.sockets[y]? with
  | some x, some socket =>
    match s.sinks.connections[x]? with
    | none => none
    | some conn =>
      if conn.stream.length < socket.received.length + count then none
      else
        (s.collector.data y ((conn.stream.drop socket.received.length).take count)).map
          (fun collector => { s with collector })
  | _, _ => none

/-- A client reads the next `count` octets of what the collector wrote. -/
def answer (s : CollectorNetwork) (y count room : Nat) : Option CollectorNetwork :=
  match s.links[y]?, s.collector.sockets[y]? with
  | some x, some socket =>
    match s.sinks.connections[x]? with
    | none => none
    | some conn =>
      if socket.written.length < conn.received.length + count then none
      else
        (s.sinks.data x ((socket.written.drop conn.received.length).take count) room).map
          (fun sinks => { s with sinks })
  | _, _ => none

inductive Label
  | accept (x : Nat)
  | deliver (y count : Nat)
  | answer (y count room : Nat)
  /-- A step of a sink, other than reading. -/
  | sink (label : Sinks.Label)
  /-- A step of the collector, other than accepting and reading. -/
  | collector (label : Collector.Label)

def isRead : Sinks.Label → Bool
  | .data _ _ _ => true
  | _ => false

def isOwn : Collector.Label → Bool
  | .accept | .data _ _ => false
  | _ => true

def step (setup : JournalSetup) (s : CollectorNetwork) : Label → Option CollectorNetwork
  | .accept x => s.accept x
  | .deliver y count => s.deliver y count
  | .answer y count room => s.answer y count room
  | .sink label =>
    if isRead label then none else (s.sinks.step label).map (fun sinks => { s with sinks })
  | .collector label =>
    if isOwn label then
      (s.collector.step setup label).map (fun collector => { s with collector })
    else none

def machine (setup : JournalSetup) : Machine CollectorNetwork Label :=
  { init := { collector := .start setup }, step := step setup }

end CollectorNetwork

end SecureMcp
