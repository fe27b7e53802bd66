import SecureMcp.Collector.Network

set_option autoImplicit false

/-! # One collector after another (`examples/audit-collector.mjs`)

The journal outlives the collector. Here a collector starts on what it finds, works as a step of
`CollectorNetwork` at a time, and its process ends at any moment; the sinks stay, and what a socket was
sent may still be read after the process is gone. When power is lost, the journal keeps what was synced;
what comes after that is up to the disk. -/

namespace SecureMcp

/-! ## The start -/

/-- `values`, as `parseArgs` has them. -/
structure CollectorOptions where
  socket : Option JsString
  journal : Option JsString
  /-- `Number(values['max-bytes'])`, where that is an integer. -/
  maxBytes : Option Int
deriving DecidableEq

/-- What `journal.stat()` says, apart from the size. -/
structure JournalStat where
  isFile : Bool
  nlink : Nat
  uid : Nat
  mode : Nat
deriving DecidableEq

/-- `text?.startsWith('/')`. -/
def startsWithSlash (text : Option JsString) : Bool := text.any (fun path => path.head? = some 0x2F)

/-- `maxBytes`, where the options are accepted. -/
def CollectorOptions.limit (options : CollectorOptions) : Option Nat :=
  match options.maxBytes with
  | none => none
  | some maxBytes =>
    if !startsWithSlash options.socket || !startsWithSlash options.journal ||
        9007199254740991 < maxBytes || maxBytes < 1024 then none
    else some maxBytes.toNat

/-- The journal is private. -/
def JournalStat.accepted (stat : JournalStat) (uid : Nat) : Bool :=
  !(!stat.isFile || stat.nlink != 1 || stat.uid != uid || stat.mode &&& 0o077 != 0)

theorem CollectorOptions.least_of_limit {options : CollectorOptions} {maxBytes : Nat}
    (h : options.limit = some maxBytes) : 1024 ≤ maxBytes := by
  unfold limit at h
  split at h
  · exact absurd h (by simp)
  · split at h
    · exact absurd h (by simp)
    · next found _ hall =>
        simp only [Bool.or_eq_true, decide_eq_true_eq, not_or, Int.not_lt] at hall
        rw [← Option.some.inj h]
        omega

/-- The checks before the collector listens; `none` where one of them throws. -/
def startup (options : CollectorOptions) (uid : Nat) (stat : JournalStat) (journal : Bytes) :
    Option JournalSetup :=
  match hlimit : options.limit with
  | none => none
  | some maxBytes =>
    if !stat.accepted uid then none
    else if hfits : maxBytes < journal.length then none
    else if hwhole : journal = [] ∨ journal.getLast? = some Lines.newline then
      some { maxBytes, journal, least := CollectorOptions.least_of_limit hlimit,
             fits := Nat.le_of_not_lt hfits, whole := hwhole }
    else none

theorem startup_journal {options : CollectorOptions} {uid : Nat} {stat : JournalStat} {journal : Bytes}
    {setup : JournalSetup} (h : startup options uid stat journal = some setup) :
    setup.journal = journal := by
  unfold startup at h
  split at h
  · exact absurd h (by simp)
  · split at h
    · exact absurd h (by simp)
    · split at h
      · exact absurd h (by simp)
      · split at h
        · rw [← Option.some.inj h]
        · exact absurd h (by simp)

/-! ## The host -/

/-- A collector, with the connection behind each of its sockets. -/
structure Lifetime where
  setup : JournalSetup
  collector : Collector
  links : List Nat := []

/-- The network of one lifetime. -/
def Lifetime.network (life : Lifetime) (sinks : Sinks) : CollectorNetwork :=
  { sinks, collector := life.collector, links := life.links }

/-- The same lifetime, after a step of its network. -/
def Lifetime.after (life : Lifetime) (t : CollectorNetwork) : Lifetime :=
  { life with collector := t.collector, links := t.links }

/-- The journal of all collectors, and the sinks. -/
structure CollectorHost where
  sinks : Sinks := {}
  /-- The latest one first. -/
  lifetimes : List Lifetime := []
  /-- The latest collector is there. -/
  running : Bool := false
  /-- The octets of the journal. -/
  journal : Bytes := []
  /-- How many of them are on disk for certain. -/
  synced : Nat := 0
  /-- Bookkeeping only: every loss of power has left a part of what had been appended. -/
  clean : Bool := true

namespace CollectorHost

/-- The latest collector and its sockets have made a step. -/
def put (s : CollectorHost) (life : Lifetime) (earlier : List Lifetime) (t : CollectorNetwork) :
    CollectorHost :=
  { s with
    lifetimes := life.after t :: earlier
    journal := t.collector.journal
    synced := t.collector.synced }

/-- A step of the latest collector. -/
def work (s : CollectorHost) (label : CollectorNetwork.Label) : Option CollectorHost :=
  match s.lifetimes with
  | [] => none
  | life :: earlier =>
    if s.running then ((life.network s.sinks).step life.setup label).map (s.put life earlier) else none

/-- A connection is accepted once. -/
def accept (s : CollectorHost) (x : Nat) : Option CollectorHost :=
  if s.lifetimes.any (fun life => life.links.contains x) then none else s.work (.accept x)

/-- A client reads what the collector of lifetime `i` has written to it. -/
def answer (s : CollectorHost) (i y count room : Nat) : Option CollectorHost :=
  match s.lifetimes[i]? with
  | none => none
  | some life => ((life.network s.sinks).answer y count room).map (fun t => { s with sinks := t.sinks })

/-- A collector starts; `ready`: every call up to its `ready` line is fulfilled, `journal.sync()` among
    them. -/
def start (s : CollectorHost) (options : CollectorOptions) (uid : Nat) (stat : JournalStat)
    (ready : Bool) : Option CollectorHost :=
  if s.running || !ready then none
  else
    (startup options uid stat s.journal).map (fun setup =>
      { s with
        lifetimes := { setup, collector := .start setup } :: s.lifetimes
        running := true
        synced := s.journal.length })

/-- Power is lost while no collector runs; `tail` is what is then there after the synced octets. -/
def power (s : CollectorHost) (tail : Bytes) : Option CollectorHost :=
  if s.running || s.journal.length < s.synced + tail.length then none
  else
    some { s with
      journal := s.journal.take s.synced ++ tail
      clean := s.clean && tail.isPrefixOf (s.journal.drop s.synced) }

/-- The partial record at the end is cut off, for which the collector asks before it starts again. -/
def repair (s : CollectorHost) : Option CollectorHost :=
  if s.running then none else some { s with journal := (Lines.cut s.journal).1.flatten }

inductive Label
  | start (options : CollectorOptions) (uid : Nat) (stat : JournalStat) (ready : Bool)
  | accept (x : Nat)
  | deliver (y count : Nat)
  /-- A step of the latest collector, other than accepting and reading. -/
  | collector (label : Collector.Label)
  | answer (i y count room : Nat)
  /-- A step of a sink, other than reading. -/
  | sink (label : Sinks.Label)
  /-- The process of the collector ends. -/
  | exit
  | power (tail : Bytes)
  | repair

def step (s : CollectorHost) : Label → Option CollectorHost
  | .start options uid stat ready => s.start options uid stat ready
  | .accept x => s.accept x
  | .deliver y count => s.work (.deliver y count)
  | .collector label => s.work (.collector label)
  | .answer i y count room => s.answer i y count room
  | .sink label =>
    if CollectorNetwork.isRead label then none
    else (s.sinks.step label).map (fun sinks => { s with sinks })
  | .exit => if s.running then some { s with running := false } else none
  | .power tail => s.power tail
  | .repair => s.repair

def machine : Machine CollectorHost Label := { init := {}, step }

/-! ## What a step does -/

/-- What a step does, and when it can happen. -/
inductive Effect (s : CollectorHost) : CollectorHost → Prop
  | started (setup : JournalSetup) (hrunning : s.running = false) (hjournal : setup.journal = s.journal) :
      Effect s
        { s with
          lifetimes := { setup, collector := .start setup } :: s.lifetimes
          running := true
          synced := s.journal.length }
  | worked (life : Lifetime) (earlier : List Lifetime) (label : CollectorNetwork.Label)
      (t : CollectorNetwork) (hrunning : s.running = true) (hlives : s.lifetimes = life :: earlier)
      (hfresh : ∀ x ∈ t.links, x ∉ life.links → ∀ old ∈ s.lifetimes, x ∉ old.links)
      (hstep : (life.network s.sinks).step life.setup label = some t) : Effect s (s.put life earlier t)
  | answered (life : Lifetime) (y x count room : Nat) (socket : CollectorSocket) (conn : Connection)
      (sinks : Sinks) (hlife : life ∈ s.lifetimes) (hlink : life.links[y]? = some x)
      (hsocket : life.collector.sockets[y]? = some socket) (hconn : s.sinks.connections[x]? = some conn)
      (hdata : s.sinks.data x ((socket.written.drop conn.received.length).take count) room =
        some sinks) : Effect s { s with sinks }
  | sink (label : Sinks.Label) (sinks : Sinks) (hread : CollectorNetwork.isRead label = false)
      (hstep : s.sinks.step label = some sinks) : Effect s { s with sinks }
  | exited (hrunning : s.running = true) : Effect s { s with running := false }
  | lost (tail : Bytes) (hrunning : s.running = false)
      (hlength : s.synced + tail.length ≤ s.journal.length) :
      Effect s
        { s with
          journal := s.journal.take s.synced ++ tail
          clean := s.clean && tail.isPrefixOf (s.journal.drop s.synced) }
  | repaired (hrunning : s.running = false) :
      Effect s { s with journal := (Lines.cut s.journal).1.flatten }

variable {s s' : CollectorHost}

theorem work_effect {label : CollectorNetwork.Label} (h : s.work label = some s')
    (hlinks : ∀ setup t t', CollectorNetwork.step setup t label = some t' →
      ∀ x ∈ t'.links, x ∉ t.links → ∀ old ∈ s.lifetimes, x ∉ old.links) : Effect s s' := by
  unfold work at h
  split at h
  · exact absurd h (by simp)
  · next life earlier hlives =>
      split at h
      · next hrunning =>
          obtain ⟨t, hstep, rfl⟩ := Option.map_eq_some_iff.mp h
          exact .worked life earlier label t hrunning hlives (hlinks _ _ _ hstep) hstep
      · exact absurd h (by simp)

theorem step_effect {l : Label} (h : s.step l = some s') : Effect s s' := by
  cases l with
  | start options uid stat ready =>
      replace h : s.start options uid stat ready = some s' := h
      unfold start at h
      split at h
      · exact absurd h (by simp)
      · next hidle =>
          obtain ⟨setup, hsetup, rfl⟩ := Option.map_eq_some_iff.mp h
          simp only [Bool.or_eq_true, not_or, Bool.not_eq_true] at hidle
          exact .started setup hidle.1 (startup_journal hsetup)
  | accept x =>
      replace h : s.accept x = some s' := h
      unfold accept at h
      split at h
      · exact absurd h (by simp)
      · next hnew =>
          refine work_effect h (fun setup t t' hstep => ?_)
          replace hstep : t.accept x = some t' := hstep
          unfold CollectorNetwork.accept at hstep
          split at hstep
          · obtain ⟨collector, _, rfl⟩ := Option.map_eq_some_iff.mp hstep
            intro x' hx' hold old hmem hin
            rcases List.mem_append.mp hx' with hx' | hx'
            · exact hold hx'
            · obtain rfl := List.mem_singleton.mp hx'
              exact hnew (List.any_eq_true.mpr ⟨old, hmem, List.contains_iff_mem.mpr hin⟩)
          · exact absurd hstep (by simp)
  | deliver y count =>
      refine work_effect h (fun setup t t' hstep => ?_)
      replace hstep : t.deliver y count = some t' := hstep
      unfold CollectorNetwork.deliver at hstep
      split at hstep
      · split at hstep
        · exact absurd hstep (by simp)
        · split at hstep
          · exact absurd hstep (by simp)
          · obtain ⟨collector, _, rfl⟩ := Option.map_eq_some_iff.mp hstep
            exact fun x hx hold => absurd hx hold
      · exact absurd hstep (by simp)
  | collector label =>
      refine work_effect h (fun setup t t' hstep => ?_)
      simp only [CollectorNetwork.step] at hstep
      split at hstep
      · obtain ⟨collector, _, rfl⟩ := Option.map_eq_some_iff.mp hstep
        exact fun x hx hold => absurd hx hold
      · exact absurd hstep (by simp)
  | answer i y count room =>
      replace h : s.answer i y count room = some s' := h
      unfold answer at h
      split at h
      · exact absurd h (by simp)
      · next life hlife =>
          obtain ⟨t, hanswer, rfl⟩ := Option.map_eq_some_iff.mp h
          unfold CollectorNetwork.answer at hanswer
          split at hanswer
          · next x socket hlink hsocket =>
              split at hanswer
              · exact absurd hanswer (by simp)
              · next conn hconn =>
                  split at hanswer
                  · exact absurd hanswer (by simp)
                  · obtain ⟨sinks, hdata, rfl⟩ := Option.map_eq_some_iff.mp hanswer
                    exact .answered life y x count room socket conn sinks (List.mem_of_getElem? hlife)
                      hlink hsocket hconn hdata
          · exact absurd hanswer (by simp)
  | sink label =>
      simp only [step] at h
      split at h
      · exact absurd h (by simp)
      · next hread =>
          obtain ⟨sinks, hstep, rfl⟩ := Option.map_eq_some_iff.mp h
          exact .sink label sinks (Bool.eq_false_iff.mpr hread) hstep
  | exit =>
      simp only [step] at h
      split at h
      · next hrunning =>
          obtain rfl := Option.some.inj h
          exact .exited hrunning
      · exact absurd h (by simp)
  | power tail =>
      replace h : s.power tail = some s' := h
      unfold power at h
      split at h
      · exact absurd h (by simp)
      · next hidle =>
          obtain rfl := Option.some.inj h
          simp only [Bool.or_eq_true, decide_eq_true_eq, not_or, Bool.not_eq_true, Nat.not_lt] at hidle
          exact .lost tail hidle.1 hidle.2
  | repair =>
      replace h : s.repair = some s' := h
      unfold repair at h
      split at h
      · exact absurd h (by simp)
      · next hidle =>
          obtain rfl := Option.some.inj h
          exact .repaired (Bool.eq_false_iff.mpr hidle)

end CollectorHost

end SecureMcp
