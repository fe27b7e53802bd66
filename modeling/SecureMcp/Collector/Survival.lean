import Mathlib.Data.List.Pairwise
import SecureMcp.Collector.Lifetimes

set_option autoImplicit false

/-! # Acknowledged means durable, for good

Collectors end, are killed, lose power and start again, and sinks reconnect. The octets that are on
disk for certain only grow (`Stored`), and a connection belongs to one collector (`Wiring`); so a line
that was acknowledged once keeps its place whatever happens later. -/

namespace SecureMcp

/-- What this collector has synced. -/
def Lifetime.onDisk (life : Lifetime) : Bytes := life.collector.journal.take life.collector.synced

/-- The lines that it has found in the journal. -/
def Lifetime.base (life : Lifetime) : Nat := (Lines.cut life.setup.journal).1.length

namespace CollectorHost

variable {s s' s'' : CollectorHost}

/-- The octets of the journal that are on disk for certain. -/
def onDisk (s : CollectorHost) : Bytes := s.journal.take s.synced

/-! ## Connections -/

structure Wiring (s : CollectorHost) : Prop where
  sinks : Sinks.machine.Reachable s.sinks
  joined : ∀ life ∈ s.lifetimes, Joined s.sinks life
  apart : s.lifetimes.Pairwise (fun later earlier => later.links.Disjoint earlier.links)
  unlinked : ∀ (x : Nat) conn, s.sinks.connections[x]? = some conn →
    (∀ life ∈ s.lifetimes, x ∉ life.links) → conn.received = []

theorem wiring_init : Wiring machine.init := by
  refine ⟨Machine.reachable_init, ?_, List.Pairwise.nil, fun x conn hconn => ?_⟩
  · exact fun life hlife => absurd hlife (by simp [machine])
  · exact absurd hconn (by simp [machine])

/-- A connection has one collector. -/
theorem Wiring.only (h : Wiring s) {life other : Lifetime} {x : Nat} (hlife : life ∈ s.lifetimes)
    (hother : other ∈ s.lifetimes) (hx : x ∈ life.links) (hx' : x ∈ other.links) : life = other := by
  by_contra hne
  have hsymm : Std.Symm (fun later earlier : Lifetime => later.links.Disjoint earlier.links) :=
    ⟨fun _ _ hdisjoint _ hx hx' => hdisjoint hx' hx⟩
  exact h.apart.forall hlife hother hne hx hx'

theorem Wiring.writes (h : Wiring s) {sinks : Sinks} (hsinks : Sinks.machine.Reachable sinks)
    (hwrites : s.sinks.Writes sinks) : Wiring { s with sinks } := by
  refine ⟨hsinks, fun life hlife => (h.joined life hlife).writes hwrites, h.apart, ?_⟩
  intro x conn' hconn' hout
  rcases hwrites.2 x conn' hconn' with ⟨conn, hconn, _, hreceived⟩ | ⟨_, hreceived⟩
  · rw [hreceived]
    exact h.unlinked x conn hconn hout
  · exact hreceived

theorem Wiring.effect (h : Wiring s) (heffect : Effect s s') : Wiring s' := by
  cases heffect with
  | started setup hrunning hjournal =>
      refine ⟨h.sinks, fun life hlife => ?_, List.pairwise_cons.mpr ⟨fun old _ => ?_, h.apart⟩, ?_⟩
      · rcases List.mem_cons.mp hlife with rfl | hold
        · exact .start _ setup
        · exact h.joined life hold
      · exact List.disjoint_nil_left _
      · intro x conn hconn hout
        exact h.unlinked x conn hconn (fun life hlife => hout life (List.mem_cons_of_mem _ hlife))
  | worked life earlier label t hrunning hlives hfresh hstep =>
      have heffect := CollectorNetwork.step_effect hstep
      have hlinks : life.links <+: t.links := heffect.extends.links
      have hlife : life ∈ s.lifetimes := by
        rw [hlives]
        exact List.mem_cons_self
      have hearlier : ∀ old ∈ earlier, old ∈ s.lifetimes := by
        intro old hold
        rw [hlives]
        exact List.mem_cons_of_mem _ hold
      have happart := h.apart
      rw [hlives] at happart
      obtain ⟨hhead, htail⟩ := List.pairwise_cons.mp happart
      have hunread : ∀ (x : Nat) conn, s.sinks.connections[x]? = some conn → x ∉ life.links →
          x ∈ t.links → conn.received = [] :=
        fun x conn hconn hold hnew => h.unlinked x conn hconn (hfresh x hnew hold)
      refine ⟨h.sinks, ?_, List.pairwise_cons.mpr ⟨?_, htail⟩, ?_⟩
      · intro other hother
        rcases List.mem_cons.mp hother with rfl | hold
        · exact (h.joined life hlife).works hunread heffect
        · exact h.joined other (hearlier other hold)
      · intro old hold x hx hx'
        by_cases hin : x ∈ life.links
        · exact hhead old hold hin hx'
        · exact hfresh x hx hin old (hearlier old hold) hx'
      · intro x conn hconn hout
        refine h.unlinked x conn hconn (fun other hother => ?_)
        rw [hlives] at hother
        rcases List.mem_cons.mp hother with rfl | hold
        · exact fun hin => hout _ List.mem_cons_self (hlinks.subset hin)
        · exact hout other (List.mem_cons_of_mem _ hold)
  | answered life y x count room socket conn sinks hlife hlink hsocket hconn hdata =>
      have hin : x ∈ life.links := List.mem_of_getElem? hlink
      have hstep : Sinks.machine.step s.sinks
          (.data x ((socket.written.drop conn.received.length).take count) room) = some sinks := hdata
      have hwrites := Sinks.data_writes hdata
      refine ⟨h.sinks.snoc hstep, fun other hother => ?_, h.apart, fun x' conn' hconn' hout => ?_⟩
      · refine Joined.writes ?_ hwrites
        by_cases hx : x ∈ other.links
        · obtain rfl := h.only hlife hother hin hx
          exact (h.joined life hlife).reads hlink hsocket hconn
        · exact (h.joined other hother).reads_other hx _
      · rcases hwrites.2 x' conn' hconn' with ⟨old, hold, _, hreceived⟩ | ⟨_, hreceived⟩
        · rw [Sinks.read_connections _ hconn] at hold
          rcases Table.getElem?_set_cases hold with ⟨rfl, _⟩ | ⟨_, hin'⟩
          · exact absurd hin (hout life hlife)
          · rw [hreceived]
            exact h.unlinked x' old hin' hout
        · exact hreceived
  | sink label sinks hread hstep =>
      refine h.writes (h.sinks.snoc hstep) (Sinks.step_writes hstep ?_)
      rintro x octets room rfl
      exact absurd hread (by simp [CollectorNetwork.isRead])
  | exited | lost | repaired => exact ⟨h.sinks, h.joined, h.apart, h.unlinked⟩

/-! ## The disk -/

structure Stored (s : CollectorHost) : Prop where
  latest : s.running = true → ∃ life earlier, s.lifetimes = life :: earlier ∧
    s.journal = life.collector.journal ∧ s.synced = life.collector.synced
  within : s.synced ≤ s.journal.length
  kept : ∀ life ∈ s.lifetimes, life.onDisk <+: s.onDisk
  found : s.lifetimes.Pairwise (fun later earlier => earlier.onDisk <+: later.setup.journal)
  /-- No part of a line. -/
  whole : (Lines.cut s.onDisk).2 = []
  limit : s.journal = [] ∨ ∃ life ∈ s.lifetimes, s.journal.length ≤ life.setup.maxBytes

theorem stored_init : Stored machine.init := by
  refine ⟨fun h => absurd h (by simp [machine]), Nat.le_refl _, ?_, List.Pairwise.nil, rfl, Or.inl rfl⟩
  exact fun life hlife => absurd hlife (by simp [machine])

/-- The journal has not become longer. -/
theorem Stored.limit_of_le (h : Stored s) {journal : Bytes} (hle : journal.length ≤ s.journal.length) :
    journal = [] ∨ ∃ life ∈ s.lifetimes, journal.length ≤ life.setup.maxBytes := by
  rcases h.limit with hnil | ⟨life, hlife, hfits⟩
  · rw [hnil] at hle
    exact Or.inl (List.eq_nil_of_length_eq_zero (Nat.le_zero.mp hle))
  · exact Or.inr ⟨life, hlife, Nat.le_trans hle hfits⟩

/-- Nothing of the synced octets is cut off by a repair. -/
theorem Stored.repair (h : Stored s) :
    ∃ more, (Lines.cut s.journal).1.flatten = s.onDisk ++ more := by
  have hsplit : s.onDisk ++ s.journal.drop s.synced = s.journal := List.take_append_drop _ _
  have hdisk := Lines.cut_flatten s.onDisk
  rw [h.whole, List.append_nil] at hdisk
  rw [← hsplit, Lines.cut_append_remainder, List.flatten_append, hdisk]
  exact ⟨_, rfl⟩

theorem Stored.length_onDisk (h : Stored s) : s.onDisk.length = s.synced := by
  rw [onDisk, List.length_take, Nat.min_eq_left h.within]

/-- What is on disk stays there, also where power is lost. -/
theorem Stored.onDisk_prefix (h : Stored s) (hwiring : Wiring s) (hwiring' : Wiring s')
    (heffect : Effect s s') : s.onDisk <+: s'.onDisk := by
  cases heffect with
  | started setup hrunning hjournal =>
      show s.journal.take s.synced <+: s.journal.take s.journal.length
      rw [List.take_length]
      exact List.take_prefix _ _
  | worked life earlier label t hrunning hlives hfresh hstep =>
      obtain ⟨life', earlier', hlives', hjournal, hsynced⟩ := h.latest hrunning
      obtain ⟨rfl, rfl⟩ := List.cons.inj (hlives.symm.trans hlives')
      have hlife : life ∈ s.lifetimes := by
        rw [hlives]
        exact List.mem_cons_self
      have hafter : life.after t ∈ (s.put life earlier t).lifetimes := List.mem_cons_self
      have hextends : Collector.Extends life.collector t.collector :=
        (CollectorNetwork.step_effect hstep).extends.collector
      rw [onDisk, hjournal, hsynced]
      exact hextends.synced (hwiring.joined life hlife).collector
        (hwiring'.joined (life.after t) hafter).collector
  | answered | sink | exited => exact List.prefix_rfl
  | lost tail hrunning hlength =>
      show s.onDisk <+: (s.onDisk ++ tail).take s.synced
      rw [← h.length_onDisk, List.take_left]
  | repaired hrunning =>
      obtain ⟨more, hmore⟩ := h.repair
      show s.onDisk <+: ((Lines.cut s.journal).1.flatten).take s.synced
      rw [hmore, ← h.length_onDisk, List.take_left]

theorem Stored.effect (h : Stored s) (hwiring : Wiring s) (hwiring' : Wiring s')
    (heffect : Effect s s') : Stored s' := by
  have hgrows := h.onDisk_prefix hwiring hwiring' heffect
  cases heffect with
  | started setup hrunning hjournal =>
      have hdisk : setup.journal.take setup.journal.length = s.journal.take s.journal.length := by
        rw [hjournal]
      constructor
      case latest =>
        refine fun _ => ⟨_, _, rfl, hjournal.symm, ?_⟩
        show s.journal.length = setup.journal.length
        rw [hjournal]
      case within => exact Nat.le_refl _
      case kept =>
        intro life hlife
        rcases List.mem_cons.mp hlife with rfl | hold
        · show setup.journal.take setup.journal.length <+: s.journal.take s.journal.length
          rw [hdisk]
        · exact (h.kept life hold).trans hgrows
      case found =>
        refine List.pairwise_cons.mpr ⟨fun old hold => ?_, h.found⟩
        show old.onDisk <+: setup.journal
        rw [hjournal]
        exact (h.kept old hold).trans (List.take_prefix _ _)
      case whole =>
        have hcut := Collector.cut_setup setup []
        rw [List.append_nil] at hcut
        show (Lines.cut (s.journal.take s.journal.length)).2 = []
        rw [← hdisk, List.take_length, hcut]
        rfl
      case limit =>
        refine Or.inr ⟨_, List.mem_cons_self, ?_⟩
        show s.journal.length ≤ setup.maxBytes
        rw [← hjournal]
        exact setup.fits
  | worked life earlier label t hrunning hlives hfresh hstep =>
      have hafter : life.after t ∈ (s.put life earlier t).lifetimes := List.mem_cons_self
      have hreach := (hwiring'.joined _ hafter).collector
      have hbooks := Collector.books_of_reachable hreach
      obtain ⟨_, _, hcut⟩ := Collector.appendedLines_spec hreach
      have hfound := h.found
      rw [hlives] at hfound
      obtain ⟨hhead, htail⟩ := List.pairwise_cons.mp hfound
      constructor
      case latest => exact fun _ => ⟨_, _, rfl, rfl, rfl⟩
      case within =>
        show t.collector.synced ≤ t.collector.journal.length
        have hsynced : t.collector.synced = _ := hbooks.synced
        rw [hsynced]
        exact hbooks.durable.length_le
      case kept =>
        intro other hother
        rcases List.mem_cons.mp hother with rfl | hold
        · exact List.prefix_rfl
        · refine (h.kept other ?_).trans hgrows
          rw [hlives]
          exact List.mem_cons_of_mem _ hold
      case found => exact List.pairwise_cons.mpr ⟨hhead, htail⟩
      case whole =>
        show (Lines.cut (t.collector.journal.take t.collector.synced)).2 = []
        exact congrArg Prod.snd hcut
      case limit => exact Or.inr ⟨_, hafter, hbooks.limit⟩
  | answered | sink => exact ⟨h.latest, h.within, h.kept, h.found, h.whole, h.limit⟩
  | exited hrunning =>
      exact ⟨fun hno => absurd hno (by simp), h.within, h.kept, h.found, h.whole, h.limit⟩
  | lost tail hrunning hlength =>
      have hjournal : s.journal.take s.synced ++ tail = s.onDisk ++ tail := rfl
      have hdisk : (s.onDisk ++ tail).take s.synced = s.onDisk := by
        rw [← h.length_onDisk, List.take_left]
      constructor
      case latest => exact fun hno => absurd (hrunning.symm.trans hno) (by simp)
      case within =>
        show s.synced ≤ (s.onDisk ++ tail).length
        rw [List.length_append, h.length_onDisk]
        exact Nat.le_add_right _ _
      case kept => exact fun life hlife => (h.kept life hlife).trans hgrows
      case found => exact h.found
      case whole =>
        show (Lines.cut ((s.onDisk ++ tail).take s.synced)).2 = []
        rw [hdisk]
        exact h.whole
      case limit =>
        refine h.limit_of_le ?_
        show (s.onDisk ++ tail).length ≤ s.journal.length
        rw [List.length_append, h.length_onDisk]
        exact hlength
  | repaired hrunning =>
      obtain ⟨more, hmore⟩ := h.repair
      have hdisk : ((Lines.cut s.journal).1.flatten).take s.synced = s.onDisk := by
        rw [hmore, ← h.length_onDisk, List.take_left]
      have hle : ((Lines.cut s.journal).1.flatten).length ≤ s.journal.length := by
        have hflatten := congrArg List.length (Lines.cut_flatten s.journal)
        rw [List.length_append] at hflatten
        omega
      constructor
      case latest => exact fun hno => absurd (hrunning.symm.trans hno) (by simp)
      case within =>
        show s.synced ≤ ((Lines.cut s.journal).1.flatten).length
        rw [hmore, List.length_append, h.length_onDisk]
        exact Nat.le_add_right _ _
      case kept => exact fun life hlife => (h.kept life hlife).trans hgrows
      case found => exact h.found
      case whole =>
        show (Lines.cut (((Lines.cut s.journal).1.flatten).take s.synced)).2 = []
        rw [hdisk]
        exact h.whole
      case limit => exact h.limit_of_le hle

theorem stored_of_reachable (h : machine.Reachable s) : Wiring s ∧ Stored s := by
  refine h.invariant (I := fun s => Wiring s ∧ Stored s) ⟨wiring_init, stored_init⟩ ?_
  rintro s l s' _ ⟨hwiring, hstored⟩ hstep
  have hwiring' := hwiring.effect (step_effect hstep)
  exact ⟨hwiring', hstored.effect hwiring hwiring' (step_effect hstep)⟩

/-! ## The places of the records -/

/-- Record `r` is line `p` of the journal: one of these collectors added it there, and those that came
    later found it. -/
def HeldBy (sinks : Sinks) : List Lifetime → Nat → Nat → Prop
  | [], _, _ => False
  | life :: earlier, r, p =>
    (∃ q, p = life.base + q ∧ (life.network sinks).Appears life.setup r q) ∨
      (p < life.base ∧ HeldBy sinks earlier r p)

def Holds (s : CollectorHost) (r p : Nat) : Prop := HeldBy s.sinks s.lifetimes r p

variable {sinks sinks' : Sinks} {lifetimes : List Lifetime} {r r' p q : Nat}

theorem HeldBy.written (h : HeldBy sinks lifetimes r p) :
    ∃ life ∈ lifetimes, ∃ x ∈ life.links, ∃ k, sinks.WrittenAt r x k := by
  induction lifetimes with
  | nil => exact h.elim
  | cons life earlier ih =>
      rcases h with ⟨q, _, _, x, k, y, entry, hwritten, hlink, _⟩ | ⟨_, hearlier⟩
      · exact ⟨life, List.mem_cons_self, x, List.mem_of_getElem? hlink, k, hwritten⟩
      · obtain ⟨old, hold, x, hx, k, hwritten⟩ := ih hearlier
        exact ⟨old, List.mem_cons_of_mem _ hold, x, hx, k, hwritten⟩

/-- A record has one place, over all lifetimes. -/
theorem HeldBy.once (hwired : Sinks.Wired sinks) (hjoined : ∀ life ∈ lifetimes, Joined sinks life)
    (hapart : lifetimes.Pairwise (fun later earlier => later.links.Disjoint earlier.links))
    (hp : HeldBy sinks lifetimes r p) (hq : HeldBy sinks lifetimes r q) : p = q := by
  induction lifetimes with
  | nil => exact hp.elim
  | cons life earlier ih =>
      obtain ⟨hhead, htail⟩ := List.pairwise_cons.mp hapart
      -- The connection of the record is that of one collector.
      have hmixed : ∀ {n : Nat}, (life.network sinks).Appears life.setup r n →
          ¬ HeldBy sinks earlier r p ∧ ¬ HeldBy sinks earlier r q := by
        rintro n ⟨_, x, k, y, entry, hwritten, hlink, _⟩
        have hno : ∀ m, ¬ HeldBy sinks earlier r m := by
          intro m hm
          obtain ⟨old, hold, x', hx', k', hwritten'⟩ := hm.written
          obtain ⟨rfl, _⟩ := hwired.written_once hwritten hwritten'
          exact hhead old hold (List.mem_of_getElem? hlink) hx'
        exact ⟨hno p, hno q⟩
      rcases hp with ⟨m, rfl, hm⟩ | ⟨_, hp⟩
      · rcases hq with ⟨n, rfl, hn⟩ | ⟨_, hq⟩
        · rw [(hjoined life List.mem_cons_self).once hwired hm hn]
        · exact absurd hq (hmixed hm).2
      · rcases hq with ⟨n, rfl, hn⟩ | ⟨_, hq⟩
        · exact absurd hp (hmixed hn).1
        · exact ih (fun old hold => hjoined old (List.mem_cons_of_mem _ hold)) htail hp hq

/-- A place is that of one record. -/
theorem HeldBy.owner (hr : HeldBy sinks lifetimes r p) (hr' : HeldBy sinks lifetimes r' p) :
    r = r' := by
  induction lifetimes with
  | nil => exact hr.elim
  | cons life earlier ih =>
      rcases hr with ⟨m, rfl, hm⟩ | ⟨hlt, hr⟩
      · rcases hr' with ⟨n, hn, happears⟩ | ⟨hlt', _⟩
        · obtain rfl := Nat.add_left_cancel hn
          exact hm.record_unique happears
        · exact absurd hlt' (Nat.not_lt.mpr (Nat.le_add_right _ _))
      · rcases hr' with ⟨n, rfl, _⟩ | ⟨_, hr'⟩
        · exact absurd hlt (Nat.not_lt.mpr (Nat.le_add_right _ _))
        · exact ih hr hr'

theorem HeldBy.moves (h : HeldBy sinks lifetimes r p) (hmoves : Sinks.Moves sinks sinks') :
    HeldBy sinks' lifetimes r p := by
  induction lifetimes with
  | nil => exact h
  | cons life earlier ih =>
      rcases h with ⟨q, hp, hlt, x, k, y, entry, hwritten, hlink, hnth⟩ | ⟨hlt, hearlier⟩
      · exact Or.inl ⟨q, hp, hlt, x, k, y, entry, CollectorNetwork.moves_written hmoves r x k hwritten,
          hlink, hnth⟩
      · exact Or.inr ⟨hlt, ih hearlier⟩

theorem lines_length_le {data data' : Bytes} (h : data <+: data') :
    (Lines.cut data).1.length ≤ (Lines.cut data').1.length :=
  (Collector.cut_prefix h).length_le

/-- What one of the collectors has synced was found by those that came later. -/
theorem heldBy_of_mem {life : Lifetime} (hlife : life ∈ lifetimes)
    (hfound : lifetimes.Pairwise (fun later earlier => earlier.onDisk <+: later.setup.journal))
    (happears : (life.network sinks).Appears life.setup r q)
    (hsynced : life.base + q < (Lines.cut life.onDisk).1.length) :
    HeldBy sinks lifetimes r (life.base + q) := by
  induction lifetimes with
  | nil => exact absurd hlife (by simp)
  | cons latest earlier ih =>
      obtain ⟨hhead, htail⟩ := List.pairwise_cons.mp hfound
      rcases List.mem_cons.mp hlife with rfl | hold
      · exact Or.inl ⟨q, rfl, happears⟩
      · exact Or.inr ⟨Nat.lt_of_lt_of_le hsynced (lines_length_le (hhead life hold)), ih hold htail⟩

/-- A synced line keeps its place. -/
theorem Holds.effect (h : s.Holds r p) (heffect : Effect s s')
    (hline : p < (Lines.cut s.onDisk).1.length) : s'.Holds r p := by
  cases heffect with
  | started setup hrunning hjournal =>
      refine Or.inr ⟨Nat.lt_of_lt_of_le hline (lines_length_le ?_), h⟩
      show s.onDisk <+: setup.journal
      rw [hjournal]
      exact List.take_prefix _ _
  | worked life earlier label t hrunning hlives hfresh hstep =>
      have hextends := (CollectorNetwork.step_effect hstep).extends
      unfold Holds at h
      rw [hlives] at h
      rcases h with ⟨q, hp, hlt, x, k, y, entry, hwritten, hlink, hnth⟩ | hearlier
      · obtain ⟨more, hmore⟩ := hextends.collector.handed
        refine Or.inl ⟨q, hp, ?_, x, k, y, entry, hwritten, Table.getElem?_of_prefix hextends.links hlink, ?_⟩
        · exact Nat.lt_of_lt_of_le hlt hextends.collector.appendedLines.length_le
        · show Occurrences.IsNth t.collector.handed _ k q entry
          rw [← hmore]
          exact hnth.append
      · exact Or.inr hearlier
  | answered life y x count room socket conn sinks hlife hlink hsocket hconn hdata =>
      exact HeldBy.moves h (Sinks.data_moves hdata)
  | sink label sinks hread hstep => exact HeldBy.moves h (Sinks.step_moves hstep)
  | exited | lost | repaired => exact h

/-- Record `r` has the synced line `p`. -/
structure Durable (s : CollectorHost) (r p : Nat) (line : Bytes) : Prop where
  holds : s.Holds r p
  synced : (Lines.cut s.onDisk).1[p]? = some line

theorem Durable.leads {line : Bytes} (h : s.Durable r p line) (hreach : machine.Reachable s)
    (hlead : machine.Leads s s') : s'.Durable r p line := by
  refine hlead.along (I := fun s => s.Durable r p line) h ?_
  intro a l b hlead' ha hstep
  obtain ⟨hwiring, hstored⟩ := stored_of_reachable (hreach.trans hlead')
  have heffect := step_effect hstep
  have hgrows := hstored.onDisk_prefix hwiring (hwiring.effect heffect) heffect
  exact ⟨ha.holds.effect heffect (Table.lt_of_getElem? ha.synced),
    Table.getElem?_of_prefix (Collector.cut_prefix hgrows) ha.synced⟩

/-- A fulfilled promise: some collector has synced the line and answered for it. -/
theorem durable_of_fulfilled (h : machine.Reachable s) {record : SinkRecord}
    (hrecord : s.sinks.records[r]? = some record) (hpromise : record.promise = .fulfilled) :
    ∃ p, s.Durable r p record.line := by
  obtain ⟨hwiring, hstored⟩ := stored_of_reachable h
  have hwired := Sinks.wired_of_reachable hwiring.sinks
  obtain ⟨x, conn, k, item, hconn, hitem, rfl, hread⟩ := hwired.fulfilled r record hrecord hpromise
  have hlinked : ∃ life ∈ s.lifetimes, x ∈ life.links := by
    by_contra hout
    have hnil := hwiring.unlinked x conn hconn (fun life hlife hin => hout ⟨life, hlife, hin⟩)
    rw [hnil] at hread
    exact absurd hread (Nat.not_lt_zero k)
  obtain ⟨life, hlife, hin⟩ := hlinked
  obtain ⟨y, hlink⟩ := List.mem_iff_getElem?.mp hin
  have hjoined := hwiring.joined life hlife
  obtain ⟨p, happears, hline⟩ := hjoined.acknowledged hwired hlink hconn hitem hread
  obtain ⟨_, _, hcut⟩ := Collector.appendedLines_spec hjoined.collector
  obtain ⟨record', hrecord', _, hsame⟩ := hwired.item x conn hconn item (List.mem_of_getElem? hitem)
  obtain rfl := Option.some.inj (hrecord.symm.trans hrecord')
  have hsynced : (Lines.cut life.onDisk).1[life.base + p]? = some record.line := by
    rw [Lifetime.onDisk, hcut, hsame]
    show ((Lines.cut life.setup.journal).1 ++ life.collector.durable.map QueuedFrame.data)[
      (Lines.cut life.setup.journal).1.length + p]? = some item.line
    rw [List.getElem?_append_right (Nat.le_add_right _ _), Nat.add_sub_cancel_left]
    exact hline
  refine ⟨life.base + p, ?_, Table.getElem?_of_prefix (Collector.cut_prefix (hstored.kept life hlife))
    hsynced⟩
  exact heldBy_of_mem hlife hstored.found happears (Table.lt_of_getElem? hsynced)

/-! ## Where the lines are from -/

/-- Every complete line of `data` is that of a record. -/
def LinesOf (sinks : Sinks) (lifetimes : List Lifetime) (data : Bytes) : Prop :=
  ∀ (p : Nat) line, (Lines.cut data).1[p]? = some line →
    ∃ (r : Nat) (record : SinkRecord), HeldBy sinks lifetimes r p ∧ sinks.records[r]? = some record ∧
      record.line = line

theorem LinesOf.moves {data : Bytes} (h : LinesOf sinks lifetimes data)
    (hmoves : Sinks.Moves sinks sinks') : LinesOf sinks' lifetimes data := by
  intro p line hline
  obtain ⟨r, record, hheld, hrecord, hsame⟩ := h p line hline
  have hkept : ∃ record', sinks'.records[r]? = some record' ∧ record'.line = line := by
    refine hmoves.invariant (I := fun sinks => ∃ record', sinks.records[r]? = some record' ∧
      record'.line = line) ⟨record, hrecord, hsame⟩ ?_
    rintro sinks₁ sinks₂ ⟨found, hfound, hline'⟩ hmove
    obtain ⟨next, hnext, hrest⟩ := hmove.records hfound
    exact ⟨next, hnext, hrest.2.1.trans hline'⟩
  obtain ⟨record', hrecord', hsame'⟩ := hkept
  exact ⟨r, record', hheld.moves hmoves, hrecord', hsame'⟩

theorem LinesOf.shorter {data data' : Bytes} (h : LinesOf sinks lifetimes data) (hle : data' <+: data) :
    LinesOf sinks lifetimes data' :=
  fun p line hline => h p line (Table.getElem?_of_prefix (Collector.cut_prefix hle) hline)

/-- As long as every loss of power has left a part of what had been appended. -/
structure Sourced (s : CollectorHost) : Prop where
  journal : s.clean = true → LinesOf s.sinks s.lifetimes s.journal
  found : s.clean = true → ∀ life earlier, s.lifetimes = life :: earlier →
    LinesOf s.sinks earlier life.setup.journal

/-- The lines that the collector has found, and then those that it has added. -/
theorem linesOf_joined {life : Lifetime} {earlier : List Lifetime} (h : Joined sinks life)
    (hwired : Sinks.Wired sinks) (hfound : LinesOf sinks earlier life.setup.journal) :
    LinesOf sinks (life :: earlier) life.collector.journal := by
  intro p line hline
  have hbooks := Collector.books_of_reachable h.collector
  have hstart : life.setup.journal <+: life.collector.journal :=
    (List.prefix_append _ _).trans hbooks.durable
  by_cases hp : p < life.base
  · have hold := List.getElem?_eq_getElem hp
    have hsame := Table.getElem?_of_prefix (Collector.cut_prefix hstart) hold
    obtain ⟨r, record, hheld, hrecord, hrest⟩ := hfound p _ hold
    refine ⟨r, record, Or.inr ⟨hp, hheld⟩, hrecord, ?_⟩
    rw [hrest]
    exact Option.some.inj (hsame.symm.trans hline)
  · have hadded : (life.collector.appendedLines life.setup)[p - life.base]? = some line := by
      rw [Collector.appendedLines, List.getElem?_drop]
      show (Lines.cut life.collector.journal).1[life.base + (p - life.base)]? = some line
      rw [Nat.add_sub_of_le (Nat.le_of_not_lt hp)]
      exact hline
    obtain ⟨r, record, happears, hrecord, hrest⟩ := h.source hwired hadded
    exact ⟨r, record, Or.inl ⟨_, (Nat.add_sub_of_le (Nat.le_of_not_lt hp)).symm, happears⟩,
      hrecord, hrest⟩

theorem Sourced.effect (h : Sourced s) (hwiring' : Wiring s') (heffect : Effect s s') : Sourced s' := by
  cases heffect with
  | started setup hrunning hjournal =>
      have hfound : s.clean = true → LinesOf s.sinks s.lifetimes setup.journal := by
        rw [hjournal]
        exact h.journal
      refine ⟨fun hclean => ?_, fun hclean life earlier hlives => ?_⟩
      · show LinesOf s.sinks _ s.journal
        rw [← hjournal]
        exact linesOf_joined (Joined.start s.sinks setup)
          (Sinks.wired_of_reachable hwiring'.sinks) (hfound hclean)
      · obtain ⟨rfl, rfl⟩ := List.cons.inj hlives
        exact hfound hclean
  | worked life earlier label t hrunning hlives hfresh hstep =>
      have hfound : s.clean = true → LinesOf s.sinks earlier life.setup.journal :=
        fun hclean => h.found hclean life earlier hlives
      refine ⟨fun hclean => ?_, fun hclean other rest hother => ?_⟩
      · exact linesOf_joined (hwiring'.joined (life.after t) List.mem_cons_self)
          (Sinks.wired_of_reachable hwiring'.sinks) (hfound hclean)
      · obtain ⟨rfl, rfl⟩ := List.cons.inj hother
        exact hfound hclean
  | answered life y x count room socket conn sinks hlife hlink hsocket hconn hdata =>
      have hmoves := Sinks.data_moves hdata
      exact ⟨fun hclean => (h.journal hclean).moves hmoves,
        fun hclean other rest hother => (h.found hclean other rest hother).moves hmoves⟩
  | sink label sinks hread hstep =>
      have hmoves := Sinks.step_moves hstep
      exact ⟨fun hclean => (h.journal hclean).moves hmoves,
        fun hclean other rest hother => (h.found hclean other rest hother).moves hmoves⟩
  | exited => exact ⟨h.journal, h.found⟩
  | lost tail hrunning hlength =>
      have hboth : (s.clean && tail.isPrefixOf (s.journal.drop s.synced)) = true →
          s.clean = true ∧ tail <+: s.journal.drop s.synced := by
        intro hclean
        rw [Bool.and_eq_true, List.isPrefixOf_iff_prefix] at hclean
        exact hclean
      refine ⟨fun hclean => ?_, fun hclean => h.found (hboth hclean).1⟩
      refine (h.journal (hboth hclean).1).shorter ?_
      obtain ⟨more, hmore⟩ := (hboth hclean).2
      refine ⟨more, ?_⟩
      show s.journal.take s.synced ++ tail ++ more = s.journal
      rw [List.append_assoc, hmore, List.take_append_drop]
  | repaired hrunning =>
      refine ⟨fun hclean => (h.journal hclean).shorter ?_, h.found⟩
      exact ⟨_, Lines.cut_flatten s.journal⟩

theorem sourced_of_reachable (h : machine.Reachable s) : Sourced s := by
  refine h.invariant ⟨fun _ p line hline => ?_, fun _ life earlier hlives => ?_⟩ ?_
  · exact absurd hline (by simp [machine, Lines.cut])
  · exact absurd hlives (by simp [machine])
  · intro a l b ha hsourced hstep
    exact hsourced.effect ((stored_of_reachable ha).1.effect (step_effect hstep)) (step_effect hstep)

/-! ## The guarantee -/

structure Survival (s : CollectorHost) : Prop where
  /-- A fulfilled promise: from now on and for good, the line is a complete one of what is on disk, at
      one place, which is its record's and no other's. -/
  acknowledged : ∀ (r : Nat) record, s.sinks.records[r]? = some record →
    record.promise = .fulfilled → ∃ p, ∀ s', machine.Leads s s' →
      (Lines.cut s'.onDisk).1[p]? = some record.line ∧ (∀ q, s'.Holds r q ↔ q = p) ∧
        ∀ r', s'.Holds r' p ↔ r' = r
  /-- While no loss of power has put foreign octets at the end, every complete line of the journal is
      that of one record. -/
  source : s.clean = true → ∀ (p : Nat) line, (Lines.cut s.journal).1[p]? = some line →
    ∃ (r : Nat) (record : SinkRecord), s.sinks.records[r]? = some record ∧ record.line = line ∧
      ∀ r', s.Holds r' p ↔ r' = r
  /-- The limit of some collector holds for the journal. -/
  limit : s.journal = [] ∨ ∃ life ∈ s.lifetimes, s.journal.length ≤ life.setup.maxBytes

/-- For every interleaving of sinks, connections and collectors that follow each other, whose processes
    end and whose host loses power at any moment. -/
theorem acknowledged_survives (h : machine.Reachable s) : Survival s := by
  constructor
  case acknowledged =>
    intro r record hrecord hpromise
    obtain ⟨p, hdurable⟩ := durable_of_fulfilled h hrecord hpromise
    refine ⟨p, fun s' hlead => ?_⟩
    have hlater := hdurable.leads h hlead
    obtain ⟨hwiring, _⟩ := stored_of_reachable (h.trans hlead)
    refine ⟨hlater.synced, fun q => ⟨fun hq => ?_, ?_⟩, fun r' => ⟨fun hr' => hr'.owner hlater.holds, ?_⟩⟩
    · exact HeldBy.once (Sinks.wired_of_reachable hwiring.sinks) hwiring.joined hwiring.apart hq
        hlater.holds
    · rintro rfl
      exact hlater.holds
    · rintro rfl
      exact hlater.holds
  case source =>
    intro hclean p line hline
    obtain ⟨r, record, hheld, hrecord, hsame⟩ := (sourced_of_reachable h).journal hclean p line hline
    refine ⟨r, record, hrecord, hsame, fun r' => ⟨fun hr' => hr'.owner hheld, ?_⟩⟩
    rintro rfl
    exact hheld
  case limit => exact (stored_of_reachable h).2.limit

def privateJournal : JournalStat := { isFile := true, nlink := 1, uid := 1000, mode := 0o600 }

def defaultOptions : CollectorOptions :=
  { socket := some (js "/a"), journal := some (js "/j"), maxBytes := some 268435456 }

/-- One record is acknowledged and the next one half written when the host loses power; the journal is
    repaired, and a second collector acknowledges the record of a second sink. -/
def afterPowerLoss : List Label :=
  [.start defaultOptions 1000 privateJournal true, .sink .socketAuditSink,
    .sink (.send 0 Collector.minimalRecord 0), .accept 0, .sink (.connect 0 2),
    .deliver 0 Collector.minimalRecord.line.length, .collector (.run 0),
    .collector (.append 0 Collector.minimalRecord.line.length), .collector (.appended 0 true),
    .collector (.synchronized 0 true []), .answer 0 0 1 0, .sink (.send 0 Collector.minimalRecord 2),
    .deliver 0 Collector.minimalRecord.line.length, .collector (.run 0), .collector (.append 0 3),
    .exit, .power (Collector.minimalRecord.line.take 2), .sink (.disconnected 0), .repair,
    .start defaultOptions 1000 privateJournal true, .sink .socketAuditSink,
    .sink (.send 1 Collector.minimalRecord 0), .accept 1, .sink (.connect 1 2),
    .deliver 0 Collector.minimalRecord.line.length, .collector (.run 0),
    .collector (.append 0 Collector.minimalRecord.line.length), .collector (.appended 0 true),
    .collector (.synchronized 0 true []), .answer 0 0 1 0]

theorem acknowledged_survives_afterPowerLoss : ∃ s,
    machine.exec machine.init afterPowerLoss = some s ∧
    s.sinks.records.map SinkRecord.promise = [.fulfilled, .rejected, .fulfilled] ∧
    (Lines.cut s.journal).1 = [Collector.minimalRecord.line, Collector.minimalRecord.line] ∧
    s.clean = true ∧ Survival s := by
  have hrun : (machine.exec machine.init afterPowerLoss).map
      (fun s => (s.sinks.records.map SinkRecord.promise, (Lines.cut s.journal).1, s.clean)) =
      some ([.fulfilled, .rejected, .fulfilled],
        [Collector.minimalRecord.line, Collector.minimalRecord.line], true) := by
    decide +kernel
  obtain ⟨s, hexec, hsummary⟩ := Option.map_eq_some_iff.mp hrun
  obtain ⟨hpromises, hrest⟩ := Prod.mk.inj hsummary
  obtain ⟨hlines, hclean⟩ := Prod.mk.inj hrest
  exact ⟨s, hexec, hpromises, hlines, hclean, acknowledged_survives (Machine.leads_of_exec hexec)⟩

end CollectorHost

end SecureMcp
