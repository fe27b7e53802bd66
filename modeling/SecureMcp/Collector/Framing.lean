import SecureMcp.Collector.Flushing
import SecureMcp.Collector.Wiring
import SecureMcp.Lib.JsonRead
import Mathlib.Data.List.TakeWhile

set_option autoImplicit false

/-! # The frames of a stream

What is queued from a socket depends on the octets it has read, not on how they were cut into chunks:
it is the longest run of lines at their start that are records of at most 4096 octets
(`validPrefix`). -/

namespace SecureMcp

namespace Collector

variable {setup : JournalSetup} {k k' : Collector} {y z i : Nat} {socket socket' : CollectorSocket}

/-- The frames that were queued from this socket. -/
def framesOf (k : Collector) (y : Nat) : List Bytes :=
  (k.accepted.filter (fun entry => entry.socket == y)).map QueuedFrame.data

/-- The lines at the start of a stream that are records of at most 4096 octets. -/
def validPrefix (stream : Bytes) : List Bytes := (Lines.cut stream).1.takeWhile isFrame

/-- The next line of a stream is none of these, or too much is left without a newline. -/
def refused (stream : Bytes) : Bool :=
  !(Lines.cut stream).1.all isFrame || decide (4096 < (Lines.cut stream).2.length)

/-! ## Queueing the frames of a chunk -/

/-- Some of the frames are queued, the first ones, and all of them when the socket stays open. -/
theorem offer_spec (k : Collector) (y : Nat) (frames : List Bytes) :
    ∃ j, (k.offer y frames).1.accepted =
        k.accepted ++ (frames.take j).map (fun frame => ⟨frame, y⟩) ∧
      (∀ frame ∈ frames.take j, isFrame frame = true) ∧
      ((k.offer y frames).2 = true → frames.take j = frames) ∧
      ((k.offer y frames).2 = false → ∃ frame, frames[j]? = some frame ∧
        (isFrame frame = false ∨ 1024 ≤ k.pending + j)) := by
  fun_induction offer y k frames with
  | case1 k => exact ⟨0, by simp, by simp, fun _ => rfl, fun h => absurd h (by simp)⟩
  | case2 k frame later hbound =>
      refine ⟨0, by simp, by simp, fun h => absurd h (by simp), fun _ => ⟨frame, rfl, ?_⟩⟩
      simp only [Bool.or_eq_true, decide_eq_true_eq] at hbound
      rcases hbound with hlong | hfull
      · exact Or.inl (by rw [isFrame, decide_eq_false (by omega), Bool.false_and])
      · exact Or.inr hfull
  | case3 k frame later hbound hrecord =>
      refine ⟨0, by simp, by simp, fun h => absurd h (by simp), fun _ => ⟨frame, rfl, Or.inl ?_⟩⟩
      rw [isFrame, Bool.and_eq_false_iff]
      exact Or.inr (by simpa using hrecord)
  | case4 k frame later hbound hrecord ih =>
      obtain ⟨j, haccepted, hframes, hall, hnext⟩ := ih
      refine ⟨j + 1, ?_, ?_, ?_, ?_⟩
      · rw [haccepted, push_accepted, List.take_succ_cons, List.map_cons, List.append_assoc]
        rfl
      · intro other hother
        rw [List.take_succ_cons] at hother
        rcases List.mem_cons.mp hother with rfl | hin
        · simp only [Bool.or_eq_true, decide_eq_true_eq, not_or] at hbound
          rw [isFrame, Bool.and_eq_true, decide_eq_true_eq]
          exact ⟨Nat.le_of_not_lt hbound.1, by simpa using hrecord⟩
        · exact hframes other hin
      · intro h
        rw [List.take_succ_cons, hall h]
      · intro h
        obtain ⟨other, hother, hwhy⟩ := hnext h
        rw [push_pending] at hwhy
        exact ⟨other, hother, hwhy.imp_right (fun hle => by omega)⟩

/-- What one chunk does to its socket and to the queue. -/
structure Fed (k k' : Collector) (y : Nat) (chunk : Bytes) (socket socket' : CollectorSocket) (j : Nat) :
    Prop where
  before : k.sockets[y]? = some socket
  opened : socket.destroyed = false
  sockets : k'.sockets = k.sockets.set y socket'
  received : socket'.received = socket.received ++ chunk
  written : socket'.written = socket.written
  accepted : k'.accepted = k.accepted ++
    ((Lines.cut (socket.remainder ++ chunk)).1.take j).map (fun frame => ⟨frame, y⟩)
  frames : ∀ frame ∈ (Lines.cut (socket.remainder ++ chunk)).1.take j, isFrame frame = true
  /-- It stays open: the whole chunk was taken. -/
  kept : socket'.destroyed = false →
    (Lines.cut (socket.remainder ++ chunk)).1.take j = (Lines.cut (socket.remainder ++ chunk)).1 ∧
    socket'.remainder = (Lines.cut (socket.remainder ++ chunk)).2 ∧
    socket'.remainder.length ≤ 4096
  /-- It is destroyed, for one of these reasons. -/
  lost : socket'.destroyed = true → k.healthy = false ∨ 1024 * 4096 < chunk.length ∨
    (∃ frame, (Lines.cut (socket.remainder ++ chunk)).1[j]? = some frame ∧
      (isFrame frame = false ∨ 1024 ≤ k.pending + j)) ∨
    ((Lines.cut (socket.remainder ++ chunk)).1.take j = (Lines.cut (socket.remainder ++ chunk)).1 ∧
      4096 < (Lines.cut (socket.remainder ++ chunk)).2.length)

theorem data_fed {chunk : Bytes} (h : k.data y chunk = some k') :
    ∃ socket socket' j, Fed k k' y chunk socket socket' j := by
  unfold data at h
  split at h
  · exact absurd h (by simp)
  · next socket hsocket =>
      split at h
      · exact absurd h (by simp)
      · next hopen =>
          obtain rfl := Option.some.inj h
          simp only [Bool.or_eq_true, not_or, Bool.not_eq_true] at hopen
          refine ⟨socket, ?_⟩
          unfold handle
          split
          · next hbad =>
              refine ⟨{ socket with received := socket.received ++ chunk, destroyed := true }, 0,
                hsocket, hopen.1, rfl, rfl, rfl, by simp [setSocket], by simp,
                fun hh => absurd hh (by simp), fun _ => ?_⟩
              simp only [Bool.or_eq_true, Bool.not_eq_true', decide_eq_true_eq] at hbad
              rcases hbad with hun | hlong
              · exact Or.inl hun
              · exact Or.inr (Or.inl hlong)
          · obtain ⟨j, haccepted, hframes, hall, hnext⟩ :=
              offer_spec k y (Lines.cut (socket.remainder ++ chunk)).1
            split
            · next hbad =>
                refine ⟨{ socket with received := socket.received ++ chunk, destroyed := true }, j,
                  hsocket, hopen.1, ?_, rfl, rfl, haccepted, hframes,
                  fun hh => absurd hh (by simp), fun _ => ?_⟩
                · show (k.offer y _).1.sockets.set y _ = _
                  rw [offer_sockets]
                · simp only [Bool.or_eq_true, Bool.not_eq_true', decide_eq_true_eq] at hbad
                  cases hoffered : (k.offer y (Lines.cut (socket.remainder ++ chunk)).1).2 with
                  | false => exact Or.inr (Or.inr (Or.inl (hnext hoffered)))
                  | true =>
                      rcases hbad with hno | hlong
                      · exact absurd (hoffered.symm.trans hno) (by simp)
                      · exact Or.inr (Or.inr (Or.inr ⟨hall hoffered, hlong⟩))
            · next hgood =>
                simp only [Bool.or_eq_true, Bool.not_eq_true', decide_eq_true_eq, not_or,
                  Bool.not_eq_false] at hgood
                refine ⟨{ socket with
                    received := socket.received ++ chunk
                    remainder := (Lines.cut (socket.remainder ++ chunk)).2 }, j,
                  hsocket, hopen.1, ?_, rfl, rfl, haccepted, hframes,
                  fun _ => ⟨hall hgood.1, rfl, Nat.le_of_not_lt hgood.2⟩, fun hh => ?_⟩
                · show (k.offer y _).1.sockets.set y _ = _
                  rw [offer_sockets]
                · exact absurd (hopen.1.symm.trans hh) (by simp)

/-! ## Steps that read nothing -/

/-- No socket reads anything, none is opened again, and only these are destroyed. There are new
    sockets only where it says so. -/
structure SameStreams (opens : Prop) (lost : Nat → Prop) (k k' : Collector) : Prop where
  accepted : k'.accepted = k.accepted
  grown : k.sockets.length ≤ k'.sockets.length
  length : opens ∨ k'.sockets.length = k.sockets.length
  old : ∀ (y : Nat) socket', k'.sockets[y]? = some socket' → y < k.sockets.length →
    ∃ socket, k.sockets[y]? = some socket ∧ socket'.received = socket.received ∧
      socket'.remainder = socket.remainder ∧ socket.written <+: socket'.written ∧
      (socket'.destroyed = socket.destroyed ∨ (socket'.destroyed = true ∧ lost y))
  new : ∀ (y : Nat) socket', k'.sockets[y]? = some socket' → k.sockets.length ≤ y →
    socket'.received = [] ∧ socket'.remainder = [] ∧ socket'.destroyed = false

variable {opens : Prop} {lost : Nat → Prop}

theorem sameStreams_of_sockets (haccepted : k'.accepted = k.accepted)
    (hlength : k'.sockets.length = k.sockets.length)
    (hold : ∀ (y : Nat) socket', k'.sockets[y]? = some socket' →
      ∃ socket, k.sockets[y]? = some socket ∧ socket'.received = socket.received ∧
        socket'.remainder = socket.remainder ∧ socket.written <+: socket'.written ∧
        (socket'.destroyed = socket.destroyed ∨ (socket'.destroyed = true ∧ lost y))) :
    SameStreams opens lost k k' := by
  refine ⟨haccepted, Nat.le_of_eq hlength.symm, Or.inr hlength,
    fun y socket' hsocket' _ => hold y socket' hsocket', ?_⟩
  intro y socket' hsocket' hle
  have hlt := Table.lt_of_getElem? hsocket'
  omega

theorem sameStreams_of_eq (haccepted : k'.accepted = k.accepted) (hsockets : k'.sockets = k.sockets) :
    SameStreams opens lost k k' := by
  refine sameStreams_of_sockets haccepted (by rw [hsockets]) ?_
  intro y socket' hsocket'
  rw [hsockets] at hsocket'
  exact ⟨socket', hsocket', rfl, rfl, List.prefix_rfl, Or.inl rfl⟩

/-- Every socket is destroyed. -/
theorem sameStreams_destroyed (haccepted : k'.accepted = k.accepted)
    (hsockets : k'.sockets = k.sockets.map (fun socket => { socket with destroyed := true }))
    (hlost : ∀ y, lost y) : SameStreams opens lost k k' := by
  refine sameStreams_of_sockets haccepted (by rw [hsockets, List.length_map]) ?_
  intro y socket' hsocket'
  rw [hsockets, List.getElem?_map] at hsocket'
  obtain ⟨socket, hsocket, rfl⟩ := Option.map_eq_some_iff.mp hsocket'
  exact ⟨socket, hsocket, rfl, rfl, List.prefix_rfl, Or.inr ⟨rfl, hlost y⟩⟩

/-- The loop of `flush` destroys sockets only where it fails. -/
theorem sameStreams_next (i : Nat) (hlost : (k.next setup i).healthy = false → ∀ y, lost y) :
    SameStreams opens lost k (k.next setup i) := by
  unfold next at hlost ⊢
  split at hlost
  · next hempty =>
      rw [if_pos hempty]
      exact sameStreams_of_eq rfl rfl
  · next hempty =>
      rw [if_neg hempty]
      split at hlost
      · next hfull =>
          rw [if_pos hfull]
          exact sameStreams_destroyed rfl rfl (hlost rfl)
      · next hfull =>
          rw [if_neg hfull]
          exact sameStreams_of_eq rfl rfl

theorem SameStreams.of_sockets {k₁ : Collector} (h : SameStreams opens lost k₁ k')
    (haccepted : k₁.accepted = k.accepted) (hlength : k₁.sockets.length = k.sockets.length)
    (hold : ∀ (y : Nat) socket', k₁.sockets[y]? = some socket' →
      ∃ socket, k.sockets[y]? = some socket ∧ socket'.received = socket.received ∧
        socket'.remainder = socket.remainder ∧ socket.written <+: socket'.written ∧
        (socket'.destroyed = socket.destroyed ∨ (socket'.destroyed = true ∧ lost y))) :
    SameStreams opens lost k k' := by
  refine ⟨h.accepted.trans haccepted, by rw [← hlength]; exact h.grown,
    by rw [← hlength]; exact h.length, ?_, ?_⟩
  · intro y socket' hsocket' hlt
    obtain ⟨mid, hmid, h1, h2, h3, h4⟩ := h.old y socket' hsocket' (by rw [hlength]; exact hlt)
    obtain ⟨socket, hsocket, h1', h2', h3', h4'⟩ := hold y mid hmid
    refine ⟨socket, hsocket, h1.trans h1', h2.trans h2', h3'.trans h3, ?_⟩
    rcases h4 with heq | hgone
    · rw [heq]
      exact h4'
    · exact Or.inr hgone
  · intro y socket' hsocket' hle
    exact h.new y socket' hsocket' (by rw [hlength]; exact hle)

/-- An answer changes nothing that the socket has read, and destroys it only when it is `full`. -/
theorem answer_stream (batch : List QueuedFrame) (full : List Nat) (y : Nat)
    (socket : CollectorSocket) :
    (answer batch full y socket).received = socket.received ∧
      (answer batch full y socket).remainder = socket.remainder ∧
      socket.written <+: (answer batch full y socket).written ∧
      ((answer batch full y socket).destroyed = socket.destroyed ∨
        ((answer batch full y socket).destroyed = true ∧ y ∈ full)) := by
  unfold answer
  split
  · exact ⟨rfl, rfl, List.prefix_rfl, Or.inl rfl⟩
  · split
    · next hfull =>
        exact ⟨rfl, rfl, List.prefix_rfl, Or.inr ⟨rfl, List.contains_iff_mem.mp hfull⟩⟩
    · exact ⟨rfl, rfl, List.prefix_append _ _, Or.inl rfl⟩

/-- The socket is destroyed for a reason that is not in what it has read. -/
def Label.disturbs (y : Nat) : Label → Prop
  | .drop z => z = y
  | .synchronized _ _ full => y ∈ full
  | .stop => True
  | _ => False

/-- Every step but a `data` event leaves the streams as they are. -/
theorem step_sameStreams {l : Label} (h : k.step setup l = some k')
    (hl : ∀ y chunk, l ≠ .data y chunk) :
    SameStreams (l = .accept) (fun y => k'.healthy = false ∨ l.disturbs y) k k' := by
  cases l with
  | accept =>
      replace h : k.accept = some k' := h
      unfold accept at h
      split at h
      · obtain rfl := Option.some.inj h
        refine ⟨rfl, by simp, Or.inl rfl, ?_, ?_⟩
        · intro y socket' hsocket' hlt
          rcases Table.getElem?_append_cases hsocket' with hin | ⟨rfl, _⟩
          · exact ⟨socket', hin, rfl, rfl, List.prefix_rfl, Or.inl rfl⟩
          · exact absurd hlt (Nat.lt_irrefl _)
        · intro y socket' hsocket' hle
          rcases Table.getElem?_append_cases hsocket' with hin | ⟨_, rfl⟩
          · exact absurd (Table.lt_of_getElem? hin) (Nat.not_lt.mpr hle)
          · exact ⟨rfl, rfl, rfl⟩
      · exact absurd h (by simp)
  | data y chunk => exact absurd rfl (hl y chunk)
  | drop y =>
      replace h : k.drop y = some k' := h
      unfold drop at h
      split at h
      · exact absurd h (by simp)
      · next socket hsocket =>
          split at h
          · exact absurd h (by simp)
          · obtain rfl := Option.some.inj h
            refine sameStreams_of_sockets rfl List.length_set ?_
            intro z socket' hsocket'
            rcases Table.getElem?_set_cases hsocket' with ⟨rfl, rfl⟩ | ⟨_, hin⟩
            · exact ⟨socket, hsocket, rfl, rfl, List.prefix_rfl, Or.inr ⟨rfl, Or.inr rfl⟩⟩
            · exact ⟨socket', hin, rfl, rfl, List.prefix_rfl, Or.inl rfl⟩
  | run i =>
      replace h : k.run setup i = some k' := h
      unfold run at h
      split at h
      · obtain rfl := Option.some.inj h
        exact sameStreams_next i (fun hfailed _ => Or.inl hfailed)
      · exact absurd h (by simp)
  | append i count =>
      replace h : k.append i count = some k' := h
      unfold append at h
      split at h
      · split at h
        · exact absurd h (by simp)
        · obtain rfl := Option.some.inj h
          exact sameStreams_of_eq rfl rfl
      · exact absurd h (by simp)
  | appended i ok =>
      replace h : k.appended i ok = some k' := h
      unfold appended at h
      split at h
      · split at h
        · split at h
          · obtain rfl := Option.some.inj h
            exact sameStreams_of_eq rfl rfl
          · exact absurd h (by simp)
        · obtain rfl := Option.some.inj h
          exact sameStreams_destroyed rfl rfl (fun _ => Or.inl rfl)
      · exact absurd h (by simp)
  | synchronized i ok full =>
      replace h : k.synchronized setup i ok full = some k' := h
      unfold synchronized at h
      split at h
      · next batch _ =>
          split at h
          · obtain rfl := Option.some.inj h
            refine (sameStreams_next i (fun hfailed _ => Or.inl hfailed)).of_sockets rfl
              (List.length_mapIdx) ?_
            intro z socket' hsocket'
            replace hsocket' : (k.sockets.mapIdx (answer batch full))[z]? = some socket' := hsocket'
            rw [List.getElem?_mapIdx] at hsocket'
            obtain ⟨socket, hsocket, rfl⟩ := Option.map_eq_some_iff.mp hsocket'
            obtain ⟨h1, h2, h3, h4⟩ := answer_stream batch full z socket
            exact ⟨socket, hsocket, h1, h2, h3,
              h4.imp_right (fun hgone => ⟨hgone.1, Or.inr hgone.2⟩)⟩
          · obtain rfl := Option.some.inj h
            exact sameStreams_destroyed rfl rfl (fun _ => Or.inl rfl)
      · exact absurd h (by simp)
  | stop =>
      obtain rfl := Option.some.inj h
      exact sameStreams_destroyed rfl rfl (fun _ => Or.inr trivial)

/-! ## What has been queued from each socket -/

/-- The queue against the streams of the sockets. -/
structure Framed (k : Collector) : Prop where
  frame : ∀ entry ∈ k.accepted, isFrame entry.data = true ∧ entry.socket < k.sockets.length
  stream : ∀ (y : Nat) socket, k.sockets[y]? = some socket →
    k.framesOf y <+: (Lines.cut socket.received).1
  opened : ∀ (y : Nat) socket, k.sockets[y]? = some socket → socket.destroyed = false →
    k.framesOf y = (Lines.cut socket.received).1 ∧
      socket.remainder = (Lines.cut socket.received).2 ∧ socket.remainder.length ≤ 4096

theorem framed_start (setup : JournalSetup) : Framed (.start setup) := by
  constructor
  case frame => exact fun entry hentry => absurd hentry (by simp [start])
  case stream => exact fun y socket hsocket => absurd hsocket (by simp [start])
  case opened => exact fun y socket hsocket => absurd hsocket (by simp [start])

theorem framesOf_eq (haccepted : k'.accepted = k.accepted) (y : Nat) :
    k'.framesOf y = k.framesOf y := by
  rw [framesOf, framesOf, haccepted]

theorem framesOf_append {frames : List Bytes}
    (haccepted : k'.accepted = k.accepted ++ frames.map (fun frame => ⟨frame, y⟩)) (z : Nat) :
    k'.framesOf z = k.framesOf z ++ if z = y then frames else [] := by
  rw [framesOf, framesOf, haccepted, List.filter_append, List.map_append]
  congr 1
  by_cases h : z = y
  · rw [if_pos h, h]
    simp [List.filter_map, Function.comp_def]
  · rw [if_neg h]
    simp [List.filter_map, Function.comp_def, Ne.symm h]

/-- A socket from which nothing was queued. -/
theorem Framed.framesOf_nil (h : Framed k) (hle : k.sockets.length ≤ y) : k.framesOf y = [] := by
  rw [framesOf, List.map_eq_nil_iff, List.filter_eq_nil_iff]
  intro entry hentry hsame
  have hlt := (h.frame entry hentry).2
  rw [eq_of_beq hsame] at hlt
  omega

theorem Framed.frames (h : Framed k) : ∀ frame ∈ k.framesOf y, isFrame frame = true := by
  intro frame hframe
  obtain ⟨entry, hentry, rfl⟩ := List.mem_map.mp hframe
  exact (h.frame entry (List.mem_of_mem_filter hentry)).1

/-- The frames that a chunk completes follow those that were queued before. -/
theorem Framed.cut_received {chunk : Bytes} {j : Nat} (h : Framed k)
    (hfed : Fed k k' y chunk socket socket' j) :
    (Lines.cut socket'.received).1 = k.framesOf y ++ (Lines.cut (socket.remainder ++ chunk)).1 ∧
      (Lines.cut socket'.received).2 = (Lines.cut (socket.remainder ++ chunk)).2 := by
  obtain ⟨hframes, hremainder, _⟩ := h.opened y socket hfed.before hfed.opened
  rw [hfed.received, Lines.cut_append_remainder, hframes, hremainder]
  exact ⟨rfl, rfl⟩

theorem Framed.fed {chunk : Bytes} {j : Nat} (h : Framed k)
    (hfed : Fed k k' y chunk socket socket' j) : Framed k' := by
  obtain ⟨hcut, hrest⟩ := h.cut_received hfed
  have hold : ∀ (z : Nat) other, k'.sockets[z]? = some other →
      (z = y ∧ other = socket') ∨ (z ≠ y ∧ k.sockets[z]? = some other) := by
    intro z other hother
    rw [hfed.sockets] at hother
    rcases Table.getElem?_set_cases hother with ⟨rfl, rfl⟩ | ⟨hne, hin⟩
    · exact Or.inl ⟨rfl, rfl⟩
    · exact Or.inr ⟨hne, hin⟩
  constructor
  case frame =>
    intro entry hentry
    rw [hfed.sockets, List.length_set]
    rw [hfed.accepted] at hentry
    rcases List.mem_append.mp hentry with hin | hnew
    · exact h.frame entry hin
    · obtain ⟨frame, hframe, rfl⟩ := List.mem_map.mp hnew
      exact ⟨hfed.frames frame hframe, Table.lt_of_getElem? hfed.before⟩
  case stream =>
    intro z other hother
    rw [framesOf_append hfed.accepted]
    rcases hold z other hother with ⟨rfl, rfl⟩ | ⟨hne, hin⟩
    · rw [if_pos rfl, hcut]
      exact (List.prefix_append_right_inj _).mpr (List.take_prefix _ _)
    · rw [if_neg hne, List.append_nil]
      exact h.stream z other hin
  case opened =>
    intro z other hother hopen
    rw [framesOf_append hfed.accepted]
    rcases hold z other hother with ⟨rfl, rfl⟩ | ⟨hne, hin⟩
    · obtain ⟨hall, hleft, hshort⟩ := hfed.kept hopen
      rw [if_pos rfl, hcut, hall, hrest]
      exact ⟨rfl, hleft, hshort⟩
    · rw [if_neg hne, List.append_nil]
      exact h.opened z other hin hopen

theorem Framed.same (h : Framed k) (hsame : SameStreams opens lost k k') : Framed k' := by
  constructor
  case frame =>
    intro entry hentry
    rw [hsame.accepted] at hentry
    obtain ⟨hframe, hlt⟩ := h.frame entry hentry
    exact ⟨hframe, Nat.lt_of_lt_of_le hlt hsame.grown⟩
  case stream =>
    intro y socket' hsocket'
    rw [framesOf_eq hsame.accepted]
    by_cases hlt : y < k.sockets.length
    · obtain ⟨socket, hsocket, hreceived, _⟩ := hsame.old y socket' hsocket' hlt
      rw [hreceived]
      exact h.stream y socket hsocket
    · rw [h.framesOf_nil (Nat.le_of_not_lt hlt)]
      exact List.nil_prefix
  case opened =>
    intro y socket' hsocket' hopen
    rw [framesOf_eq hsame.accepted]
    by_cases hlt : y < k.sockets.length
    · obtain ⟨socket, hsocket, hreceived, hremainder, _, hdestroyed⟩ := hsame.old y socket' hsocket' hlt
      rw [hreceived, hremainder]
      refine h.opened y socket hsocket ?_
      rcases hdestroyed with heq | ⟨hgone, _⟩
      · exact heq.symm.trans hopen
      · exact absurd (hopen.symm.trans hgone) (by simp)
    · obtain ⟨hreceived, hremainder, _⟩ := hsame.new y socket' hsocket' (Nat.le_of_not_lt hlt)
      rw [h.framesOf_nil (Nat.le_of_not_lt hlt), hreceived, hremainder]
      exact ⟨rfl, rfl, Nat.zero_le _⟩

theorem framed_of_reachable (h : (machine setup).Reachable k) : Framed k := by
  refine h.invariant (framed_start setup) ?_
  intro k l k' _ hframed hstep
  replace hstep : k.step setup l = some k' := hstep
  by_cases hl : ∃ y chunk, l = .data y chunk
  · obtain ⟨y, chunk, rfl⟩ := hl
    obtain ⟨socket, socket', j, hfed⟩ := data_fed hstep
    exact hframed.fed hfed
  · exact hframed.same (step_sameStreams hstep (fun y chunk heq => hl ⟨y, chunk, heq⟩))

/-! ## A socket that is only destroyed for what it has read -/

/-- Chunks of at most 4 MiB arrive, records are queued while fewer than 1024 are pending, and nothing
    else destroys this socket. -/
def undisturbed (y : Nat) (k : Collector) : Label → Bool
  | .data z chunk =>
    z != y || (decide (chunk.length ≤ 1024 * 4096) && (k.sockets[y]?).all (fun (socket : CollectorSocket) =>
      decide (∀ j < (validPrefix (socket.remainder ++ chunk)).length, k.pending + j < 1024)))
  | .drop z => z != y
  | .synchronized _ _ full => !full.contains y
  | .stop => false
  | _ => true

theorem not_disturbs {l : Label} (h : undisturbed y k l = true) : ¬ l.disturbs y := by
  cases l with
  | drop z => simpa [undisturbed, Label.disturbs] using h
  | synchronized i ok full => simpa [undisturbed, Label.disturbs] using h
  | stop => exact absurd h (by simp [undisturbed])
  | _ => exact id

/-- What it has read decides what was queued and whether it was destroyed. -/
def Decided (y : Nat) (k : Collector) : Prop :=
  k.healthy = true → ∀ socket, k.sockets[y]? = some socket →
    k.framesOf y = validPrefix socket.received ∧
      (socket.destroyed = true ↔ refused socket.received = true)

/-- Where the first `j` lines are frames, the next one decides how it goes on. -/
theorem takeWhile_split {lines : List Bytes} {j : Nat} {line : Bytes}
    (hframes : ∀ line ∈ lines.take j, isFrame line = true) (hline : lines[j]? = some line) :
    lines.takeWhile isFrame =
      lines.take j ++ (line :: lines.drop (j + 1)).takeWhile isFrame := by
  have hdrop : lines.drop j = line :: lines.drop (j + 1) := by
    rw [List.drop_eq_getElem?_toList_append, hline]
    rfl
  calc lines.takeWhile isFrame
      = (lines.take j ++ lines.drop j).takeWhile isFrame := by rw [List.take_append_drop]
    _ = lines.take j ++ (lines.drop j).takeWhile isFrame := List.takeWhile_append_of_pos hframes
    _ = _ := by rw [hdrop]

theorem refused_of_line {stream : Bytes} (line : Bytes) (hline : line ∈ (Lines.cut stream).1)
    (hbad : isFrame line = false) : refused stream = true := by
  rw [refused, Bool.or_eq_true, Bool.not_eq_true', List.all_eq_false]
  exact Or.inl ⟨line, hline, by rw [hbad]; simp⟩

theorem refused_eq_false {stream : Bytes} (hlines : ∀ line ∈ (Lines.cut stream).1, isFrame line = true)
    (hshort : (Lines.cut stream).2.length ≤ 4096) : refused stream = false := by
  rw [refused, Bool.or_eq_false_iff, Bool.not_eq_false', List.all_eq_true]
  exact ⟨hlines, decide_eq_false (Nat.not_lt.mpr hshort)⟩

theorem Framed.decided_data {chunk : Bytes} {j : Nat} (h : Framed k)
    (hfed : Fed k k' y chunk socket socket' j) (hhealthy : k.healthy = true)
    (hok : undisturbed y k (.data y chunk) = true) :
    k'.framesOf y = validPrefix socket'.received ∧
      (socket'.destroyed = true ↔ refused socket'.received = true) := by
  have hframed' := h.fed hfed
  have hset : k'.sockets[y]? = some socket' := by
    rw [hfed.sockets, Table.getElem?_set_of_some hfed.before]
  simp only [undisturbed, bne_self_eq_false, Bool.false_or, hfed.before, Option.all_some,
    Bool.and_eq_true, decide_eq_true_eq] at hok
  obtain ⟨hchunk, hroom⟩ := hok
  obtain ⟨hcut, hrest⟩ := h.cut_received hfed
  have hqueued : k'.framesOf y =
      k.framesOf y ++ (Lines.cut (socket.remainder ++ chunk)).1.take j := by
    rw [framesOf_append hfed.accepted, if_pos rfl]
  have hvalid : validPrefix socket'.received =
      k.framesOf y ++ validPrefix (socket.remainder ++ chunk) := by
    rw [validPrefix, hcut, List.takeWhile_append_of_pos h.frames]
    rfl
  cases hgone : socket'.destroyed with
  | false =>
      obtain ⟨hall, hleft, hshort⟩ := hfed.kept hgone
      obtain ⟨hsame, hremainder, _⟩ := hframed'.opened y socket' hset hgone
      have hlines : ∀ line ∈ (Lines.cut socket'.received).1, isFrame line = true := by
        rw [← hsame]
        exact hframed'.frames
      refine ⟨?_, ?_⟩
      · rw [validPrefix, List.takeWhile_eq_self_iff.mpr hlines, hsame]
      · rw [refused_eq_false hlines (by rw [← hremainder]; omega)]
  | true =>
      rw [hqueued, hvalid]
      rcases hfed.lost hgone with hunhealthy | hlong | ⟨line, hline, hwhy⟩ | ⟨hall, hlong⟩
      · exact absurd (hhealthy.symm.trans hunhealthy) (by simp)
      · omega
      · -- A frame that is valid has found room, so this one is not.
        have hsplit := takeWhile_split hfed.frames hline
        have hbad : isFrame line = false := by
          rcases hwhy with hbad | hfull
          · exact hbad
          · by_contra hgood
            rw [List.takeWhile_cons_of_pos (by simpa using hgood)] at hsplit
            have hlength : (validPrefix (socket.remainder ++ chunk)).length =
                ((Lines.cut (socket.remainder ++ chunk)).1.take j).length + _ :=
              (congrArg List.length hsplit).trans List.length_append
            have hlt := Table.lt_of_getElem? hline
            rw [List.length_take, List.length_cons] at hlength
            have := hroom j (by omega)
            omega
        rw [List.takeWhile_cons_of_neg (by rw [hbad]; simp), List.append_nil] at hsplit
        refine ⟨congrArg _ hsplit.symm, ?_⟩
        have hmem : line ∈ (Lines.cut socket'.received).1 := by
          rw [hcut]
          exact List.mem_append_right _ (List.mem_of_getElem? hline)
        rw [refused_of_line _ hmem hbad]
      · refine ⟨?_, ?_⟩
        · rw [validPrefix, hall, List.takeWhile_eq_self_iff.mpr (by rw [← hall]; exact hfed.frames)]
        · have hrefused : refused socket'.received = true := by
            rw [refused, hrest, Bool.or_eq_true]
            exact Or.inr (decide_eq_true hlong)
          rw [hrefused]

theorem Framed.decided_same {l : Label} (h : Framed k) (hdecided : Decided y k)
    (hkept : k'.healthy = true → k.healthy = true) (hok : undisturbed y k l = true)
    (hsame : SameStreams opens (fun y => k'.healthy = false ∨ l.disturbs y) k k') : Decided y k' := by
  intro hhealthy socket' hsocket'
  rw [framesOf_eq hsame.accepted]
  by_cases hlt : y < k.sockets.length
  · obtain ⟨socket, hsocket, hreceived, _, _, hdestroyed⟩ := hsame.old y socket' hsocket' hlt
    have hsame' : socket'.destroyed = socket.destroyed := by
      rcases hdestroyed with heq | ⟨_, hunhealthy | hdisturbed⟩
      · exact heq
      · exact absurd (hhealthy.symm.trans hunhealthy) (by simp)
      · exact absurd hdisturbed (not_disturbs hok)
    rw [hreceived, hsame']
    exact hdecided (hkept hhealthy) socket hsocket
  · obtain ⟨hreceived, _, hdestroyed⟩ := hsame.new y socket' hsocket' (Nat.le_of_not_lt hlt)
    rw [h.framesOf_nil (Nat.le_of_not_lt hlt), hreceived, hdestroyed]
    exact ⟨rfl, by simp [refused, Lines.cut]⟩

theorem decided_of_reachableIn
    (h : (machine setup).ReachableIn (fun k l => undisturbed y k l = true) k) : Decided y k := by
  refine h.invariant (fun _ socket hsocket => absurd hsocket (by simp [machine, start])) ?_
  intro k l k' hreach hdecided hok hstep
  have hframed := framed_of_reachable hreach.reachable
  have hkept : k'.healthy = true → k.healthy = true := by
    intro hhealthy
    by_contra hunhealthy
    have hstopped := stopped_of_leads hreach.reachable (Machine.Leads.single hstep)
      (Bool.eq_false_iff.mpr hunhealthy)
    exact absurd (hhealthy.symm.trans hstopped.unhealthy) (by simp)
  replace hstep : k.step setup l = some k' := hstep
  by_cases hl : ∃ z chunk, l = .data z chunk
  · obtain ⟨z, chunk, rfl⟩ := hl
    obtain ⟨socket, socket', j, hfed⟩ := data_fed hstep
    by_cases hz : z = y
    · subst hz
      intro hhealthy other hother
      rw [hfed.sockets, Table.getElem?_set_of_some hfed.before] at hother
      obtain rfl := Option.some.inj hother
      exact hframed.decided_data hfed (hkept hhealthy) hok
    · intro hhealthy other hother
      rw [hfed.sockets, Table.getElem?_set_of_ne (Ne.symm hz)] at hother
      rw [framesOf_append hfed.accepted, if_neg (Ne.symm hz), List.append_nil]
      exact hdecided (hkept hhealthy) other hother
  · exact hframed.decided_same hdecided hkept hok
      (step_sameStreams hstep (fun z chunk heq => hl ⟨z, chunk, heq⟩))

/-! ## The whole stream -/

theorem validPrefix_append (got more : Bytes) :
    validPrefix (got ++ more) = if (Lines.cut got).1.all isFrame
      then (Lines.cut got).1 ++ validPrefix ((Lines.cut got).2 ++ more)
      else validPrefix got := by
  rw [validPrefix, Lines.cut_append_remainder]
  split
  · next hall => exact List.takeWhile_append_of_pos (List.all_eq_true.mp hall)
  · next hall =>
      obtain ⟨line, hline, hbad⟩ := List.all_eq_false.mp (Bool.eq_false_iff.mpr hall)
      rw [List.takeWhile_append, if_neg]
      · rfl
      · intro hlength
        have hsame := List.IsPrefix.eq_of_length (List.takeWhile_prefix isFrame) hlength
        exact hbad (List.takeWhile_eq_self_iff.mp hsame line hline)

/-- Once a stream is refused, it does not matter how it goes on. -/
theorem refused_append {got : Bytes} (hrefused : refused got = true) (more : Bytes) :
    validPrefix (got ++ more) = validPrefix got ∧ refused (got ++ more) = true := by
  rw [validPrefix_append]
  by_cases hall : (Lines.cut got).1.all isFrame = true
  · -- Too much was left without a newline: what it becomes is still too long.
    have hlong : 4096 < (Lines.cut got).2.length := by
      rw [refused, hall] at hrefused
      simpa using hrefused
    have hgot : validPrefix got = (Lines.cut got).1 :=
      List.takeWhile_eq_self_iff.mpr (List.all_eq_true.mp hall)
    rw [if_pos hall, hgot, validPrefix]
    cases hcut : (Lines.cut ((Lines.cut got).2 ++ more)).1 with
    | nil =>
        have hflatten := Lines.cut_flatten ((Lines.cut got).2 ++ more)
        rw [hcut, List.flatten_nil, List.nil_append] at hflatten
        refine ⟨by simp, ?_⟩
        rw [refused, Lines.cut_append_remainder, hflatten, Bool.or_eq_true, decide_eq_true_eq,
          List.length_append]
        exact Or.inr (by omega)
    | cons line later =>
        have hlength := Lines.length_lt_of_cut (Lines.newline_not_mem_remainder got) hcut
        have hbad : isFrame line = false := by
          rw [isFrame, decide_eq_false (by omega), Bool.false_and]
        refine ⟨by rw [List.takeWhile_cons_of_neg (by rw [hbad]; simp), List.append_nil], ?_⟩
        refine refused_of_line line ?_ hbad
        rw [Lines.cut_append_remainder, hcut]
        simp
  · obtain ⟨line, hline, hbad⟩ := List.all_eq_false.mp (Bool.eq_false_iff.mpr hall)
    refine ⟨if_neg hall, refused_of_line line ?_ (Bool.eq_false_iff.mpr hbad)⟩
    rw [Lines.cut_append_remainder]
    exact List.mem_append_left _ hline

/-- The socket has been given this stream, in chunks: all of it, or what came before it was
    destroyed. -/
def Delivered (stream : Bytes) (socket : CollectorSocket) : Prop :=
  socket.received <+: stream ∧ (socket.destroyed = false → socket.received = stream)

/-- What the handler makes of a stream. -/
structure ParsedAs (k : Collector) (y : Nat) (socket : CollectorSocket) (stream : Bytes) : Prop where
  queued : k.framesOf y = validPrefix stream
  /-- The octets of the frames are those at the start of the stream. -/
  octets : (k.framesOf y).flatten <+: stream
  destroyed : socket.destroyed = true ↔ refused stream = true

theorem parsedAs_of_delivered {stream : Bytes}
    (h : (machine setup).ReachableIn (fun k l => undisturbed y k l = true) k)
    (hhealthy : k.healthy = true) (hsocket : k.sockets[y]? = some socket)
    (hdelivered : Delivered stream socket) : ParsedAs k y socket stream := by
  obtain ⟨hqueued, hdestroyed⟩ := decided_of_reachableIn h hhealthy socket hsocket
  have key : k.framesOf y = validPrefix stream ∧
      (socket.destroyed = true ↔ refused stream = true) := by
    cases hgone : socket.destroyed with
    | false =>
        rw [← hdelivered.2 hgone, ← hdestroyed, hgone]
        exact ⟨hqueued, by simp⟩
    | true =>
        obtain ⟨more, rfl⟩ := hdelivered.1
        obtain ⟨hsame, hrefused⟩ := refused_append (hdestroyed.mp hgone) more
        exact ⟨hqueued.trans hsame.symm, by rw [hrefused]⟩
  refine ⟨key.1, ?_, key.2⟩
  rw [key.1]
  have hflatten := Lines.cut_flatten stream
  obtain ⟨later, hlater⟩ := List.takeWhile_prefix (l := (Lines.cut stream).1) isFrame
  refine ⟨later.flatten ++ (Lines.cut stream).2, ?_⟩
  rw [← List.append_assoc, ← List.flatten_append, validPrefix, hlater, hflatten]

end Collector

/-! ## The lines of the sinks -/

namespace Sinks

variable {s s' : Sinks} {c x : Nat} {client : SocketAuditSink}

/-- No line that waits to be sent or was sent is longer than a frame may be. -/
structure Short (s : Sinks) : Prop where
  pending : ∀ (c : Nat) client, s.clients[c]? = some client →
    ∀ item ∈ client.pending, item.line.length ≤ 4096
  sent : ∀ (x : Nat) conn, s.connections[x]? = some conn →
    ∀ item ∈ conn.sent, item.line.length ≤ 4096

/-- One client is replaced, and what was written stays. -/
theorem Short.update (h : Short s) (client : SocketAuditSink)
    (hclients : s'.clients = s.clients.set c client)
    (hpending : ∀ item ∈ client.pending, item.line.length ≤ 4096)
    (hconnections : ∀ (x : Nat) conn', s'.connections[x]? = some conn' →
      conn'.sent = [] ∨ ∃ conn, s.connections[x]? = some conn ∧ conn'.sent = conn.sent) :
    Short s' := by
  constructor
  case pending =>
    rw [hclients]
    exact Table.forall_set h.pending hpending
  case sent =>
    intro x conn' hconn' item hitem
    rcases hconnections x conn' hconn' with hnil | ⟨conn, hconn, hsent⟩
    · rw [hnil] at hitem
      exact absurd hitem (by simp)
    · rw [hsent] at hitem
      exact h.sent x conn hconn item hitem

theorem Short.called (h : Short s) (event : Json) (hclient : s.clients[c]? = some client)
    (hrefuses : refuses client event.line = false) : Short (s.call c client event.line) := by
  have hpending : ∀ item ∈ client.pending ++ [⟨s.records.length, event.line⟩],
      item.line.length ≤ 4096 := by
    intro item hitem
    rcases List.mem_append.mp hitem with hin | hlast
    · exact h.pending c client hclient item hin
    · obtain rfl := List.mem_singleton.mp hlast
      exact (refuses_eq_false hrefuses).2.2.2
  unfold call
  split
  · refine h.update (c := c) { client with
      pending := client.pending ++ [⟨s.records.length, event.line⟩]
      socket := some s.connections.length } (List.set_set _) hpending ?_
    intro x conn' hconn'
    rcases Table.getElem?_append_cases hconn' with hin | ⟨_, rfl⟩
    · exact Or.inr ⟨conn', hin, rfl⟩
    · exact Or.inl rfl
  · exact h.update { client with pending := client.pending ++ [⟨s.records.length, event.line⟩] } rfl
      hpending (fun x conn' hconn' => Or.inr ⟨conn', hconn', rfl⟩)

theorem Short.move (h : Short s) (hmove : Move s s') : Short s' := by
  cases hmove with
  | created => exact ⟨Table.forall_append h.pending (by simp), h.sent⟩
  | refused c client event _ _ => exact ⟨h.pending, h.sent⟩
  | called c client event hclient hrefuses => exact h.called event hclient hrefuses
  | wrote c client x item conn returned hclient hsocket hconnected hitem hconn =>
      have hshort := h.pending c client hclient
      rw [write, hconn]
      refine ⟨Table.forall_set h.pending hshort, Table.forall_set h.sent ?_⟩
      intro other hother
      rcases List.mem_append.mp hother with hin | hlast
      · exact h.sent x conn hconn other hin
      · rw [List.mem_singleton.mp hlast]
        exact hshort item (List.mem_of_getElem? hitem)
  | flagged c client client' hclient hpending _ _ _ _ _ _ _ =>
      refine h.update _ rfl ?_ (fun x conn' hconn' => Or.inr ⟨conn', hconn', rfl⟩)
      rw [hpending]
      exact h.pending c client hclient
  | failed c client client' _ hpending _ _ _ _ =>
      refine h.update _ rfl ?_ (fun x conn' hconn' => Or.inr ⟨conn', hconn', rfl⟩)
      rw [hpending]
      simp
  | detached c client hclient _ =>
      exact h.update _ rfl (h.pending c client hclient)
        (fun x conn' hconn' => Or.inr ⟨conn', hconn', rfl⟩)
  | ignored x octets conn hconn _ =>
      rw [read, hconn]
      exact ⟨h.pending, Table.forall_set h.sent (h.sent x conn hconn)⟩
  | acknowledged c client x conn octets hclient _ hconn _ =>
      rw [read, hconn]
      refine ⟨Table.forall_set h.pending ?_, Table.forall_set h.sent (h.sent x conn hconn)⟩
      exact fun item hitem => h.pending c client hclient item (List.mem_of_mem_drop hitem)

theorem short_of_reachable (h : machine.Reachable s) : Short s := by
  refine invariant_of_moves ⟨?_, ?_⟩ (fun _ _ hs hmove => hs.move hmove) h
  · exact fun c client hclient => absurd hclient (by simp [machine])
  · exact fun x conn hconn => absurd hconn (by simp [machine])

end Sinks

/-! ## Frames and chunks -/

namespace Collector

/-- `event.schema === 1` and `event.requestId` is a string. -/
def HasFields (event : Json) : Prop :=
  (event.property (js "schema")).any Json.isOne = true ∧
    (event.property (js "requestId")).any Json.isString = true

theorem isFrame_line {event : Json} (hfields : HasFields event)
    (hshort : event.line.length ≤ 4096) : isFrame event.line = true := by
  rw [isFrame, decide_eq_true hshort, Bool.true_and, isRecord, Json.parse_line]
  exact (Bool.and_eq_true _ _).mpr hfields

/-- A frame at the start of a stream is taken off it. -/
theorem validPrefix_frame {line : Bytes} (hline : Lines.IsLine line) (hframe : isFrame line = true)
    (more : Bytes) : validPrefix (line ++ more) = line :: validPrefix more ∧
      refused (line ++ more) = refused more := by
  rw [validPrefix, refused, Lines.cut_line hline]
  exact ⟨List.takeWhile_cons_of_pos hframe, by rw [List.all_cons, hframe, Bool.true_and]; rfl⟩

variable {setup setup' : JournalSetup} {k k' : Collector} {y y' : Nat}
variable {socket socket' : CollectorSocket}

/-- Two collectors that are given one stream, each in its own chunks, queue the same frames from it,
    and destroy the socket or not, as its octets have it. What a sink sends for an event with the
    two fields is one frame wherever it stands. -/
theorem frames_of_stream {stream : Bytes}
    (hrun : (machine setup).ReachableIn (fun k l => undisturbed y k l = true) k)
    (hhealthy : k.healthy = true) (hsocket : k.sockets[y]? = some socket)
    (hdelivered : Delivered stream socket)
    (hrun' : (machine setup').ReachableIn (fun k l => undisturbed y' k l = true) k')
    (hhealthy' : k'.healthy = true) (hsocket' : k'.sockets[y']? = some socket')
    (hdelivered' : Delivered stream socket') :
    ParsedAs k y socket stream ∧ ParsedAs k' y' socket' stream ∧
      k.framesOf y = k'.framesOf y' ∧ socket.destroyed = socket'.destroyed ∧
      (∀ (s : Sinks) (x : Nat) (conn : Connection), Sinks.machine.Reachable s →
        s.connections[x]? = some conn → ∀ item ∈ conn.sent, ∀ event : Json, item.line = event.line → HasFields event →
          ∀ more, validPrefix (item.line ++ more) = item.line :: validPrefix more ∧
            refused (item.line ++ more) = refused more) := by
  have hparsed := parsedAs_of_delivered hrun hhealthy hsocket hdelivered
  have hparsed' := parsedAs_of_delivered hrun' hhealthy' hsocket' hdelivered'
  refine ⟨hparsed, hparsed', hparsed.queued.trans hparsed'.queued.symm, ?_, ?_⟩
  · rw [Bool.eq_iff_iff]
    exact hparsed.destroyed.trans hparsed'.destroyed.symm
  · intro s x conn hreach hconn item hitem event hline hfields more
    have hshort := (Sinks.short_of_reachable hreach).sent x conn hconn item hitem
    rw [hline] at hshort ⊢
    exact validPrefix_frame (Json.isLine_line event) (isFrame_line hfields hshort) more

/-- The records of a stream, and then a line that is none. -/
def sampleStream : Bytes := minimalRecord.line ++ (minimalRecord.line ++ [0x78, 0x0A])

/-- In one chunk. -/
def atOnce : List Label := [.accept, .data 0 sampleStream]

/-- In three chunks, cut inside the frames; the last octets arrive after a sync. -/
def inPieces : List Label :=
  [.accept, .data 0 (sampleStream.take 7), .data 0 ((sampleStream.drop 7).take 30), .run 0,
    .append 0 minimalRecord.line.length, .appended 0 true, .synchronized 0 true [],
    .data 0 (sampleStream.drop 37)]

theorem frames_of_stream_inPieces : ∃ (k k' : Collector) (socket socket' : CollectorSocket), k.framesOf 0 = k'.framesOf 0 ∧
    k.framesOf 0 = [minimalRecord.line, minimalRecord.line] ∧ socket.destroyed = true ∧
    socket'.destroyed = true ∧ ParsedAs k 0 socket sampleStream ∧
    ParsedAs k' 0 socket' sampleStream := by
  have hrun : ∃ (k : Collector) (socket : CollectorSocket), (machine emptyJournal).execIn (fun k l => undisturbed 0 k l)
      (.start emptyJournal) atOnce = some k ∧ k.healthy = true ∧ k.sockets[0]? = some socket ∧
      socket.received = sampleStream ∧ k.framesOf 0 = [minimalRecord.line, minimalRecord.line] ∧
      socket.destroyed = true :=
    ⟨_, _, rfl, rfl, rfl, rfl, rfl, rfl⟩
  have hrun' : ∃ (k : Collector) (socket : CollectorSocket), (machine emptyJournal).execIn (fun k l => undisturbed 0 k l)
      (.start emptyJournal) inPieces = some k ∧ k.healthy = true ∧ k.sockets[0]? = some socket ∧
      socket.received = sampleStream ∧ socket.destroyed = true :=
    ⟨_, _, rfl, rfl, rfl, rfl, rfl⟩
  obtain ⟨k, socket, hexec, hhealthy, hsocket, hreceived, hframes, hgone⟩ := hrun
  obtain ⟨k', socket', hexec', hhealthy', hsocket', hreceived', hgone'⟩ := hrun'
  have hdelivered : Delivered sampleStream socket := ⟨hreceived ▸ List.prefix_rfl, fun _ => hreceived⟩
  have hdelivered' : Delivered sampleStream socket' := ⟨hreceived' ▸ List.prefix_rfl, fun _ => hreceived'⟩
  obtain ⟨hparsed, hparsed', hsame, _⟩ := frames_of_stream
    (Machine.leadsIn_of_execIn (M := machine emptyJournal) hexec) hhealthy hsocket hdelivered
    (Machine.leadsIn_of_execIn (M := machine emptyJournal) hexec') hhealthy' hsocket' hdelivered'
  exact ⟨k, k', socket, socket', hsame, hframes, hgone, hgone', hparsed, hparsed'⟩

end Collector

end SecureMcp
