import SecureMcp.Collector.Collector
import SecureMcp.Lib.Table
import Mathlib.Logic.Relation

set_option autoImplicit false

/-! # What a step of the collector can do

A chunk queues frames one after another, and a completed sync may start the next batch, so a step is
a sequence of moves. -/

namespace SecureMcp

namespace Collector

variable {setup : JournalSetup} {k k' k'' : Collector} {y i : Nat}

/-- A frame that may be queued. -/
def isFrame (line : Bytes) : Bool := decide (line.length ≤ 4096) && isRecord line

/-- A socket is as it was, as far as the collector's answers go. -/
def SameAnswers (sockets sockets' : List CollectorSocket) : Prop :=
  sockets'.length = sockets.length ∧ ∀ (y : Nat) socket', sockets'[y]? = some socket' →
    ∃ socket, sockets[y]? = some socket ∧ socket'.written = socket.written

inductive Move (setup : JournalSetup) (k : Collector) : Collector → Prop
  | accepted : Move setup k { k with sockets := k.sockets ++ [{}] }
  | pushed (y : Nat) (frame : Bytes) (hhealthy : k.healthy = true) (hpending : k.pending < 1024)
      (hframe : isFrame frame = true) (hline : Lines.IsLine frame) (hsocket : y < k.sockets.length) :
      Move setup k (k.push y frame)
  | quiet (sockets : List CollectorSocket) (stopping : Bool)
      (hsame : SameAnswers k.sockets sockets) : Move setup k { k with sockets, stopping }
  | finished (i : Nat) (hloop : k.loops[i]? = some .scheduled) (hqueue : k.queue = []) :
      Move setup k (k.finish i)
  | started (i : Nat) (hloop : k.loops[i]? = some .scheduled) (hqueue : k.queue ≠ [])
      (hhealthy : k.healthy = true)
      (hfits : k.bytes + (dataOf (k.queue.take 64)).length ≤ setup.maxBytes) :
      Move setup k
        { k with
          queue := k.queue.drop 64
          loops := k.loops.set i (.writing (k.queue.take 64) 0)
          handed := k.handed ++ k.queue.take 64 }
  | wrote (i : Nat) (batch : List QueuedFrame) (written count : Nat)
      (hloop : k.loops[i]? = some (.writing batch written))
      (hcount : written + count ≤ (dataOf batch).length) :
      Move setup k
        { k with
          journal := k.journal ++ ((dataOf batch).drop written).take count
          loops := k.loops.set i (.writing batch (written + count)) }
  | syncing (i : Nat) (batch : List QueuedFrame)
      (hloop : k.loops[i]? = some (.writing batch (dataOf batch).length)) :
      Move setup k { k with loops := k.loops.set i (.syncing batch) }
  | settled (i : Nat) (batch : List QueuedFrame) (full : List Nat)
      (hloop : k.loops[i]? = some (.syncing batch)) :
      Move setup k { k.settled batch full with loops := k.loops.set i .scheduled }
  /-- The journal is full, or an append or a sync has failed. -/
  | failed (i : Nat) (loop : FlushLoop) (appendFailed : Bool) (hloop : k.loops[i]? = some loop)
      (happend : appendFailed = false → (k.appendFailed = false ∧
        ∀ batch written, loop ≠ .writing batch written)) :
      Move setup k (unavailable { k with appendFailed } i)

/-- Zero or more moves. -/
def Moves (setup : JournalSetup) : Collector → Collector → Prop := Relation.ReflTransGen (Move setup)

theorem Moves.refl (k : Collector) : Moves setup k k := Relation.ReflTransGen.refl

theorem Moves.trans (h : Moves setup k k') (h' : Moves setup k' k'') : Moves setup k k'' :=
  Relation.ReflTransGen.trans h h'

theorem Move.moves (h : Move setup k k') : Moves setup k k' := Relation.ReflTransGen.single h

theorem Move.then (h : Move setup k k') (h' : Moves setup k' k'') : Moves setup k k'' :=
  Relation.ReflTransGen.head h h'

theorem Moves.invariant {I : Collector → Prop} (h : Moves setup k k') (hk : I k)
    (hmove : ∀ k k', I k → Move setup k k' → I k') : I k' := by
  induction h with
  | refl => exact hk
  | tail _ hlast ih => exact hmove _ _ ih hlast

/-! ## Sockets -/

theorem sameAnswers_set {sockets : List CollectorSocket} {socket socket' : CollectorSocket}
    (hsocket : sockets[y]? = some socket) (hwritten : socket'.written = socket.written) :
    SameAnswers sockets (sockets.set y socket') := by
  refine ⟨List.length_set, ?_⟩
  intro z other hother
  rcases Table.getElem?_set_cases hother with ⟨rfl, rfl⟩ | ⟨_, hin⟩
  · exact ⟨socket, hsocket, hwritten⟩
  · exact ⟨other, hin, rfl⟩

theorem sameAnswers_destroyAll (k : Collector) : SameAnswers k.sockets k.destroyAll.sockets := by
  refine ⟨List.length_map _, ?_⟩
  intro z other hother
  obtain ⟨socket, hsocket, rfl⟩ := Option.map_eq_some_iff.mp ((List.getElem?_map ..).symm.trans hother)
  exact ⟨socket, hsocket, rfl⟩

theorem push_sockets (k : Collector) (y : Nat) (frame : Bytes) :
    (k.push y frame).sockets = k.sockets := by
  unfold push flush
  split <;> rfl

theorem push_healthy (k : Collector) (y : Nat) (frame : Bytes) :
    (k.push y frame).healthy = k.healthy := by
  unfold push flush
  split <;> rfl

theorem offer_sockets (k : Collector) (y : Nat) (frames : List Bytes) :
    (k.offer y frames).1.sockets = k.sockets := by
  fun_induction offer y k frames with
  | case1 | case2 | case3 => rfl
  | case4 k frame later _ _ ih => rw [ih, push_sockets]

theorem offer_moves {frames : List Bytes} (hhealthy : k.healthy = true)
    (hsocket : y < k.sockets.length) (hlines : ∀ frame ∈ frames, Lines.IsLine frame) :
    Moves setup k (k.offer y frames).1 := by
  fun_induction offer y k frames with
  | case1 | case2 | case3 => exact Moves.refl _
  | case4 k frame later hbound hrecord ih =>
      simp only [Bool.or_eq_true, decide_eq_true_eq, not_or, Nat.not_le] at hbound
      have hframe : isFrame frame = true := by
        rw [isFrame, Bool.and_eq_true, decide_eq_true_eq]
        exact ⟨Nat.le_of_not_lt hbound.1, by simpa using hrecord⟩
      have hmove : Move setup k (k.push y frame) :=
        .pushed y frame hhealthy hbound.2 hframe (hlines frame List.mem_cons_self) hsocket
      refine hmove.then (ih ?_ ?_ ?_)
      · rw [push_healthy]
        exact hhealthy
      · rw [push_sockets]
        exact hsocket
      · exact fun other hother => hlines other (List.mem_cons_of_mem _ hother)

theorem setSocket_move {socket socket' : CollectorSocket} (hsocket : k.sockets[y]? = some socket)
    (hwritten : socket'.written = socket.written) : Move setup k (k.setSocket y socket') :=
  .quiet (k.sockets.set y socket') k.stopping (sameAnswers_set hsocket hwritten)

theorem handle_moves {socket socket' : CollectorSocket} {chunk : Bytes}
    (hsocket : k.sockets[y]? = some socket) (hwritten : socket'.written = socket.written) :
    Moves setup k (k.handle y socket' chunk) := by
  unfold handle
  split
  · refine Move.moves (setSocket_move hsocket ?_)
    exact hwritten
  · next hopen =>
      simp only [Bool.or_eq_true, not_or, Bool.not_eq_true, Bool.not_eq_false'] at hopen
      have hoffered : Moves setup k (k.offer y (Lines.cut (socket'.remainder ++ chunk)).1).1 :=
        offer_moves hopen.1 (Table.lt_of_getElem? hsocket) (Lines.cut_lines _)
      have hsame : (k.offer y (Lines.cut (socket'.remainder ++ chunk)).1).1.sockets[y]? =
          some socket := by
        rw [offer_sockets]
        exact hsocket
      split
      · refine hoffered.trans (Move.moves (setSocket_move hsame ?_))
        exact hwritten
      · refine hoffered.trans (Move.moves (setSocket_move hsame ?_))
        exact hwritten

theorem data_moves {chunk : Bytes} (h : k.data y chunk = some k') : Moves setup k k' := by
  unfold data at h
  split at h
  · exact absurd h (by simp)
  · next socket hsocket =>
      split at h
      · exact absurd h (by simp)
      · obtain rfl := Option.some.inj h
        exact handle_moves hsocket rfl

theorem drop_moves (h : k.drop y = some k') : Moves setup k k' := by
  unfold drop at h
  split at h
  · exact absurd h (by simp)
  · next socket hsocket =>
      split at h
      · exact absurd h (by simp)
      · obtain rfl := Option.some.inj h
        refine Move.moves (setSocket_move hsocket ?_)
        rfl

/-! ## The loop of `flush` -/

/-- From the condition of the loop: it returns, or it fails, or it starts a batch. -/
theorem next_moves (hloop : k.loops[i]? = some .scheduled) : Moves setup k (k.next setup i) := by
  unfold next
  split
  · next hempty => exact (Move.finished i hloop (List.isEmpty_iff.mp hempty)).moves
  · next hqueue =>
      split
      · exact (Move.failed i .scheduled k.appendFailed hloop (fun hf => ⟨hf, by simp⟩)).moves
      · next hgood =>
          simp only [Bool.or_eq_true, decide_eq_true_eq, not_or, Bool.not_eq_true,
            Bool.not_eq_false', Nat.not_lt] at hgood
          refine (Move.started i hloop (fun hnil => hqueue ?_) hgood.1 hgood.2).moves
          rw [hnil]
          rfl

theorem run_moves (h : k.run setup i = some k') : Moves setup k k' := by
  unfold run at h
  split at h
  · next hloop =>
      obtain rfl := Option.some.inj h
      exact next_moves hloop
  · exact absurd h (by simp)

theorem append_moves {count : Nat} (h : k.append i count = some k') : Moves setup k k' := by
  unfold append at h
  split at h
  · next batch written hloop =>
      split at h
      · exact absurd h (by simp)
      · next hcount =>
          obtain rfl := Option.some.inj h
          exact (Move.wrote i batch written count hloop (Nat.le_of_not_lt hcount)).moves
  · exact absurd h (by simp)

theorem appended_moves {ok : Bool} (h : k.appended i ok = some k') : Moves setup k k' := by
  unfold appended at h
  split at h
  · next batch written hloop =>
      split at h
      · split at h
        · next hall =>
            obtain rfl := Option.some.inj h
            rw [hall] at hloop
            exact (Move.syncing i batch hloop).moves
        · exact absurd h (by simp)
      · obtain rfl := Option.some.inj h
        exact (Move.failed i _ true hloop (by simp)).moves
  · exact absurd h (by simp)

/-- `next` does not look at the place from which it is reached. -/
theorem next_set (loop : FlushLoop) :
    next setup { k with loops := k.loops.set i loop } i = k.next setup i := by
  have herase : (k.loops.set i loop).eraseIdx i = k.loops.eraseIdx i := List.eraseIdx_set_eq
  unfold next
  split
  · simp only [finish, herase]
  · split
    · simp only [unavailable, destroyAll, finish, herase]
    · simp only [List.set_set]

theorem synchronized_moves {ok : Bool} {full : List Nat}
    (h : k.synchronized setup i ok full = some k') : Moves setup k k' := by
  unfold synchronized at h
  split at h
  · next batch hloop =>
      split at h
      · obtain rfl := Option.some.inj h
        have hsettled : Move setup k { k.settled batch full with loops := k.loops.set i .scheduled } :=
          .settled i batch full hloop
        rw [← next_set .scheduled]
        exact hsettled.then (next_moves (Table.getElem?_set_of_some hloop))
      · obtain rfl := Option.some.inj h
        exact (Move.failed i _ k.appendFailed hloop (fun hf => ⟨hf, by simp⟩)).moves
  · exact absurd h (by simp)

/-- Every step is a sequence of moves. -/
theorem step_moves {l : Label} (h : k.step setup l = some k') : Moves setup k k' := by
  cases l with
  | accept =>
      replace h : k.accept = some k' := h
      unfold accept at h
      split at h
      · obtain rfl := Option.some.inj h
        exact Move.accepted.moves
      · exact absurd h (by simp)
  | data y chunk => exact data_moves h
  | drop y => exact drop_moves h
  | run i => exact run_moves h
  | append i count => exact append_moves h
  | appended i ok => exact appended_moves h
  | synchronized i ok full => exact synchronized_moves h
  | stop =>
      obtain rfl := Option.some.inj h
      exact (Move.quiet _ true (sameAnswers_destroyAll k)).moves

theorem invariant_of_moves {I : Collector → Prop} (hinit : I (.start setup))
    (hmove : ∀ k k', I k → Move setup k k' → I k') (h : (machine setup).Reachable k) : I k :=
  h.invariant hinit (fun _ _ _ _ hI hstep => (step_moves hstep).invariant hI hmove)

end Collector

end SecureMcp
