import Mathlib.Algebra.GroupWithZero.Nat
import SecureMcp.Collector.CollectorSteps
import SecureMcp.Lib.JsonLine

set_option autoImplicit false

/-! # The books of the collector

Between two I/O events `pending` counts the queue and the batch that is written, the journal holds
what was synced and the written part of that batch, and there is one loop of `flush` whenever
something is queued. After a failure nothing is left to do, and nothing more is done. -/

namespace SecureMcp

namespace FlushLoop

/-- The frames that a loop has taken from the queue. -/
def batch : FlushLoop → List QueuedFrame
  | scheduled => []
  | writing batch _ => batch
  | syncing batch => batch

/-- How many octets of them are in the journal. -/
def inProgress : FlushLoop → Nat
  | scheduled => 0
  | writing _ written => written
  | syncing batch => (dataOf batch).length

end FlushLoop

namespace Collector

variable {setup : JournalSetup} {k k' : Collector} {y i : Nat} {loop : FlushLoop}

/-- The batch that is written. -/
def batch (k : Collector) : List QueuedFrame := k.loops.flatMap FlushLoop.batch

/-- How many octets of it are in the journal. -/
def inProgress (k : Collector) : Nat := (k.loops.map FlushLoop.inProgress).sum

/-- What a collector that works has in its journal and in hand. -/
structure Working (setup : JournalSetup) (k : Collector) : Prop where
  accepted : k.accepted = k.handed ++ k.queue
  handed : k.handed = k.durable ++ k.batch
  journal : k.journal = setup.journal ++ dataOf k.durable ++ (dataOf k.batch).take k.inProgress
  bytes : k.bytes = k.synced
  fits : k.bytes + (dataOf k.batch).length ≤ setup.maxBytes
  inProgress : k.inProgress ≤ (dataOf k.batch).length

structure Books (setup : JournalSetup) (k : Collector) : Prop where
  loops : (k.flushing = false ∧ k.loops = []) ∨ (k.flushing = true ∧ ∃ loop, k.loops = [loop])
  pending : k.pending = k.queue.length + k.batch.length
  bound : k.pending ≤ 1024
  scheduled : k.queue ≠ [] → k.flushing = true
  synced : k.synced = (setup.journal ++ dataOf k.durable).length
  durable : setup.journal ++ dataOf k.durable <+: k.journal
  journal : k.journal <+: setup.journal ++ dataOf k.handed
  kept : k.durable <+: k.handed ∧ k.handed <+: k.accepted
  limit : k.journal.length ≤ setup.maxBytes
  /-- An acknowledgement is for a frame that was synced. -/
  answers : ∀ (y : Nat) socket, k.sockets[y]? = some socket →
    socket.written.length ≤ k.durable.countP (fun entry => entry.socket == y)
  working : k.healthy = true → Working setup k
  stuck : k.healthy = false → k.loops = [] ∧ k.queue = []
  whole : k.healthy = false → k.appendFailed = false →
    k.journal = setup.journal ++ dataOf k.handed
  unfailed : k.healthy = true → k.appendFailed = false

theorem dataOf_append (a b : List QueuedFrame) : dataOf (a ++ b) = dataOf a ++ dataOf b :=
  List.flatMap_append

theorem books_init : Books setup (.start setup) := by
  have hdata : setup.journal ++ dataOf [] = setup.journal := List.append_nil _
  constructor
  case loops => exact Or.inl ⟨rfl, rfl⟩
  case pending => rfl
  case bound => exact Nat.zero_le _
  case scheduled => exact fun h => absurd rfl h
  case synced => rw [show (start setup).durable = [] from rfl, hdata]; rfl
  case durable => rw [show (start setup).durable = [] from rfl, hdata]; exact List.prefix_rfl
  case journal => rw [show (start setup).handed = [] from rfl, hdata]; exact List.prefix_rfl
  case kept => exact ⟨List.prefix_rfl, List.prefix_rfl⟩
  case limit => exact setup.fits
  case answers =>
    intro y socket hsocket
    exact absurd hsocket (by simp [start])
  case working =>
    refine fun _ => ⟨rfl, rfl, ?_, rfl, setup.fits, Nat.zero_le _⟩
    show setup.journal = setup.journal ++ dataOf [] ++ [].take 0
    rw [hdata, List.take_nil, List.append_nil]
  case stuck => exact fun h => absurd h (by simp [start])
  case whole => exact fun h => absurd h (by simp [start])
  case unfailed => exact fun _ => rfl

/-! ## One loop -/

/-- There is one loop at most, so the loop that moves is the only one. -/
theorem Books.only (h : Books setup k) (hloop : k.loops[i]? = some loop) :
    i = 0 ∧ k.loops = [loop] ∧ k.flushing = true := by
  rcases h.loops with ⟨_, hnil⟩ | ⟨hflushing, other, hone⟩
  · rw [hnil] at hloop
    exact absurd hloop (by simp)
  · rw [hone] at hloop
    have hi : i = 0 := by
      have hlt := Table.lt_of_getElem? hloop
      simpa using hlt
    subst hi
    obtain rfl := Option.some.inj hloop
    exact ⟨rfl, hone, hflushing⟩

theorem batch_of (h : k.loops = [loop]) : k.batch = loop.batch := by
  rw [batch, h, List.flatMap_singleton]

theorem inProgress_of (h : k.loops = [loop]) : k.inProgress = loop.inProgress := by
  rw [inProgress, h]
  simp

theorem Books.healthy_of_loop (h : Books setup k) (hloop : k.loops = [loop]) : k.healthy = true := by
  cases hh : k.healthy with
  | true => rfl
  | false =>
      have hnil := (h.stuck hh).1
      rw [hloop] at hnil
      exact absurd hnil (by simp)

/-! ## Moves -/

section Push

variable (k y) (frame : Bytes)

theorem push_queue : (k.push y frame).queue = k.queue ++ [⟨frame, y⟩] := by
  unfold push flush
  split <;> rfl

theorem push_pending : (k.push y frame).pending = k.pending + 1 := by
  unfold push flush
  split <;> rfl

theorem push_accepted : (k.push y frame).accepted = k.accepted ++ [⟨frame, y⟩] := by
  unfold push flush
  split <;> rfl

theorem push_flushing : (k.push y frame).flushing = true := by
  unfold push flush
  split
  · next h => exact h
  · rfl

theorem push_loops :
    (k.push y frame).loops = if k.flushing then k.loops else k.loops ++ [.scheduled] := by
  unfold push flush
  split <;> simp_all

theorem push_batch : (k.push y frame).batch = k.batch := by
  rw [batch, push_loops]
  split
  · rfl
  · rw [List.flatMap_append]
    simp [batch, FlushLoop.batch]

theorem push_inProgress : (k.push y frame).inProgress = k.inProgress := by
  rw [inProgress, push_loops]
  split
  · rfl
  · rw [List.map_append, List.sum_append]
    simp [inProgress, FlushLoop.inProgress]

/-- What queueing a frame leaves. -/
theorem push_rest : (k.push y frame).journal = k.journal ∧ (k.push y frame).synced = k.synced ∧
    (k.push y frame).bytes = k.bytes ∧ (k.push y frame).handed = k.handed ∧
    (k.push y frame).durable = k.durable ∧ (k.push y frame).appendFailed = k.appendFailed := by
  unfold push flush
  split <;> exact ⟨rfl, rfl, rfl, rfl, rfl, rfl⟩

end Push

theorem Books.pushed (h : Books setup k) (frame : Bytes) (hhealthy : k.healthy = true)
    (hpending : k.pending < 1024) : Books setup (k.push y frame) := by
  obtain ⟨hjournal, hsynced, hbytes, hhanded, hdurable, hfailed⟩ := push_rest k y frame
  have hworking := h.working hhealthy
  constructor
  case loops =>
    refine Or.inr ⟨push_flushing k y frame, ?_⟩
    rw [push_loops]
    rcases h.loops with ⟨hidle, hnil⟩ | ⟨hflushing, loop, hone⟩
    · rw [hidle, hnil]
      exact ⟨_, rfl⟩
    · rw [hflushing]
      exact ⟨loop, hone⟩
  case pending =>
    rw [push_pending, push_queue, push_batch, h.pending, List.length_append, List.length_singleton]
    omega
  case bound =>
    rw [push_pending]
    omega
  case scheduled => exact fun _ => push_flushing k y frame
  case synced => rw [hsynced, hdurable]; exact h.synced
  case durable => rw [hdurable, hjournal]; exact h.durable
  case journal => rw [hjournal, hhanded]; exact h.journal
  case kept =>
    rw [hdurable, hhanded, push_accepted]
    exact ⟨h.kept.1, h.kept.2.trans (List.prefix_append _ _)⟩
  case limit => rw [hjournal]; exact h.limit
  case answers => rw [push_sockets, hdurable]; exact h.answers
  case working =>
    intro _
    constructor
    case accepted =>
      rw [push_accepted, hhanded, push_queue, hworking.accepted, List.append_assoc]
    case handed => rw [hhanded, hdurable, push_batch]; exact hworking.handed
    case journal => rw [hjournal, hdurable, push_batch, push_inProgress]; exact hworking.journal
    case bytes => rw [hbytes, hsynced]; exact hworking.bytes
    case fits => rw [hbytes, push_batch]; exact hworking.fits
    case inProgress => rw [push_batch, push_inProgress]; exact hworking.inProgress
  case stuck =>
    rw [push_healthy, hhealthy]
    exact fun hh => absurd hh (by simp)
  case whole =>
    rw [push_healthy, hhealthy]
    exact fun hh => absurd hh (by simp)
  case unfailed =>
    rw [hfailed]
    exact fun _ => h.unfailed hhealthy

/-- Only sockets change, and not what was written to them. -/
theorem Books.quiet (h : Books setup k) {sockets : List CollectorSocket} {stopping : Bool}
    (hsame : SameAnswers k.sockets sockets) : Books setup { k with sockets, stopping } := by
  refine { h with answers := ?_, working := ?_ }
  · intro y socket' hsocket'
    obtain ⟨socket, hsocket, hwritten⟩ := hsame.2 y socket' hsocket'
    rw [hwritten]
    exact h.answers y socket hsocket
  · intro hh
    exact { h.working hh with }

theorem Books.accepted (h : Books setup k) : Books setup { k with sockets := k.sockets ++ [{}] } := by
  refine { h with answers := ?_, working := ?_ }
  · exact Table.forall_append h.answers (Nat.zero_le _)
  · intro hh
    exact { h.working hh with }

theorem Books.finished (h : Books setup k) (hloop : k.loops[i]? = some .scheduled)
    (hqueue : k.queue = []) : Books setup (k.finish i) := by
  obtain ⟨rfl, hone, _⟩ := h.only hloop
  have hworking := h.working (h.healthy_of_loop hone)
  have hnil : (k.finish 0).loops = [] := by
    show k.loops.eraseIdx 0 = []
    rw [hone]
    rfl
  have hold : k.batch = [] := batch_of hone
  have hzero : k.inProgress = 0 := inProgress_of hone
  have hbatch : (k.finish 0).batch = [] := by rw [batch, hnil]; rfl
  have hprogress : (k.finish 0).inProgress = 0 := by rw [inProgress, hnil]; rfl
  refine { h with loops := Or.inl ⟨rfl, hnil⟩, pending := ?_, scheduled := ?_, working := ?_,
                  stuck := fun _ => ⟨hnil, hqueue⟩ }
  · have hpending := h.pending
    rw [hold] at hpending
    rw [hbatch]
    exact hpending
  · exact fun hne => absurd hqueue hne
  · refine fun _ => ⟨hworking.accepted, ?_, ?_, hworking.bytes, ?_, ?_⟩
    · rw [hbatch, ← hold]
      exact hworking.handed
    · rw [hbatch, hprogress, ← hold, ← hzero]
      exact hworking.journal
    · rw [hbatch, ← hold]
      exact hworking.fits
    · rw [hprogress]
      exact Nat.zero_le _

theorem Books.started (h : Books setup k) (hloop : k.loops[i]? = some .scheduled)
    (hfits : k.bytes + (dataOf (k.queue.take 64)).length ≤ setup.maxBytes) :
    Books setup
      { k with
        queue := k.queue.drop 64
        loops := k.loops.set i (.writing (k.queue.take 64) 0)
        handed := k.handed ++ k.queue.take 64 } := by
  obtain ⟨rfl, hone, hflushing⟩ := h.only hloop
  have hhealthy := h.healthy_of_loop hone
  have hworking := h.working hhealthy
  have hset : k.loops.set 0 (.writing (k.queue.take 64) 0) = [.writing (k.queue.take 64) 0] := by
    rw [hone]
    rfl
  have hold : k.batch = [] := batch_of hone
  have hsplit : k.queue.take 64 ++ k.queue.drop 64 = k.queue := List.take_append_drop 64 k.queue
  rw [hset]
  constructor
  case loops => exact Or.inr ⟨hflushing, _, rfl⟩
  case pending =>
    have hpending := h.pending
    have hlength := congrArg List.length hsplit
    rw [hold, List.length_nil] at hpending
    rw [List.length_append] at hlength
    rw [batch_of rfl]
    show k.pending = (k.queue.drop 64).length + (k.queue.take 64).length
    omega
  case bound => exact h.bound
  case scheduled => exact fun _ => hflushing
  case synced => exact h.synced
  case durable => exact h.durable
  case journal =>
    refine h.journal.trans ?_
    show _ <+: setup.journal ++ dataOf (k.handed ++ _)
    rw [dataOf_append, ← List.append_assoc]
    exact List.prefix_append _ _
  case kept =>
    refine ⟨h.kept.1.trans (List.prefix_append _ _), ?_⟩
    rw [hworking.accepted, List.prefix_append_right_inj]
    exact List.take_prefix 64 k.queue
  case limit => exact h.limit
  case answers => exact h.answers
  case working =>
    intro _
    constructor
    case accepted =>
      show k.accepted = k.handed ++ k.queue.take 64 ++ k.queue.drop 64
      rw [List.append_assoc, hsplit]
      exact hworking.accepted
    case handed =>
      rw [batch_of rfl]
      show k.handed ++ _ = k.durable ++ _
      rw [hworking.handed, hold, List.append_nil]
      rfl
    case journal =>
      have hjournal := hworking.journal
      rw [hold, show dataOf [] = [] from rfl, List.take_nil] at hjournal
      rw [inProgress_of rfl]
      exact hjournal
    case bytes => exact hworking.bytes
    case fits =>
      rw [batch_of rfl]
      exact hfits
    case inProgress =>
      rw [inProgress_of rfl]
      exact Nat.zero_le _
  case stuck => exact fun hh => absurd (hhealthy.symm.trans hh) (by simp)
  case whole => exact fun hh => absurd (hhealthy.symm.trans hh) (by simp)
  case unfailed => exact h.unfailed

theorem Books.wrote (h : Books setup k) {batch : List QueuedFrame} {written count : Nat}
    (hloop : k.loops[i]? = some (.writing batch written))
    (hcount : written + count ≤ (dataOf batch).length) :
    Books setup
      { k with
        journal := k.journal ++ ((dataOf batch).drop written).take count
        loops := k.loops.set i (.writing batch (written + count)) } := by
  obtain ⟨rfl, hone, hflushing⟩ := h.only hloop
  have hhealthy := h.healthy_of_loop hone
  have hworking := h.working hhealthy
  have hset : k.loops.set 0 (.writing batch (written + count)) =
      [.writing batch (written + count)] := by
    rw [hone]
    rfl
  have hbatch : k.batch = batch := batch_of hone
  have hprogress : k.inProgress = written := inProgress_of hone
  have hjournal : k.journal ++ ((dataOf batch).drop written).take count =
      setup.journal ++ dataOf k.durable ++ (dataOf batch).take (written + count) := by
    rw [hworking.journal, hbatch, hprogress, List.append_assoc, List.take_add]
  have hhanded : k.handed = k.durable ++ batch := hbatch ▸ hworking.handed
  rw [hset, hjournal]
  constructor
  case loops => exact Or.inr ⟨hflushing, _, rfl⟩
  case pending =>
    have hpending := h.pending
    rw [hbatch] at hpending
    rw [batch_of rfl]
    exact hpending
  case bound => exact h.bound
  case scheduled => exact h.scheduled
  case synced => exact h.synced
  case durable => exact List.prefix_append _ _
  case journal =>
    show _ <+: setup.journal ++ dataOf k.handed
    rw [hhanded, dataOf_append, ← List.append_assoc, List.prefix_append_right_inj]
    exact List.take_prefix _ _
  case kept => exact h.kept
  case limit =>
    have hfits := hworking.fits
    have hsynced := h.synced
    rw [hbatch, hworking.bytes] at hfits
    show (setup.journal ++ dataOf k.durable ++ (dataOf batch).take (written + count)).length ≤ _
    rw [List.length_append, ← hsynced, List.length_take]
    omega
  case answers => exact h.answers
  case working =>
    refine fun _ => ⟨hworking.accepted, ?_, ?_, hworking.bytes, ?_, ?_⟩
    · rw [batch_of rfl]
      exact hhanded
    · rw [batch_of rfl, inProgress_of rfl]
      rfl
    · have hfits := hworking.fits
      rw [hbatch] at hfits
      rw [batch_of rfl]
      exact hfits
    · rw [batch_of rfl, inProgress_of rfl]
      exact hcount
  case stuck => exact fun hh => absurd (hhealthy.symm.trans hh) (by simp)
  case whole => exact fun hh => absurd (hhealthy.symm.trans hh) (by simp)
  case unfailed => exact h.unfailed

theorem Books.syncing (h : Books setup k) {batch : List QueuedFrame}
    (hloop : k.loops[i]? = some (.writing batch (dataOf batch).length)) :
    Books setup { k with loops := k.loops.set i (.syncing batch) } := by
  obtain ⟨rfl, hone, hflushing⟩ := h.only hloop
  have hhealthy := h.healthy_of_loop hone
  have hworking := h.working hhealthy
  have hset : k.loops.set 0 (.syncing batch) = [.syncing batch] := by
    rw [hone]
    rfl
  have hbatch : k.batch = batch := batch_of hone
  have hprogress : k.inProgress = (dataOf batch).length := inProgress_of hone
  rw [hset]
  refine { h with loops := Or.inr ⟨hflushing, _, rfl⟩, pending := ?_, working := ?_, stuck := ?_ }
  · have hpending := h.pending
    rw [hbatch] at hpending
    rw [batch_of rfl]
    exact hpending
  · refine fun _ => ⟨hworking.accepted, ?_, ?_, hworking.bytes, ?_, ?_⟩
    · rw [batch_of rfl]
      exact hbatch ▸ hworking.handed
    · have hjournal := hworking.journal
      rw [hbatch, hprogress] at hjournal
      rw [batch_of rfl, inProgress_of rfl]
      exact hjournal
    · have hfits := hworking.fits
      rw [hbatch] at hfits
      rw [batch_of rfl]
      exact hfits
    · rw [batch_of rfl, inProgress_of rfl]
      exact Nat.le_refl _
  · exact fun hh => absurd (hhealthy.symm.trans hh) (by simp)

/-- The batch is on disk: its frames are answered and no longer pending. -/
theorem Books.settled (h : Books setup k) {batch : List QueuedFrame} (full : List Nat)
    (hloop : k.loops[i]? = some (.syncing batch)) :
    Books setup { k.settled batch full with loops := k.loops.set i .scheduled } := by
  obtain ⟨rfl, hone, hflushing⟩ := h.only hloop
  have hhealthy := h.healthy_of_loop hone
  have hworking := h.working hhealthy
  have hset : k.loops.set 0 .scheduled = [.scheduled] := by
    rw [hone]
    rfl
  have hbatch : k.batch = batch := batch_of hone
  have hprogress : k.inProgress = (dataOf batch).length := inProgress_of hone
  have hhanded : k.handed = k.durable ++ batch := hbatch ▸ hworking.handed
  have hjournal : k.journal = setup.journal ++ dataOf (k.durable ++ batch) := by
    have hparts := hworking.journal
    rw [hbatch, hprogress, List.take_length, List.append_assoc, ← dataOf_append] at hparts
    exact hparts
  have hlength : k.journal.length = k.bytes + (dataOf batch).length := by
    rw [hjournal, dataOf_append, ← List.append_assoc, List.length_append, ← h.synced,
      hworking.bytes]
  rw [hset]
  constructor
  case loops => exact Or.inr ⟨hflushing, _, rfl⟩
  case pending =>
    have hpending := h.pending
    rw [hbatch] at hpending
    rw [batch_of rfl]
    show k.pending - batch.length = k.queue.length + 0
    omega
  case bound => exact Nat.le_trans (Nat.sub_le _ _) h.bound
  case scheduled => exact h.scheduled
  case synced => exact congrArg List.length hjournal
  case durable =>
    show setup.journal ++ dataOf (k.durable ++ batch) <+: k.journal
    exact hjournal ▸ List.prefix_rfl
  case journal =>
    show k.journal <+: setup.journal ++ dataOf k.handed
    rw [hhanded]
    exact hjournal ▸ List.prefix_rfl
  case kept =>
    show k.durable ++ batch <+: k.handed ∧ k.handed <+: k.accepted
    rw [← hhanded]
    exact ⟨List.prefix_rfl, h.kept.2⟩
  case limit => exact h.limit
  case answers =>
    intro y socket' hsocket'
    replace hsocket' : (k.sockets.mapIdx (answer batch full))[y]? = some socket' := hsocket'
    rw [List.getElem?_mapIdx] at hsocket'
    obtain ⟨socket, hsocket, rfl⟩ := Option.map_eq_some_iff.mp hsocket'
    have hold := h.answers y socket hsocket
    show (answer batch full y socket).written.length ≤
      (k.durable ++ batch).countP (fun entry => entry.socket == y)
    rw [List.countP_append]
    unfold answer
    split
    · omega
    · split
      · show socket.written.length ≤ _
        omega
      · show (socket.written ++ List.replicate _ 6).length ≤ _
        rw [List.length_append, List.length_replicate]
        omega
  case working =>
    intro _
    constructor
    case accepted => exact hworking.accepted
    case handed =>
      rw [batch_of rfl]
      show k.handed = k.durable ++ batch ++ []
      rw [List.append_nil]
      exact hhanded
    case journal =>
      rw [batch_of rfl]
      show k.journal = setup.journal ++ dataOf (k.durable ++ batch) ++ (dataOf []).take _
      rw [show dataOf [] = [] from rfl, List.take_nil, List.append_nil]
      exact hjournal
    case bytes => exact hlength.symm
    case fits =>
      rw [batch_of rfl]
      show k.bytes + (dataOf batch).length + 0 ≤ setup.maxBytes
      have hfits := hworking.fits
      rw [hbatch] at hfits
      exact hfits
    case inProgress =>
      rw [inProgress_of rfl]
      exact Nat.zero_le _
  case stuck => exact fun hh => absurd (hhealthy.symm.trans hh) (by simp)
  case whole => exact fun hh => absurd (hhealthy.symm.trans hh) (by simp)
  case unfailed => exact h.unfailed

theorem unavailable_loops (h : k.loops = [loop]) (appendFailed : Bool) :
    (unavailable { k with appendFailed } 0).loops = [] := by
  show k.loops.eraseIdx 0 = []
  rw [h]
  rfl

/-- A batch that cannot be written ends the collector's work. -/
theorem Books.failed (h : Books setup k) {appendFailed : Bool} (hloop : k.loops[i]? = some loop)
    (happend : appendFailed = false → (k.appendFailed = false ∧
      ∀ batch written, loop ≠ .writing batch written)) :
    Books setup (unavailable { k with appendFailed } i) := by
  obtain ⟨rfl, hone, _⟩ := h.only hloop
  have hhealthy := h.healthy_of_loop hone
  have hworking := h.working hhealthy
  have hnil := unavailable_loops hone appendFailed
  constructor
  case loops => exact Or.inl ⟨rfl, hnil⟩
  case pending =>
    rw [batch, hnil]
    rfl
  case bound => exact Nat.zero_le _
  case scheduled => exact fun hne => absurd rfl hne
  case synced => exact h.synced
  case durable => exact h.durable
  case journal => exact h.journal
  case kept => exact h.kept
  case limit => exact h.limit
  case answers =>
    intro y socket' hsocket'
    obtain ⟨socket, hsocket, rfl⟩ :=
      Option.map_eq_some_iff.mp ((List.getElem?_map ..).symm.trans hsocket')
    exact h.answers y socket hsocket
  case working => exact fun hh => absurd hh (by simp [unavailable, finish, destroyAll])
  case stuck => exact fun _ => ⟨hnil, rfl⟩
  case whole =>
    intro _ hfailed
    obtain ⟨_, hother⟩ := happend hfailed
    show k.journal = setup.journal ++ dataOf k.handed
    have hjournal := hworking.journal
    have hhanded := hworking.handed
    rw [batch_of hone] at hjournal hhanded
    rw [inProgress_of hone] at hjournal
    rw [hjournal, hhanded, dataOf_append, ← List.append_assoc]
    cases loop with
    | scheduled => rfl
    | writing batch written => exact absurd rfl (hother batch written)
    | syncing batch => exact congrArg _ List.take_length
  case unfailed => exact fun hh => absurd hh (by simp [unavailable, finish, destroyAll])

theorem Books.move (h : Books setup k) (hmove : Move setup k k') : Books setup k' := by
  cases hmove with
  | accepted => exact h.accepted
  | pushed y frame hhealthy hpending _ _ _ => exact h.pushed frame hhealthy hpending
  | quiet sockets stopping hsame => exact h.quiet hsame
  | finished i hloop hqueue => exact h.finished hloop hqueue
  | started i hloop _ _ hfits => exact h.started hloop hfits
  | wrote i batch written count hloop hcount => exact h.wrote hloop hcount
  | syncing i batch hloop => exact h.syncing hloop
  | settled i batch full hloop => exact h.settled full hloop
  | failed i loop appendFailed hloop happend => exact h.failed hloop happend

theorem books_of_reachable (h : (machine setup).Reachable k) : Books setup k :=
  invariant_of_moves books_init (fun _ _ hk hmove => hk.move hmove) h

/-! ## After a failure -/

/-- Nothing is appended, queued or synced between these states, and nothing is acknowledged. -/
structure Stopped (k k' : Collector) : Prop where
  unhealthy : k'.healthy = false
  journal : k'.journal = k.journal
  accepted : k'.accepted = k.accepted
  durable : k'.durable = k.durable
  sockets : k.sockets.length ≤ k'.sockets.length
  /-- A socket that is accepted later gets no answer either. -/
  written : ∀ (y : Nat) socket', k'.sockets[y]? = some socket' →
    socket'.written = ((k.sockets[y]?).map CollectorSocket.written).getD []

theorem Stopped.refl (h : k.healthy = false) : Stopped k k := by
  refine ⟨h, rfl, rfl, rfl, Nat.le_refl _, ?_⟩
  intro y socket hsocket
  rw [hsocket]
  rfl

theorem Stopped.move {k'' : Collector} (h : Stopped k k') (hbooks : Books setup k')
    (hmove : Move setup k' k'') : Stopped k k'' := by
  have hnil := (hbooks.stuck h.unhealthy).1
  have hnone : ∀ (i : Nat) (loop : FlushLoop), k'.loops[i]? ≠ some loop := by
    intro i loop hloop
    rw [hnil] at hloop
    exact absurd hloop (by simp)
  cases hmove with
  | accepted =>
      refine { h with sockets := ?_, written := ?_ }
      · rw [List.length_append]
        exact Nat.le_trans h.sockets (Nat.le_add_right _ _)
      · intro y socket' hsocket'
        rcases Table.getElem?_append_cases hsocket' with hin | ⟨rfl, rfl⟩
        · exact h.written y socket' hin
        · rw [List.getElem?_eq_none h.sockets]
          rfl
  | pushed y frame hhealthy => exact absurd (h.unhealthy.symm.trans hhealthy) (by simp)
  | quiet sockets stopping hsame =>
      refine { h with sockets := ?_, written := ?_ }
      · rw [hsame.1]
        exact h.sockets
      · intro y socket' hsocket'
        obtain ⟨socket, hsocket, hwritten⟩ := hsame.2 y socket' hsocket'
        rw [hwritten]
        exact h.written y socket hsocket
  | finished i hloop => exact absurd hloop (hnone i _)
  | started i hloop => exact absurd hloop (hnone i _)
  | wrote i batch written count hloop => exact absurd hloop (hnone i _)
  | syncing i batch hloop => exact absurd hloop (hnone i _)
  | settled i batch full hloop => exact absurd hloop (hnone i _)
  | failed i loop appendFailed hloop => exact absurd hloop (hnone i loop)

theorem stopped_of_leads (h : (machine setup).Reachable k) (hlead : (machine setup).Leads k k')
    (hunhealthy : k.healthy = false) : Stopped k k' := by
  have key : Books setup k' ∧ Stopped k k' := by
    refine hlead.invariant (I := fun t => Books setup t ∧ Stopped k t)
      ⟨books_of_reachable h, Stopped.refl hunhealthy⟩ ?_
    intro t l t' ht hstep
    refine (step_moves hstep).invariant (I := fun t => Books setup t ∧ Stopped k t) ht ?_
    exact fun a b hab hmove => ⟨hab.1.move hmove, hab.2.move hab.1 hmove⟩
  exact key.2

/-- The `catch` block acknowledges nothing. -/
theorem unavailable_stopped (k : Collector) (i : Nat) : Stopped k (k.unavailable i) := by
  refine ⟨rfl, rfl, rfl, rfl, ?_, ?_⟩
  · show k.sockets.length ≤ (k.sockets.map _).length
    exact Nat.le_of_eq (List.length_map _).symm
  · intro y socket' hsocket'
    obtain ⟨socket, hsocket, rfl⟩ :=
      Option.map_eq_some_iff.mp ((List.getElem?_map ..).symm.trans hsocket')
    rw [hsocket]
    rfl

/-- A batch that would not fit is not written. -/
theorem next_full (hqueue : k.queue ≠ [])
    (hfull : setup.maxBytes < k.bytes + (dataOf (k.queue.take 64)).length) :
    Stopped k (k.next setup i) := by
  unfold next
  rw [if_neg (fun hempty => hqueue (List.isEmpty_iff.mp hempty)), if_pos (by simp [hfull])]
  exact unavailable_stopped k i

/-! ## The discipline of the queue -/

structure QueueDiscipline (setup : JournalSetup) (k : Collector) : Prop where
  pending : k.pending = k.queue.length + k.batch.length ∧ k.pending ≤ 1024
  /-- Between batches the journal is the counted one, and all of it is on disk. -/
  between : k.healthy = true → (∀ loop ∈ k.loops, loop = .scheduled) →
    k.bytes = k.journal.length ∧ k.synced = k.journal.length
  limit : k.journal.length ≤ setup.maxBytes
  /-- What is queued has a loop that will take it, and what was queued is queued or was handed to
      the journal. -/
  scheduled : k.queue ≠ [] → k.flushing = true ∧ k.loops ≠ []
  stranded : k.healthy = true → k.accepted = k.handed ++ k.queue
  oneLoop : k.loops.length ≤ 1 ∧ (k.flushing = true ↔ k.loops ≠ [])
  answers : ∀ (y : Nat) socket, k.sockets[y]? = some socket →
    socket.written.length ≤ k.durable.countP (fun entry => entry.socket == y)
  /-- An append fails, a sync fails, or the next batch does not fit, when a loop is scheduled or
      when a sync has completed. -/
  appendFails : ∀ i k', k.step setup (.appended i false) = some k' → Stopped k k'
  syncFails : ∀ i full k', k.step setup (.synchronized i false full) = some k' → Stopped k k'
  runFull : ∀ i k', k.step setup (.run i) = some k' → k.queue ≠ [] →
    setup.maxBytes < k.bytes + (dataOf (k.queue.take 64)).length → Stopped k k'
  syncFull : ∀ i batch full k', k.loops[i]? = some (.syncing batch) →
    k.step setup (.synchronized i true full) = some k' → k.queue ≠ [] →
    setup.maxBytes < k.bytes + (dataOf batch).length + (dataOf (k.queue.take 64)).length →
      Stopped (k.settled batch full) k'
  /-- Unhealthy stays unhealthy. -/
  final : k.healthy = false → ∀ k', (machine setup).Leads k k' → Stopped k k'

/-- The discipline of the collector's queue, for every sequence of what its sockets read, closures of
    sockets, progress and failures of appends and syncs, and signals. -/
theorem queue_discipline (h : (machine setup).Reachable k) : QueueDiscipline setup k := by
  have hbooks := books_of_reachable h
  constructor
  case pending => exact ⟨hbooks.pending, hbooks.bound⟩
  case between =>
    intro hhealthy hscheduled
    have hworking := hbooks.working hhealthy
    have hnil : k.batch = [] := by
      rw [batch, List.flatMap_eq_nil_iff]
      intro loop hloop
      rw [hscheduled loop hloop]
      rfl
    have hjournal := hworking.journal
    rw [hnil, show dataOf [] = [] from rfl, List.take_nil, List.append_nil] at hjournal
    have hsynced : k.synced = k.journal.length := hbooks.synced.trans (congrArg _ hjournal.symm)
    exact ⟨hworking.bytes.trans hsynced, hsynced⟩
  case limit => exact hbooks.limit
  case scheduled =>
    intro hqueue
    have hflushing := hbooks.scheduled hqueue
    refine ⟨hflushing, fun hnil => ?_⟩
    rcases hbooks.loops with ⟨hidle, _⟩ | ⟨_, loop, hone⟩
    · exact absurd (hflushing.symm.trans hidle) (by simp)
    · rw [hnil] at hone
      exact absurd hone (by simp)
  case stranded => exact fun hhealthy => (hbooks.working hhealthy).accepted
  case oneLoop =>
    rcases hbooks.loops with ⟨hidle, hnil⟩ | ⟨hflushing, loop, hone⟩
    · rw [hidle, hnil]
      simp
    · rw [hflushing, hone]
      simp
  case answers => exact hbooks.answers
  case appendFails =>
    intro i k' hstep
    replace hstep : k.appended i false = some k' := hstep
    unfold appended at hstep
    split at hstep
    · rw [if_neg (by simp)] at hstep
      obtain rfl := Option.some.inj hstep
      exact { unavailable_stopped { k with appendFailed := true } i with }
    · exact absurd hstep (by simp)
  case syncFails =>
    intro i full k' hstep
    replace hstep : k.synchronized setup i false full = some k' := hstep
    unfold synchronized at hstep
    split at hstep
    · rw [if_neg (by simp)] at hstep
      obtain rfl := Option.some.inj hstep
      exact unavailable_stopped k i
    · exact absurd hstep (by simp)
  case runFull =>
    intro i k' hstep hqueue hfull
    replace hstep : k.run setup i = some k' := hstep
    unfold run at hstep
    split at hstep
    · obtain rfl := Option.some.inj hstep
      exact next_full hqueue hfull
    · exact absurd hstep (by simp)
  case syncFull =>
    intro i batch full k' hloop hstep hqueue hfull
    replace hstep : k.synchronized setup i true full = some k' := hstep
    rw [synchronized, hloop] at hstep
    obtain rfl := Option.some.inj hstep
    exact next_full hqueue hfull
  case final => exact fun hunhealthy k' hlead => stopped_of_leads h hlead hunhealthy

/-- A record that the collector accepts. -/
def minimalRecord : Json :=
  .object [(js "schema", .number ⟨js "1", by decide⟩), (js "requestId", .string (js "r"))]

def emptyJournal : JournalSetup :=
  { maxBytes := 1024, journal := [], least := by decide, fits := by decide, whole := Or.inl rfl }

/-- One record is written and synced, and the append of the next one fails. -/
def failingAppend : List Label :=
  [.accept, .data 0 minimalRecord.line, .run 0, .append 0 minimalRecord.line.length,
    .appended 0 true, .synchronized 0 true [], .data 0 minimalRecord.line, .run 0, .append 0 3,
    .appended 0 false]

theorem queue_discipline_failingAppend :
    ∃ k, (machine emptyJournal).exec (.start emptyJournal) failingAppend = some k ∧
      k.healthy = false ∧ k.durable = [⟨minimalRecord.line, 0⟩] ∧
      k.sockets.map CollectorSocket.written = [[6]] ∧ QueueDiscipline emptyJournal k := by
  have hrun : ∃ k, (machine emptyJournal).exec (.start emptyJournal) failingAppend = some k ∧
      k.healthy = false ∧ k.durable = [⟨minimalRecord.line, 0⟩] ∧
      k.sockets.map CollectorSocket.written = [[6]] :=
    ⟨_, rfl, rfl, rfl, rfl⟩
  obtain ⟨k, hexec, hhealthy, hdurable, hwritten⟩ := hrun
  exact ⟨k, hexec, hhealthy, hdurable, hwritten,
    queue_discipline (Machine.leads_of_exec (M := machine emptyJournal) hexec)⟩

end Collector

end SecureMcp
