import SecureMcp.Execution.Controller

set_option autoImplicit false

/-! # The controller looks at no payload

Abort reasons and results pass through `ExecutionController`. It tells `RuntimeFailure`s apart from
other reasons only where it makes them itself, so changing the payloads of a run by two functions, one
of which keeps every `RuntimeFailure`, commutes with every step (`step_map`). -/

namespace SecureMcp

variable {τ υ : Type} (f : Thrown → Thrown) (g : τ → υ)

/-- The settlement of a promise, with its payload changed. -/
def mapResult : Except Thrown τ → Except Thrown υ
  | .ok value => .ok (g value)
  | .error error => .error (f error)

def Race.map : Race τ → Race υ
  | .pending => .pending
  | .operation result => .operation (mapResult f g result)
  | .aborted code => .aborted code

def Run.map (r : Run τ) : Run υ :=
  { operation := r.operation
    reason := r.reason
    caller := r.caller.map f
    signal := r.signal.map f
    race := r.race.map f g
    timer := r.timer
    answered := r.answered
    started := r.started }

def ExecutionController.map (c : ExecutionController τ) : ExecutionController υ :=
  { maxConcurrent := c.maxConcurrent
    runs := c.runs.map (Run.map f g)
    active := c.active
    closing := c.closing
    shutdown := c.shutdown
    closes := c.closes }

def ExecutionController.Label.map : ExecutionController.Label τ → ExecutionController.Label υ
  | .run caller => .run (caller.map f)
  | .start i => .start i
  | .settle i result => .settle i (mapResult f g result)
  | .expire i => .expire i
  | .abort i reason => .abort i (f reason)
  | .answer i => .answer i
  | .close => .close
  | .drainSettled => .drainSettled
  | .drainExpire => .drainExpire
  | .drainResume => .drainResume
  | .closeReturn k => .closeReturn k

/-! ## Rows -/

variable {f g}

theorem Race.settle_map (race next : Race τ) :
    (race.settle next).map f g = (race.map f g).settle (next.map f g) := by
  cases race <;> rfl

theorem Race.isPending_map (race : Race τ) : (race.map f g).isPending = race.isPending := by
  cases race <;> rfl

namespace Run

variable (r : Run τ)

@[simp] theorem operation_map : (r.map f g).operation = r.operation := rfl

@[simp] theorem reason_map : (r.map f g).reason = r.reason := rfl

@[simp] theorem caller_map : (r.map f g).caller = r.caller.map f := rfl

@[simp] theorem signal_map : (r.map f g).signal = r.signal.map f := rfl

@[simp] theorem race_map : (r.map f g).race = r.race.map f g := rfl

@[simp] theorem timer_map : (r.map f g).timer = r.timer := rfl

@[simp] theorem answered_map : (r.map f g).answered = r.answered := rfl

theorem result_map (hf : ∀ code, f (.runtimeFailure code) = .runtimeFailure code) :
    (r.map f g).result = r.result.map (mapResult f g) := by
  unfold result
  rw [operation_map, race_map]
  cases r.operation with
  | refused code => simp [mapResult, hf]
  | _ => cases r.race <;> simp [Race.map, mapResult, hf]

theorem abortSignal_map (reason : Thrown) :
    (r.abortSignal reason).map f g = (r.map f g).abortSignal (f reason) := by
  unfold abortSignal
  rw [signal_map]
  cases r.signal with
  | some old => rfl
  | none =>
      rw [race_map, show (r.map f g).onAbort = r.onAbort from rfl,
        show Race.aborted r.onAbort = (Race.aborted r.onAbort : Race τ).map f g from rfl,
        ← Race.settle_map]
      rfl

theorem abortController_map (hf : ∀ code, f (.runtimeFailure code) = .runtimeFailure code)
    (code : FailureCode) : (r.abortController code).map f g = (r.map f g).abortController code := by
  unfold abortController
  rw [reason_map]
  cases r.reason with
  | some old => rfl
  | none =>
      simp only [abortSignal_map, hf]
      rfl

theorem abortCaller_map (reason : Thrown) :
    (r.abortCaller reason).map f g = (r.map f g).abortCaller (f reason) := by
  unfold abortCaller
  rw [caller_map]
  cases r.caller with
  | some old => rfl
  | none =>
      simp only [abortSignal_map, Option.map_none]
      rfl

theorem settle_map (result : Except Thrown τ) :
    (r.settle result).map f g = (r.map f g).settle (mapResult f g result) := by
  unfold settle
  rw [race_map, show Race.operation (mapResult f g result) =
    (Race.operation result).map f g from rfl, ← Race.settle_map]
  rfl

end Run

/-! ## The controller -/

namespace ExecutionController

variable {c : ExecutionController τ}

@[simp] theorem runs_map (i : Nat) : (c.map f g).runs[i]? = c.runs[i]?.map (Run.map f g) :=
  List.getElem?_map

@[simp] theorem active_map : (c.map f g).active = c.active := rfl

@[simp] theorem shutdown_map : (c.map f g).shutdown = c.shutdown := rfl

@[simp] theorem closes_map : (c.map f g).closes = c.closes := rfl

theorem setRun_map (i : Nat) (r : Run τ) :
    ({ c with runs := c.runs.set i r } : ExecutionController τ).map f g =
      { c.map f g with runs := (c.map f g).runs.set i (r.map f g) } := by
  simp [map, List.map_set]

theorem settleRun_map (i : Nat) (r : Run τ) (result : Except Thrown τ) :
    (c.settleRun i r result).map f g =
      (c.map f g).settleRun i (r.map f g) (mapResult f g result) := by
  simp [settleRun, map, List.map_set, Run.settle_map]

theorem run_map (caller : Option Thrown) :
    (c.run caller).map f g = (c.map f g).run (caller.map f) := by
  have hrefusal : (c.map f g).refusal (caller.map f) = c.refusal caller := by
    cases caller <;> rfl
  unfold run
  rw [hrefusal]
  cases c.refusal caller <;> simp [map, Run.map, Race.map]

theorem start_map (i : Nat) : (c.map f g).start i = (c.start i).map (map f g) := by
  unfold start
  rw [runs_map]
  cases c.runs[i]? with
  | none => rfl
  | some r =>
      by_cases hop : r.operation = .deferred
      · cases hsignal : r.signal with
        | some reason => simp [hop, hsignal, settleRun_map, mapResult]
        | none =>
            simp only [Option.map_some, Option.bind_eq_bind, Option.bind_some, Run.operation_map, hop,
              if_true, Run.signal_map, hsignal, Option.map_none, setRun_map]
            rfl
      · simp [hop]

theorem settle_map (i : Nat) (result : Except Thrown τ) :
    (c.map f g).settle i (mapResult f g result) = (c.settle i result).map (map f g) := by
  unfold settle
  rw [runs_map]
  cases c.runs[i]? with
  | none => rfl
  | some r =>
      by_cases hop : r.operation = .running
      · simp [hop, settleRun_map]
      · simp [hop]

theorem answer_map (i : Nat) : (c.map f g).answer i = (c.answer i).map (map f g) := by
  unfold answer
  rw [runs_map]
  cases c.runs[i]? with
  | none => rfl
  | some r =>
      simp only [Option.map_some, Option.bind_eq_bind, Option.bind_some, Run.race_map,
        Race.isPending_map, Run.answered_map]
      split
      · rw [Option.map_some, setRun_map]
        rfl
      · rfl

theorem expire_map (hf : ∀ code, f (.runtimeFailure code) = .runtimeFailure code) (i : Nat) :
    (c.map f g).expire i = (c.expire i).map (map f g) := by
  unfold expire
  rw [runs_map]
  cases c.runs[i]? with
  | none => rfl
  | some r =>
      simp only [Option.map_some, Option.bind_eq_bind, Option.bind_some]
      by_cases htimer : r.timer = true
      · have hmap : (r.map f g).timer = true := htimer
        rw [if_pos htimer, if_pos hmap, Option.map_some, setRun_map, Run.abortController_map _ hf]
        rfl
      · have hmap : ¬ (r.map f g).timer = true := htimer
        rw [if_neg htimer, if_neg hmap, Option.map_none]

theorem abort_map (i : Nat) (reason : Thrown) :
    (c.map f g).abort i (f reason) = (c.abort i reason).map (map f g) := by
  unfold abort
  rw [runs_map]
  cases c.runs[i]? with
  | none => rfl
  | some r =>
      simp only [Option.map_some, Option.bind_eq_bind, Option.bind_some, Run.operation_map]
      split
      · rfl
      · rw [Option.map_some, setRun_map, Run.abortCaller_map]

theorem drain_map (hf : ∀ code, f (.runtimeFailure code) = .runtimeFailure code) :
    c.drain.map f g = (c.map f g).drain := by
  unfold drain map
  congr 1
  refine List.ext_getElem? (fun i => ?_)
  simp only [List.getElem?_map, List.getElem?_mapIdx, Option.map_map]
  refine congrArg (fun h => Option.map h c.runs[i]?) (funext (fun r => ?_))
  simp only [Function.comp_apply]
  split
  · exact Run.abortController_map r hf .shutting_down
  · rfl

theorem close_map (hf : ∀ code, f (.runtimeFailure code) = .runtimeFailure code) :
    c.close.map f g = (c.map f g).close := by
  unfold close
  rw [shutdown_map]
  cases c.shutdown with
  | some s => rfl
  | none =>
      simp only [← drain_map hf]
      rfl

theorem drainSettled_map : (c.map f g).drainSettled = c.drainSettled.map (map f g) := by
  unfold drainSettled
  rw [shutdown_map, active_map]
  cases c.shutdown with
  | none => rfl
  | some s =>
      simp only [Option.bind_eq_bind, Option.bind_some]
      split <;> rfl

theorem drainExpire_map : (c.map f g).drainExpire = c.drainExpire.map (map f g) := by
  unfold drainExpire
  rw [shutdown_map]
  cases c.shutdown with
  | none => rfl
  | some s =>
      simp only [Option.bind_eq_bind, Option.bind_some]
      split <;> rfl

theorem drainResume_map : (c.map f g).drainResume = c.drainResume.map (map f g) := by
  unfold drainResume
  rw [shutdown_map]
  cases c.shutdown with
  | none => rfl
  | some s =>
      simp only [Option.bind_eq_bind, Option.bind_some]
      split <;> rfl

theorem closeReturn_map (k : Nat) : (c.map f g).closeReturn k = (c.closeReturn k).map (map f g) := by
  unfold closeReturn
  rw [shutdown_map, closes_map]
  cases c.shutdown with
  | none => rfl
  | some s =>
      cases c.closes[k]? with
      | none => rfl
      | some returned =>
          simp only [Option.bind_eq_bind, Option.bind_some]
          split <;> rfl

theorem step_map (hf : ∀ code, f (.runtimeFailure code) = .runtimeFailure code) (l : Label τ) :
    (c.map f g).step (l.map f g) = (c.step l).map (map f g) := by
  cases l with
  | run caller => exact congrArg some (run_map caller).symm
  | start i => exact start_map i
  | settle i result => exact settle_map i result
  | expire i => exact expire_map hf i
  | abort i reason => exact abort_map i reason
  | answer i => exact answer_map i
  | close => exact congrArg some (close_map hf).symm
  | drainSettled => exact drainSettled_map
  | drainExpire => exact drainExpire_map
  | drainResume => exact drainResume_map
  | closeReturn k => exact closeReturn_map k

end ExecutionController

end SecureMcp
