import SecureMcp.Deployment.Durable
import SecureMcp.Http.Lifecycle
import SecureMcp.Server.Audited

set_option autoImplicit false

/-! # The processes that are deployed

The runtime, the server over standard input and output and the HTTP server each have one dispatcher,
and none of their own code does what the sink decides: a step of theirs is a write, a step of a
timer, or no step of the dispatcher at all. -/

namespace SecureMcp

variable {δ : Type}

namespace SecureRuntime

/-- A step of the dispatcher with its sink. -/
def Label.isSink : Label δ → Bool
  | .audit label => label.isSink
  | _ => false

variable {rt : RuntimeSetup} {s s' : SecureRuntime δ} {l : Label δ}

/-- The dispatcher stands still, or makes a step of its own. -/
def AuditQuiet (d d' : AuditDispatcher AuditEvent) : Prop :=
  d' = d ∨ ∃ k : AuditDispatcher.Label AuditEvent, k.isSink = false ∧ d.step k = some d'

theorem AuditQuiet.write (d : AuditDispatcher AuditEvent) (event : AuditEvent) (scope : Option Nat) :
    AuditQuiet d (d.write event scope) :=
  Or.inr ⟨.write event scope, rfl, rfl⟩

theorem Fails.auditQuiet {inv inv' : Invocation δ} {code : FailureCode}
    {audit : AuditDispatcher AuditEvent} {counts : List (Outcome × Nat)}
    (h : Fails s inv code audit counts inv') : AuditQuiet s.audit audit := by
  cases h with
  | unrecorded => exact Or.inl rfl
  | recording => exact .write _ _ _

theorem step_auditQuiet (h : s.step rt l = some s') (hl : l.isSink = false) :
    AuditQuiet s.audit s'.audit := by
  cases step_effect h with
  | quiet s' _ _ haudit =>
      rcases haudit with hsame | ⟨k, rfl | rfl, hk⟩
      · exact Or.inl hsame
      · exact Or.inr ⟨k, hl, hk⟩
      · exact Or.inr ⟨.close, rfl, hk⟩
  | refused call error audit counts inv' _ _ hfails => exact hfails.auditQuiet
  | failed i row inv inv' error audit counts _ _ _ _ hfails => exact hfails.auditQuiet
  | allowed | handled => exact .write _ _ _
  | _ => exact Or.inl rfl

theorem fail_auditQuiet (s : SecureRuntime δ) (inv : Invocation δ) (error : Thrown) :
    AuditQuiet s.audit (s.fail inv error).1 := by
  by_cases hcode : failureCode error = .audit_unavailable
  · rw [fail, if_pos hcode]
    exact Or.inl rfl
  · rw [fail, if_neg hcode]
    exact .write _ _ _

theorem invoke_auditQuiet (rt : RuntimeSetup) (s : SecureRuntime δ) (call : Call) :
    AuditQuiet s.audit (s.invoke rt call).audit := by
  simp only [invoke]
  cases s.refusal rt call (s.opened rt call).tool with
  | none => exact Or.inl rfl
  | some error => exact fail_auditQuiet s (s.opened rt call) error

/-- The runtime, as other code uses it. -/
def host (rt : RuntimeSetup) (δ : Type) : AuditHost (SecureRuntime δ) (Label δ) where
  machine := machine rt δ
  audit := SecureRuntime.audit
  capacity := rt.config.maxPending
  init := rfl
  label := .audit
  step_label s k s' h := by
    obtain ⟨audit, hstep, rfl⟩ := Option.map_eq_some_iff.mp h
    exact hstep
  isSink := Label.isSink
  quiet s l s' hl h := step_auditQuiet h hl

end SecureRuntime

namespace AuditedMcpServer

open SecureRuntime (AuditQuiet)

variable {server : ServerSetup} {s s' : AuditedMcpServer δ} {l : Label δ}

def Label.isSink : Label δ → Bool
  | .runtime label => label.isSink
  | _ => false

theorem send_auditQuiet (server : ServerSetup) (s : AuditedMcpServer δ) (message : Message)
    (request answers : Option Nat) (uuid : JsString) :
    AuditQuiet s.runtime.audit (s.send server message request answers uuid).runtime.audit := by
  unfold send
  cases s.observation message request with
  | none => exact Or.inl rfl
  | some outcome => exact .write _ _ _

theorem deliver_auditQuiet {uuid : JsString} (h : s.deliver server uuid = some s') :
    AuditQuiet s.runtime.audit s'.runtime.audit := by
  unfold deliver at h
  split at h
  · split at h
    · dsimp only at h
      split at h
      · obtain rfl := Option.some.inj h
        exact send_auditQuiet server (s.opened _ _ uuid) _ _ _ _
      · obtain rfl := Option.some.inj h
        exact Or.inl rfl
    · obtain rfl := Option.some.inj h
      exact Or.inl rfl
  · exact absurd h (by simp)

theorem step_auditQuiet (h : s.step server l = some s') (hl : l.isSink = false) :
    AuditQuiet s.runtime.audit s'.runtime.audit := by
  cases l with
  | receive message | start =>
      obtain rfl := Option.some.inj h
      exact Or.inl rfl
  | deliver uuid => exact deliver_auditQuiet h
  | invoke x name args caller uuid =>
      obtain ⟨exchange, _, h⟩ := Option.bind_eq_some_iff.mp h
      split at h
      · obtain rfl := Option.some.inj h
        exact SecureRuntime.invoke_auditQuiet ..
      · exact absurd h (by simp)
  | respond x message uuid =>
      obtain ⟨exchange, _, h⟩ := Option.bind_eq_some_iff.mp h
      split at h
      · obtain rfl := Option.some.inj h
        exact send_auditQuiet ..
      · exact absurd h (by simp)
  | respondTool x uuid =>
      obtain ⟨exchange, i, inv, outcome, value, _, _, _, _, rfl⟩ := respondTool_cases h
      exact send_auditQuiet ..
  | emit message uuid =>
      cases message with
      | result id value => exact absurd h (by simp [step])
      | error id code text data | other id =>
          obtain rfl := Option.some.inj h
          exact send_auditQuiet ..
  | audited k =>
      cases audited_passes h with
      | _ => exact Or.inl rfl
  | runtime label =>
      simp only [step] at h
      split at h
      · obtain ⟨runtime, hstep, rfl⟩ := Option.map_eq_some_iff.mp h
        exact SecureRuntime.step_auditQuiet hstep hl
      · exact absurd h (by simp)

/-- The server over one transport, with all that runs on its runtime. -/
def host (server : ServerSetup) (δ : Type) : AuditHost (AuditedMcpServer δ) (Label δ) where
  machine := machine server δ
  audit s := s.runtime.audit
  capacity := server.rt.config.maxPending
  init := rfl
  label k := .runtime (.audit k)
  step_label s k s' h := by
    simp only [machine, step] at h
    split at h
    · obtain ⟨runtime, hstep, rfl⟩ := Option.map_eq_some_iff.mp h
      obtain ⟨audit, haudit, rfl⟩ := Option.map_eq_some_iff.mp hstep
      exact haudit
    · exact absurd h (by simp)
  isSink := Label.isSink
  quiet s l s' hl h := step_auditQuiet h hl

end AuditedMcpServer

namespace HttpServer

open SecureRuntime (AuditQuiet)

variable {setup : HttpSetup} {s s' : HttpServer δ} {l : Label δ}

def Label.isSink : Label δ → Bool
  | .runtime label => label.isSink
  | _ => false

theorem step_auditQuiet (h : s.step setup l = some s') (hl : l.isSink = false) :
    AuditQuiet s.runtime.audit s'.runtime.audit := by
  cases step_effect h with
  | admitted | responding | attempted | observed => exact .write _ _ _
  | invoked x e trace call runtime _ _ _ _ hstep => exact SecureRuntime.step_auditQuiet hstep rfl
  | closing runtime closing shutdown hruntime =>
      rcases hruntime with rfl | ⟨label, rfl | rfl, hstep⟩
      · exact Or.inl rfl
      · exact SecureRuntime.step_auditQuiet hstep rfl
      · exact SecureRuntime.step_auditQuiet hstep rfl
  | runtime label runtime hlabel _ hstep =>
      subst hlabel
      exact SecureRuntime.step_auditQuiet hstep hl
  | _ => exact Or.inl rfl

/-- The HTTP server. -/
def host (setup : HttpSetup) (δ : Type) : AuditHost (HttpServer δ) (Label δ) where
  machine := machine setup δ
  audit s := s.runtime.audit
  capacity := setup.rt.config.maxPending
  init := rfl
  label k := .runtime (.audit k)
  step_label s k s' h := by
    simp only [machine, step] at h
    split at h
    · obtain ⟨runtime, hstep, rfl⟩ := Option.map_eq_some_iff.mp h
      obtain ⟨audit, haudit, rfl⟩ := Option.map_eq_some_iff.mp hstep
      exact haudit
    · exact absurd h (by simp)
  isSink := Label.isSink
  quiet s l s' hl h := step_auditQuiet h hl

end HttpServer

end SecureMcp
