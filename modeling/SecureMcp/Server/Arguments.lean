import SecureMcp.Budget
import SecureMcp.Runtime.Admission
import SecureMcp.Server.Audited

set_option autoImplicit false

/-! # Arguments on their way to a tool

Arguments reach `invoke` from an embedding, or from a message: past the wrapped `onmessage` and
through the record parser of the SDK. `Wire` puts that parser in front of the calls that the SDK
makes; it remembers the arguments of each request. -/

namespace SecureMcp

variable {δ : Type}

/-! ## Schemas only see what has passed the walk -/

namespace SecureRuntime

variable {rt : RuntimeSetup} {s s' : SecureRuntime δ} {l : Label δ}

/-- A schema runs on the arguments of its call. -/
def Schemed (inv : Invocation δ) : Prop := ∀ args ∈ inv.schemaRuns, args = inv.call.args

theorem Schemed.of_nil {inv : Invocation δ} (h : inv.schemaRuns = []) : Schemed inv := by
  intro args hargs
  rw [h] at hargs
  exact absurd hargs (by simp)

theorem Schemed.of_fails {inv inv' : Invocation δ} {code : FailureCode}
    {audit : AuditDispatcher AuditEvent} {counts : List (Outcome × Nat)} (h : Schemed inv)
    (hfails : Fails s inv code audit counts inv') : Schemed inv' := by
  cases hfails <;> exact h

theorem Schemed.effect (h : ∀ (i : Nat) inv, s.invocations[i]? = some inv → Schemed inv)
    (he : Effect rt s l s') : ∀ (i : Nat) inv, s'.invocations[i]? = some inv → Schemed inv := by
  cases he with
  | quiet s' hinvocations =>
      rw [hinvocations]
      exact h
  | refused call error audit counts inv' hrequest herror hfails =>
      exact Table.forall_append h ((Schemed.of_nil rfl).of_fails hfails)
  | accepted => exact Table.forall_append h (.of_nil rfl)
  | started i row inv r hi =>
      refine Table.forall_set h (fun args hargs => ?_)
      rcases List.mem_append.mp hargs with hin | hlast
      · exact h i inv hi args hin
      · exact List.mem_singleton.mp hlast
  | failed i row inv inv' error audit counts hi hrun hcaller hresult hfails =>
      exact Table.forall_set h ((h i inv hi).of_fails hfails)
  | halted i row inv r reason hi | threw i inv error hi | allowed i inv data hi
  | entered i write inv data w hi | handled i inv data value outcome hi
  | recordLost i write inv value w hi | recordKept i write inv value w hi
  | settled i row inv r result hi | returned i row inv value isError hi
  | concluded i write inv outcome w hi | unconcluded i write inv outcome w hi =>
      exact Table.forall_set h (h i inv hi)

/-- A call whose arguments hold a reserved key at any depth gets to no schema and to no handler. -/
theorem untouched_of_reserved (h : (machine rt δ).Reachable s) {i : Nat} {inv : Invocation δ}
    (hi : s.invocations[i]? = some inv) (hreserved : ¬ inv.call.args.Clean inv.call.args.root) :
    inv.schemaRuns = [] ∧ inv.entered = [] := by
  have hsound := (Linked.of_reachable h).rows i inv hi
  have hnone : inv.run = none := by
    cases hrun : inv.run with
    | none => rfl
    | some row =>
        have hadmitted := hsound.admitted (by rw [hrun]; rfl)
        exact absurd (Graph.within_iff.mp hadmitted.within).1 hreserved
  have hhistory := hsound.history
  rw [Invocation.History, (hsound.refused hnone).1] at hhistory
  exact hhistory

/-- No schema runs on a value that holds a reserved key at any depth. -/
theorem clean_of_schemaRun (h : (machine rt δ).Reachable s) {i : Nat} {inv : Invocation δ}
    (hi : s.invocations[i]? = some inv) : ∀ args ∈ inv.schemaRuns, args.Clean args.root := by
  intro args hargs
  have hschemed : Schemed inv := h.invariant
    (I := fun s => ∀ (i : Nat) inv, s.invocations[i]? = some inv → Schemed inv)
    (by simp [machine]) (fun _ _ _ _ hs hstep => Schemed.effect hs (step_effect hstep)) i inv hi
  by_contra hreserved
  rw [hschemed args hargs] at hreserved
  rw [(untouched_of_reserved h hi hreserved).1] at hargs
  exact absurd hargs (by simp)

/-- `invoke` never calls `JSON.stringify` on a value that makes it throw. -/
theorem refusal_ne_other (s : SecureRuntime δ) (call : Call) (tool : Option ToolPolicy)
    (message : String) : s.refusal rt call tool ≠ some (.other message) := by
  unfold refusal
  split
  · simp
  · split
    · simp
    · split
      · simp
      · next hwithin =>
          have hsome := Graph.byteLength_of_within (by simpa using hwithin)
          split
          · next hnone => exact absurd hsome (by simp [hnone])
          · split <;> simp

end SecureRuntime

/-! ## The record parser -/

/-- Without the own key `__proto__`. -/
def Node.withoutReserved {n : Nat} : Node n → Node n
  | .array items own => .array items (own.filter (fun key => key != js "__proto__"))
  | .object entries own =>
    .object (entries.filter (fun entry => entry.1 != js "__proto__"))
      (own.filter (fun key => key != js "__proto__"))

/-- The SDK's parser of `arguments`: an own `__proto__` key of the value itself is dropped, and
    everything else is kept. A message is a tree, so that nothing else refers to the value. -/
def Graph.recordParsed (g : Graph) : Graph :=
  match g.root with
  | .scalar _ => g
  | .ref address =>
    { g with node := fun other =>
        if other = address then (g.node other).withoutReserved else g.node other }

theorem Node.withoutReserved_eq {n : Nat} {node : Node n}
    (h : node.ownKeys.contains (js "__proto__") = false) : node.withoutReserved = node := by
  have hnot : js "__proto__" ∉ node.ownKeys := by simpa using h
  cases node with
  | array items own =>
      rw [withoutReserved, List.filter_eq_self.mpr]
      exact fun key hkey => bne_iff_ne.mpr (fun heq => hnot (heq ▸ hkey))
  | object entries own =>
      rw [withoutReserved, List.filter_eq_self.mpr, List.filter_eq_self.mpr]
      · exact fun key hkey => bne_iff_ne.mpr (fun heq => hnot (List.mem_append_right _ (heq ▸ hkey)))
      · exact fun entry hentry => bne_iff_ne.mpr (fun heq =>
          hnot (List.mem_append_left _ (heq ▸ List.mem_map_of_mem hentry)))

/-- What gets past the wrapped `onmessage` is not changed by the parser. -/
theorem Graph.recordParsed_eq {g : Graph} (h : g.hasReservedToolArgumentKey g.root = false) :
    g.recordParsed = g := by
  obtain ⟨size, node, root⟩ := g
  unfold recordParsed
  split
  · rfl
  · next address hroot =>
      have hnode : (node address).withoutReserved = node address := by
        apply Node.withoutReserved_eq
        dsimp only at hroot
        rw [hroot] at h
        exact h
      congr 1
      funext other
      by_cases heq : other = address
      · rw [if_pos heq, heq, hnode]
      · rw [if_neg heq]

/-! ## What a step does to the exchanges -/

namespace AuditedMcpServer

variable {server : ServerSetup} {s s' : AuditedMcpServer δ} {l : Label δ}

/-- Apart from a call, a step opens an exchange, or answers one, or changes none. -/
inductive Turn (server : ServerSetup) (s : AuditedMcpServer δ) (l : Label δ) (s' : AuditedMcpServer δ) :
    Prop
  | opened (uuid : JsString) (message : Incoming) (rest : List Incoming) (exchange : Exchange)
      (hlabel : l = .deliver uuid) (hincoming : s.incoming = message :: rest)
      (hexchanges : s'.exchanges = s.exchanges ++ [exchange]) (hfresh : exchange.invocation = none)
      (hrejected : exchange.rejected = (exchange.toolCall &&
        message.arguments.any (fun g => g.hasReservedToolArgumentKey g.root)))
  | called (x : Nat) (name : JsString) (args : Graph) (caller : Option Thrown) (uuid : JsString)
      (hlabel : l = .invoke x name args caller uuid)
  | answered (x : Nat) (exchange : Exchange) (hx : s.exchanges[x]? = some exchange)
      (hexchanges : s'.exchanges = s.exchanges.set x { exchange with responded := true })
  | same (hexchanges : s'.exchanges = s.exchanges)

theorem deliver_turn {uuid : JsString} (h : s.deliver server uuid = some s') :
    Turn server s (.deliver uuid) s' := by
  unfold deliver at h
  split at h
  · next message rest hstarted hincoming =>
      split at h
      · next method id hmethod hid =>
          dsimp only at h
          split at h
          · obtain rfl := Option.some.inj h
            exact .opened uuid message rest _ rfl hincoming (send_exchanges _ _ _ _) rfl rfl
          · obtain rfl := Option.some.inj h
            exact .opened uuid message rest _ rfl hincoming rfl rfl rfl
      · obtain rfl := Option.some.inj h
        exact .same rfl
  · exact absurd h (by simp)

theorem invoke_cases {x : Nat} {name : JsString} {args : Graph} {caller : Option Thrown}
    {uuid : JsString} (h : s.invoke server x name args caller uuid = some s') :
    ∃ exchange, s.exchanges[x]? = some exchange ∧
      (exchange.toolCall = true ∧ exchange.rejected = false) ∧
      s'.exchanges = s.exchanges.set x
        { exchange with invocation := some s.runtime.invocations.length } ∧
      ∃ inv, s'.runtime.invocations = s.runtime.invocations ++ [inv] ∧ inv.call.args = args := by
  obtain ⟨exchange, hx, hstep⟩ := Option.bind_eq_some_iff.mp h
  split at hstep
  · next hcall =>
      simp only [Bool.and_eq_true, Bool.not_eq_true'] at hcall
      obtain ⟨inv, hrows, hsame⟩ := SecureRuntime.invoke_row server.rt s.runtime
        { principal := server.identity, name, args, caller, requestId := server.requestId
          request := some exchange.request, scope := server.scope, uuid }
      obtain rfl := Option.some.inj hstep
      exact ⟨exchange, hx, hcall.1.1, rfl, inv, hrows, by rw [hsame]⟩
  · exact absurd hstep (by simp)

theorem step_turn (h : s.step server l = some s') : Turn server s l s' := by
  cases l with
  | receive message =>
      obtain rfl := Option.some.inj h
      exact .same rfl
  | start =>
      obtain rfl := Option.some.inj h
      exact .same rfl
  | deliver uuid => exact deliver_turn h
  | invoke x name args caller uuid => exact .called x name args caller uuid rfl
  | respond x message uuid =>
      obtain ⟨exchange, hx, _, rfl⟩ := respond_cases h
      exact .answered x exchange hx (by simp only [send_exchanges])
  | respondTool x uuid =>
      obtain ⟨exchange, i, inv, outcome, value, hx, _, _, _, rfl⟩ := respondTool_cases h
      exact .answered x exchange hx (by simp only [send_exchanges])
  | emit message uuid =>
      cases message with
      | result id value => exact absurd h (by simp [AuditedMcpServer.step])
      | error id code text data =>
          obtain rfl := Option.some.inj h
          exact .same (send_exchanges _ _ _ _)
      | other id =>
          obtain rfl := Option.some.inj h
          exact .same (send_exchanges _ _ _ _)
  | audited k =>
      cases audited_passes h <;> exact .same rfl
  | runtime label =>
      simp only [AuditedMcpServer.step] at h
      split at h
      · obtain ⟨r, _, rfl⟩ := Option.map_eq_some_iff.mp h
        exact .same rfl
      · exact absurd h (by simp)

end AuditedMcpServer

/-! ## The wire -/

/-- A server behind the record parser. -/
structure Wire (δ : Type) where
  server : AuditedMcpServer δ
  /-- `params?.arguments` of each exchange. -/
  arguments : List (Option Graph) := []

namespace Wire

/-- What a call without arguments is made with. -/
def noArguments : Graph where
  size := 1
  node := fun _ => .object []
  root := .ref ⟨0, Nat.one_pos⟩

inductive Label (δ : Type)
  /-- The SDK parses the arguments of a request and calls its tool with the result. -/
  | call (x : Nat) (name : JsString) (caller : Option Thrown) (uuid : JsString)
  /-- Anything else. -/
  | server (label : AuditedMcpServer.Label δ)

def isCall : AuditedMcpServer.Label δ → Bool
  | .invoke _ _ _ _ _ => true
  | _ => false

/-- The arguments of the message whose exchange a step has opened, if it has. -/
def opened (before after : AuditedMcpServer δ) : List (Option Graph) :=
  match before.incoming with
  | message :: _ =>
    if before.exchanges.length < after.exchanges.length then [message.arguments] else []
  | [] => []

def step (setup : ServerSetup) (w : Wire δ) : Label δ → Option (Wire δ)
  | .call x name caller uuid => do
    let arguments ← w.arguments[x]?
    let args := (arguments.getD noArguments).recordParsed
    let server ← w.server.step setup (.invoke x name args caller uuid)
    some { w with server }
  | .server label =>
    if isCall label then none
    else
      (w.server.step setup label).map (fun server =>
        { server, arguments := w.arguments ++ opened w.server server })

def machine (setup : ServerSetup) (δ : Type) : Machine (Wire δ) (Label δ) :=
  { init := { server := (AuditedMcpServer.machine setup δ).init }
    step := step setup }

variable {setup : ServerSetup} {w w' : Wire δ} {l : Label δ}

/-- Every step is one of the server. -/
theorem step_server (h : w.step setup l = some w') :
    ∃ label, w.server.step setup label = some w'.server := by
  cases l with
  | call x name caller uuid =>
      obtain ⟨arguments, _, hstep⟩ := Option.bind_eq_some_iff.mp h
      obtain ⟨server, hserver, heq⟩ := Option.bind_eq_some_iff.mp hstep
      obtain rfl := Option.some.inj heq
      exact ⟨_, hserver⟩
  | server label =>
      simp only [step] at h
      split at h
      · exact absurd h (by simp)
      · obtain ⟨server, hserver, rfl⟩ := Option.map_eq_some_iff.mp h
        exact ⟨label, hserver⟩

theorem server_reachable (h : (machine setup δ).Reachable w) :
    (AuditedMcpServer.machine setup δ).Reachable w.server := by
  refine h.invariant (I := fun w => (AuditedMcpServer.machine setup δ).Reachable w.server)
    Machine.reachable_init ?_
  intro a l b _ ha hstep
  obtain ⟨label, hlabel⟩ := step_server hstep
  exact ha.snoc (s := a.server) (l := label) hlabel

/-- What has become of the arguments of a request: past the wrapped `onmessage` they have no
    reserved key of their own, and the call of its tool is made with what the parser leaves. -/
structure Carries (w : Wire δ) : Prop where
  length : w.arguments.length = w.server.exchanges.length
  clean : ∀ (x : Nat) exchange args, w.server.exchanges[x]? = some exchange →
    w.arguments[x]? = some (some args) → exchange.toolCall = true → exchange.rejected = false →
      args.hasReservedToolArgumentKey args.root = false
  called : ∀ (x : Nat) exchange i, w.server.exchanges[x]? = some exchange →
    exchange.invocation = some i → exchange.toolCall = true ∧ exchange.rejected = false ∧
      ∃ inv arguments, w.server.runtime.invocations[i]? = some inv ∧
        w.arguments[x]? = some arguments ∧ inv.call.args = (arguments.getD noArguments).recordParsed

/-- A step that opens no exchange and makes no call. -/
theorem Carries.keep (h : Carries w) {server : AuditedMcpServer δ}
    (hleads : (SecureRuntime.machine setup.rt δ).Leads w.server.runtime server.runtime)
    (hlength : server.exchanges.length = w.server.exchanges.length)
    (hsame : ∀ (x : Nat) exchange', server.exchanges[x]? = some exchange' →
      ∃ exchange, w.server.exchanges[x]? = some exchange ∧ exchange'.toolCall = exchange.toolCall ∧
        exchange'.rejected = exchange.rejected ∧ exchange'.invocation = exchange.invocation) :
    Carries { w with server } := by
  constructor
  case length => rw [hlength, ← h.length]
  case clean =>
    intro x exchange' args hx hargs hcall hrejected
    obtain ⟨exchange, hold, htool, hreject, _⟩ := hsame x exchange' hx
    exact h.clean x exchange args hold hargs (htool ▸ hcall) (hreject ▸ hrejected)
  case called =>
    intro x exchange' i hx hinvocation
    obtain ⟨exchange, hold, htool, hreject, hinv⟩ := hsame x exchange' hx
    obtain ⟨hcall, hrejected, inv, arguments, hi, harguments, hargs⟩ :=
      h.called x exchange i hold (hinv ▸ hinvocation)
    obtain ⟨inv', hi', hgrows⟩ := SecureRuntime.grows_of_leads hleads hi
    exact ⟨htool.trans hcall, hreject.trans hrejected, inv', arguments, hi', harguments,
      by rw [hgrows.call, hargs]⟩

theorem opened_eq_nil {before after : AuditedMcpServer δ}
    (h : after.exchanges.length = before.exchanges.length) : opened before after = [] := by
  unfold opened
  split
  · exact if_neg (by omega)
  · rfl

/-- A delivered request opens an exchange. -/
theorem Carries.open (h : Carries w) {server : AuditedMcpServer δ} {message : Incoming}
    {exchange : Exchange}
    (hleads : (SecureRuntime.machine setup.rt δ).Leads w.server.runtime server.runtime)
    (hexchanges : server.exchanges = w.server.exchanges ++ [exchange])
    (hfresh : exchange.invocation = none)
    (hrejected : exchange.rejected = (exchange.toolCall &&
      message.arguments.any (fun g => g.hasReservedToolArgumentKey g.root))) :
    Carries { server, arguments := w.arguments ++ [message.arguments] } := by
  constructor
  case length => simp only [hexchanges, List.length_append, h.length, List.length_singleton]
  case clean =>
    intro x exchange' args hx hargs hcall hreject
    simp only [hexchanges] at hx
    rcases Table.getElem?_append_cases hx with hold | ⟨rfl, rfl⟩
    · have hlt := Table.lt_of_getElem? hold
      rw [← h.length] at hlt
      exact h.clean x exchange' args hold (by rwa [List.getElem?_append_left hlt] at hargs) hcall hreject
    · have hlast : some message.arguments = some (some args) := by
        rw [← hargs, ← h.length]
        exact List.getElem?_concat_length.symm
      rw [hrejected, hcall, Option.some.inj hlast] at hreject
      simpa using hreject
  case called =>
    intro x exchange' i hx hinvocation
    simp only [hexchanges] at hx
    rcases Table.getElem?_append_cases hx with hold | ⟨_, rfl⟩
    · obtain ⟨hcall, hreject, inv, arguments, hi, harguments, hargs⟩ :=
        h.called x exchange' i hold hinvocation
      obtain ⟨inv', hi', hgrows⟩ := SecureRuntime.grows_of_leads hleads hi
      exact ⟨hcall, hreject, inv', arguments, hi', Table.getElem?_append_of_some harguments,
        by rw [hgrows.call, hargs]⟩
    · rw [hfresh] at hinvocation
      exact absurd hinvocation (by simp)

/-- The parsed arguments are what the tool is called with. -/
theorem Carries.call (h : Carries w) {server : AuditedMcpServer δ} {x : Nat} {exchange : Exchange}
    {arguments : Option Graph}
    (hleads : (SecureRuntime.machine setup.rt δ).Leads w.server.runtime server.runtime)
    (hx : w.server.exchanges[x]? = some exchange)
    (hcall : exchange.toolCall = true ∧ exchange.rejected = false)
    (hexchanges : server.exchanges = w.server.exchanges.set x
      { exchange with invocation := some w.server.runtime.invocations.length })
    (harguments : w.arguments[x]? = some arguments)
    (hrow : ∃ inv, server.runtime.invocations = w.server.runtime.invocations ++ [inv] ∧
      inv.call.args = (arguments.getD noArguments).recordParsed) :
    Carries { w with server } := by
  constructor
  case length => simp only [hexchanges, List.length_set, h.length]
  case clean =>
    intro y exchange' args hy hargs htool hreject
    simp only [hexchanges] at hy
    rcases Table.getElem?_set_cases hy with ⟨rfl, rfl⟩ | ⟨_, hold⟩
    · exact h.clean _ exchange args hx hargs htool hreject
    · exact h.clean y exchange' args hold hargs htool hreject
  case called =>
    intro y exchange' i hy hinvocation
    simp only [hexchanges] at hy
    rcases Table.getElem?_set_cases hy with ⟨rfl, rfl⟩ | ⟨_, hold⟩
    · obtain ⟨inv, hrows, hargs⟩ := hrow
      obtain rfl := Option.some.inj hinvocation
      refine ⟨hcall.1, hcall.2, inv, arguments, ?_, harguments, hargs⟩
      simp only [hrows]
      exact List.getElem?_concat_length
    · obtain ⟨htool, hreject, inv, other, hi, hother, hargs⟩ := h.called y exchange' i hold hinvocation
      obtain ⟨inv', hi', hgrows⟩ := SecureRuntime.grows_of_leads hleads hi
      exact ⟨htool, hreject, inv', other, hi', hother, by rw [hgrows.call, hargs]⟩

theorem Carries.step (h : Carries w)
    (hleads : ∀ server label, w.server.step setup label = some server →
      (SecureRuntime.machine setup.rt δ).Leads w.server.runtime server.runtime)
    (hstep : w.step setup l = some w') : Carries w' := by
  cases l with
  | call x name caller uuid =>
      obtain ⟨arguments, harguments, hstep⟩ := Option.bind_eq_some_iff.mp hstep
      obtain ⟨server, hserver, heq⟩ := Option.bind_eq_some_iff.mp hstep
      obtain rfl := Option.some.inj heq
      obtain ⟨exchange, hx, hcall, hexchanges, hrow⟩ := AuditedMcpServer.invoke_cases hserver
      exact h.call (hleads server _ hserver) hx hcall hexchanges harguments hrow
  | server label =>
      simp only [Wire.step] at hstep
      split at hstep
      · exact absurd hstep (by simp)
      · next hcall =>
          obtain ⟨server, hserver, rfl⟩ := Option.map_eq_some_iff.mp hstep
          cases AuditedMcpServer.step_turn hserver with
          | opened uuid message rest exchange hlabel hincoming hexchanges hfresh hrejected =>
              have hopened : Wire.opened w.server server = [message.arguments] := by
                rw [Wire.opened, hincoming]
                exact if_pos (by rw [hexchanges, List.length_append]; exact Nat.lt_succ_self _)
              rw [hopened]
              exact h.open (hleads server label hserver) hexchanges hfresh hrejected
          | called x name args caller uuid hlabel => exact absurd (by rw [hlabel]; rfl) hcall
          | answered x exchange hx hexchanges =>
              have hlength : server.exchanges.length = w.server.exchanges.length := by
                rw [hexchanges, List.length_set]
              rw [opened_eq_nil hlength, List.append_nil]
              refine h.keep (hleads server label hserver) hlength (fun y exchange' hy => ?_)
              rw [hexchanges] at hy
              rcases Table.getElem?_set_cases hy with ⟨rfl, rfl⟩ | ⟨_, hold⟩
              · exact ⟨exchange, hx, rfl, rfl, rfl⟩
              · exact ⟨exchange', hold, rfl, rfl, rfl⟩
          | same hexchanges =>
              rw [opened_eq_nil (by rw [hexchanges]), List.append_nil]
              exact h.keep (hleads server label hserver) (by rw [hexchanges])
                (fun y exchange' hy => ⟨exchange', hexchanges ▸ hy, rfl, rfl, rfl⟩)

theorem Carries.of_reachable (h : (machine setup δ).Reachable w) : Carries w := by
  refine h.invariant (I := Carries) ⟨rfl, by simp [machine, AuditedMcpServer.machine],
    by simp [machine, AuditedMcpServer.machine]⟩ ?_
  intro a l b ha hcarries hstep
  obtain ⟨hgated, hruntime⟩ := AuditedMcpServer.gated_of_reachable (server_reachable ha)
  exact hcarries.step (fun server label hserver => (hgated.step (.of_reachable hruntime) hserver).2) hstep

/-- The tool is called with the arguments as they were sent. -/
theorem Carries.args_eq (h : Carries w) {x i : Nat} {exchange : Exchange} {args : Graph}
    (hx : w.server.exchanges[x]? = some exchange) (hargs : w.arguments[x]? = some (some args))
    (hinvocation : exchange.invocation = some i) :
    ∃ inv, w.server.runtime.invocations[i]? = some inv ∧ inv.call.args = args := by
  obtain ⟨htool, hrejected, inv, arguments, hi, harguments, hparsed⟩ := h.called x exchange i hx hinvocation
  obtain rfl := Option.some.inj (hargs.symm.trans harguments)
  exact ⟨inv, hi, hparsed.trans (Graph.recordParsed_eq (h.clean x exchange args hx hargs htool hrejected))⟩

end Wire

/-- Arguments with a reserved key at any depth get to no schema and to no handler. -/
def Untouched {δ : Type} (inv : Invocation δ) : Prop := inv.schemaRuns = [] ∧ inv.entered = []

/-- The input budget, over every graph and every maximum, and over every run of a runtime and of a
    server on its transport:

    * the walk ends by itself, with at most `maximum + 1` counted entries, and returns `true` exactly
      when the value unfolds to a finite tree of at most `maximum` entries without a reserved key;
    * a cyclic value is refused, and `JSON.stringify` never throws in `invoke`;
    * a schema only runs on values without a reserved key, and arguments that hold one at any depth
      reach neither a schema nor a handler, whether they are passed to `invoke` or sent. -/
theorem input_budget :
    (∀ (g : Graph) (maximum : Nat),
      (∀ fuel, maximum + 2 ≤ fuel →
        g.walk maximum fuel [g.root] 0 = some (g.withinInputElementLimit maximum) ∧
          g.counted maximum fuel [g.root] 0 ≤ maximum + 1) ∧
      (g.withinInputElementLimit maximum = true ↔ g.Clean g.root ∧
        ∃ fuel tree, g.unfold fuel g.root = some tree ∧ tree.entryCount ≤ maximum) ∧
      (g.Cyclic g.root → g.withinInputElementLimit maximum = false)) ∧
    (∀ (rt : RuntimeSetup) (δ : Type) (s : SecureRuntime δ), (SecureRuntime.machine rt δ).Reachable s →
      (∀ call tool message, s.refusal rt call tool ≠ some (.other message)) ∧
      ∀ (i : Nat) inv, s.invocations[i]? = some inv →
        (∀ args ∈ inv.schemaRuns, args.Clean args.root) ∧
        (¬ inv.call.args.Clean inv.call.args.root → Untouched inv)) ∧
    (∀ (setup : ServerSetup) (δ : Type) (w : Wire δ), (Wire.machine setup δ).Reachable w →
      ∀ (x i : Nat) exchange inv args, w.server.exchanges[x]? = some exchange →
        w.arguments[x]? = some (some args) → exchange.invocation = some i →
        w.server.runtime.invocations[i]? = some inv → ¬ args.Clean args.root → Untouched inv) := by
  refine ⟨fun g maximum => ⟨fun fuel hfuel => ⟨Graph.walk_of_le hfuel, Graph.counted_le (Nat.zero_le _)⟩,
    Graph.within_iff, fun h => Graph.not_within_of_cyclic h maximum⟩, ?_, ?_⟩
  · intro rt δ s hs
    exact ⟨SecureRuntime.refusal_ne_other s, fun i inv hi =>
      ⟨SecureRuntime.clean_of_schemaRun hs hi, SecureRuntime.untouched_of_reserved hs hi⟩⟩
  · intro setup δ w hw x i exchange inv args hx hargs hinvocation hi hreserved
    obtain ⟨inv', hi', hsame⟩ := (Wire.Carries.of_reachable hw).args_eq hx hargs hinvocation
    obtain rfl := Option.some.inj (hi.symm.trans hi')
    have hruntime := (AuditedMcpServer.gated_of_reachable (Wire.server_reachable hw)).2
    exact SecureRuntime.untouched_of_reserved hruntime hi (by rwa [hsame])

end SecureMcp
