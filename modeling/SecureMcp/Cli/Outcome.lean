import SecureMcp.Cli.Startup

set_option autoImplicit false

/-! # How a start ends

One triple for each part of `main`. Where it throws, whatever was made is closed, and what is printed is
one of finitely many texts that are true of what the system answered. Where it serves, the registry is
well-formed and covers the tools that are allowed. -/

namespace SecureMcp

namespace Cli

open EStateM

/-! ## The registry -/

/-- What `register` maintains. -/
structure WellFormed (registry : List ToolPolicy) : Prop where
  name : ∀ tool ∈ registry, Config.isName tool.name = true
  unique : (registry.map ToolPolicy.name).Nodup
  scopes : ∀ tool ∈ registry, tool.requiredScopes ≠ []

theorem wellFormed_nil : WellFormed [] :=
  ⟨by simp, by simp, by simp⟩

theorem WellFormed.of_append {registry tools : List ToolPolicy} (h : WellFormed (registry ++ tools)) :
    WellFormed registry := by
  refine ⟨fun tool ht => h.name tool (List.mem_append_left _ ht), ?_,
    fun tool ht => h.scopes tool (List.mem_append_left _ ht)⟩
  have hunique := h.unique
  rw [List.map_append] at hunique
  exact (List.nodup_append.mp hunique).1

/-- `register` succeeds where the registry stays well-formed. -/
theorem register_eq_some_iff {registry : List ToolPolicy} (h : WellFormed registry) (tool : ToolPolicy)
    (result : List ToolPolicy) :
    register registry tool = some result ↔
      result = registry ++ [tool] ∧ WellFormed (registry ++ [tool]) := by
  have hkeeps : WellFormed (registry ++ [tool]) ↔
      Config.isName tool.name = true ∧ tool.name ∉ registry.map ToolPolicy.name ∧
        tool.requiredScopes ≠ [] := by
    constructor
    · intro hall
      refine ⟨hall.name tool (by simp), ?_, hall.scopes tool (by simp)⟩
      have hunique := hall.unique
      rw [List.map_append, List.map_singleton, List.nodup_append] at hunique
      intro hmem
      exact hunique.2.2 _ hmem _ (List.mem_singleton.mpr rfl) rfl
    · rintro ⟨hname, hnew, hscopes⟩
      refine ⟨?_, ?_, ?_⟩
      · intro other hother
        rcases List.mem_append.mp hother with hold | hlast
        · exact h.name other hold
        · rw [List.mem_singleton.mp hlast]
          exact hname
      · rw [List.map_append, List.map_singleton]
        refine List.nodup_append.mpr ⟨h.unique, by simp, ?_⟩
        intro other hother last hlast heq
        rw [List.mem_singleton.mp hlast] at heq
        exact hnew (heq ▸ hother)
      · intro other hother
        rcases List.mem_append.mp hother with hold | hlast
        · exact h.scopes other hold
        · rw [List.mem_singleton.mp hlast]
          exact hscopes
  unfold register
  rw [hkeeps]
  split
  · next hbad =>
      simp only [Bool.or_eq_true, Bool.not_eq_true', List.contains_iff_mem, beq_iff_eq,
        List.length_eq_zero_iff] at hbad
      constructor
      · intro hnone
        cases hnone
      · rintro ⟨_, hname, hnew, hscopes⟩
        rcases hbad with (hbad | hbad) | hbad
        · rw [hname] at hbad
          cases hbad
        · exact absurd hbad hnew
        · exact absurd hbad hscopes
  · next hgood =>
      simp only [Bool.or_eq_true, Bool.not_eq_true', List.contains_iff_mem, beq_iff_eq,
        List.length_eq_zero_iff, not_or, Bool.not_eq_false] at hgood
      constructor
      · intro hsome
        exact ⟨(Option.some.inj hsome).symm, hgood.1.1, hgood.1.2, hgood.2⟩
      · rintro ⟨rfl, _⟩
        rfl

/-- The tools of a caller are registered where they are well-formed, all of them and in order. -/
theorem foldlM_register_iff (tools : List ToolPolicy) {registry : List ToolPolicy}
    (h : WellFormed registry) (result : List ToolPolicy) :
    tools.foldlM register registry = some result ↔
      result = registry ++ tools ∧ WellFormed (registry ++ tools) := by
  induction tools generalizing registry with
  | nil =>
      simp only [List.foldlM_nil, List.append_nil]
      exact ⟨fun heq => ⟨(Option.some.inj heq).symm, h⟩, fun heq => by rw [heq.1]; rfl⟩
  | cons tool rest ih =>
      rw [List.foldlM_cons]
      constructor
      · intro hrun
        obtain ⟨next, hnext, hrest⟩ := Option.bind_eq_some_iff.mp hrun
        obtain ⟨rfl, hwell⟩ := (register_eq_some_iff h tool next).mp hnext
        have hdone := (ih hwell).mp hrest
        rwa [List.append_assoc, List.singleton_append] at hdone
      · rintro ⟨rfl, hwell⟩
        have hassoc : registry ++ tool :: rest = registry ++ [tool] ++ rest := by simp
        rw [hassoc] at hwell
        have hnext : WellFormed (registry ++ [tool]) := hwell.of_append
        refine Option.bind_eq_some_iff.mpr ⟨registry ++ [tool], ?_, (ih hnext).mpr ⟨hassoc, hwell⟩⟩
        exact (register_eq_some_iff h tool _).mpr ⟨rfl, hnext⟩

/-- The tools of the package that a configuration registers. -/
def registryOf (config : ParsedConfig) : List ToolPolicy :=
  (if config.allowedTools.contains documentsRead.name then [documentsRead] else []) ++
    [policyStatus] ++ (if config.api.isSome then [apiRead] else [])

theorem wellFormed_registryOf (config : ParsedConfig) : WellFormed (registryOf config) := by
  unfold registryOf
  cases config.allowedTools.contains documentsRead.name <;> cases config.api.isSome <;>
    exact ⟨by decide +kernel, by decide +kernel, by decide +kernel⟩

/-- Every tool that is allowed is registered. -/
def Covered (config : ParsedConfig) (registry : List ToolPolicy) : Prop :=
  ∀ name ∈ config.allowedTools, name ∈ registry.map ToolPolicy.name

theorem covered_iff (config : ParsedConfig) (registry : List ToolPolicy) :
    config.allowedTools.all (fun name => (registry.map ToolPolicy.name).contains name) = true ↔
      Covered config registry := by
  rw [List.all_eq_true]
  exact forall₂_congr (fun name _ => List.contains_iff_mem)

section World

variable (w : CliWorld)

/-! ## `create` -/

/-- The root of the document tool is open where the tool is registered. -/
def rootsOf (config : ParsedConfig) (tools : Option (List ToolPolicy)) : Nat :=
  if tools.isNone && config.allowedTools.contains documentsRead.name then 1 else 0

/-- Why `create` may throw. -/
inductive Uncreated (config : ParsedConfig) (tools : Option (List ToolPolicy)) : Prop
  | malformed (given : List ToolPolicy) (htools : tools = some given) (h : ¬ WellFormed given)
  | document (htools : tools = none) (h : w.documentTool = false)
  | uncovered (h : ¬ Covered config (tools.getD (registryOf config)))

theorem require_spec {α : Type} {P : CliState → Prop} {Q : α → CliState → Prop}
    {E : StartupError → CliState → Prop} {found : Option α}
    (hsome : ∀ value, found = some value → ∀ s, P s → Q value s)
    (hnone : found = none → ∀ s, P s → E .other s) : Triple P (require found) Q E := by
  cases found with
  | some value => exact Triple.returns (hsome value rfl)
  | none => exact Triple.throws (hnone rfl)

theorem registerDocuments_spec (config : ParsedConfig) :
    Triple (fun s => s = { runtimes := 1 }) (registerDocuments w config)
      (fun documents s =>
        documents = (if config.allowedTools.contains documentsRead.name then [documentsRead] else []) ∧
          s = { runtimes := 1, roots := rootsOf config none })
      (fun error s => error = .other ∧ w.documentTool = false ∧ s = { runtimes := 1 }) := by
  refine Triple.ite (fun hallowed => ?_) (fun hallowed => ?_)
  · refine Triple.bind (Q := fun _ s => s = { runtimes := 1, roots := 1 }) ?_ (fun _ => ?_)
    · refine Triple.ite (fun _ => Triple.updates _ ?_) (fun hfails => Triple.throws ?_)
      · rintro s rfl
        rfl
      · rintro s rfl
        exact ⟨rfl, Bool.eq_false_iff.mpr hfails, rfl⟩
    · refine require_spec (fun documents hdocuments s hs => ?_) (fun hnone => ?_)
      · have hregister : register [] documentsRead = some [documentsRead] := by decide +kernel
        rw [hregister] at hdocuments
        refine ⟨by rw [if_pos hallowed]; exact (Option.some.inj hdocuments).symm, ?_⟩
        rw [hs, rootsOf, hallowed]
        rfl
      · exact absurd hnone (by decide +kernel)
  · refine Triple.returns (fun s hs => ⟨by rw [if_neg hallowed], ?_⟩)
    rw [hs, rootsOf, Bool.eq_false_iff.mpr hallowed]
    rfl

/-- Of a tool that the package registers after others of its own. -/
theorem register_of_wellFormed {registry tools : List ToolPolicy} {tool : ToolPolicy}
    (h : WellFormed (registry ++ [tool] ++ tools)) :
    register registry tool = some (registry ++ [tool]) := by
  have hnext : WellFormed (registry ++ [tool]) := h.of_append
  exact (register_eq_some_iff hnext.of_append tool _).mpr ⟨rfl, hnext⟩

theorem registerTools_spec (config : ParsedConfig) (tools : Option (List ToolPolicy)) :
    Triple (fun s => s = { runtimes := 1 }) (registerTools w config tools)
      (fun registry s => WellFormed registry ∧ registry = tools.getD (registryOf config) ∧
        s = { runtimes := 1, roots := rootsOf config tools })
      (fun error s => error = .other ∧ Uncreated w config tools ∧ s = { runtimes := 1 }) := by
  cases tools with
  | some given =>
      refine require_spec (fun registry hrun s hs => ?_) (fun hnone s hs => ?_)
      · obtain ⟨rfl, hwell⟩ := (foldlM_register_iff given wellFormed_nil registry).mp hrun
        exact ⟨hwell, rfl, hs⟩
      · refine ⟨rfl, .malformed given rfl (fun hwell => ?_), hs⟩
        have hall := (foldlM_register_iff given wellFormed_nil given).mpr ⟨rfl, hwell⟩
        rw [hnone] at hall
        cases hall
  | none =>
      have hwell := wellFormed_registryOf config
      rw [Option.getD_none]
      refine Triple.bind ((registerDocuments_spec w config).weaken (fun _ hs => hs) (fun _ _ hs => hs)
        (fun error s hs => ⟨hs.1, .document rfl hs.2.1, hs.2.2⟩)) (fun documents => ?_)
      rintro s ⟨hdocuments, hs⟩
      rw [registryOf, ← hdocuments] at hwell ⊢
      refine (Triple.bind (P := fun s => s = { runtimes := 1, roots := rootsOf config none })
        (Q := fun policies s => policies = documents ++ [policyStatus] ∧
          s = { runtimes := 1, roots := rootsOf config none }) ?_ (fun policies => ?_)) s hs
      · rw [register_of_wellFormed hwell]
        exact Triple.returns (fun s hs => ⟨rfl, hs⟩)
      · cases hapi : config.api.isSome with
        | false =>
            rw [hapi] at hwell
            refine Triple.returns ?_
            rintro s ⟨rfl, hs⟩
            exact ⟨hwell.of_append, (List.append_nil _).symm, hs⟩
        | true =>
            rw [hapi] at hwell
            have happend : WellFormed (documents ++ [policyStatus] ++ [apiRead] ++ []) := by
              rw [List.append_nil]
              exact hwell
            rintro s ⟨rfl, hs⟩
            rw [register_of_wellFormed happend]
            exact ⟨hwell, rfl, hs⟩

/-- `create` makes one runtime. It returns it with the tools, or closes it. -/
theorem create_spec (config : ParsedConfig) (tools : Option (List ToolPolicy)) :
    Triple (fun s => s = {}) (create w config tools)
      (fun registry s => WellFormed registry ∧ registry = tools.getD (registryOf config) ∧
        Covered config registry ∧ s = { runtimes := 1, roots := rootsOf config tools })
      (fun error s => error = .other ∧ (Uncreated w config tools ∨ w.closes = false) ∧
        s = { runtimes := 1, closed := 1 }) := by
  refine Triple.bind (Q := fun _ s => s = { runtimes := 1 }) (Triple.updates _ ?_) (fun _ => ?_)
  · rintro s rfl
    rfl
  refine Triple.catching (E := fun error s => error = .other ∧ Uncreated w config tools ∧
    ∃ roots, s = { runtimes := 1, roots }) ?_ (fun error => ?_)
  · refine Triple.bind ((registerTools_spec w config tools).weaken (fun _ hs => hs) (fun _ _ hs => hs)
      (fun error s hs => ⟨hs.1, hs.2.1, 0, hs.2.2⟩)) (fun registry => ?_)
    refine Triple.ite (fun hcovered => ?_) (fun huncovered => ?_)
    · exact Triple.returns (fun s hs => ⟨hs.1, hs.2.1, (covered_iff config registry).mp hcovered, hs.2.2⟩)
    · refine Triple.throws (fun s hs => ⟨rfl, .uncovered (fun hcovered => ?_), _, hs.2.2⟩)
      rw [← hs.2.1] at hcovered
      exact huncovered ((covered_iff config registry).mpr hcovered)
  · refine Triple.bind (Q := fun _ s => error = .other ∧ Uncreated w config tools ∧
      s = { runtimes := 1, closed := 1 }) ?_ (fun _ => ?_)
    · refine Triple.bind (Q := fun _ s => error = .other ∧ Uncreated w config tools ∧
        s = { runtimes := 1, closed := 1 }) (Triple.updates _ ?_) (fun _ => ?_)
      · rintro s ⟨herror, hwhy, roots, rfl⟩
        exact ⟨herror, hwhy, rfl⟩
      · refine Triple.ite (fun _ => Triple.returns (fun s hs => hs)) (fun hfails => Triple.throws ?_)
        rintro s ⟨_, _, hs⟩
        exact ⟨rfl, Or.inr (Bool.eq_false_iff.mpr hfails), hs⟩
    · exact Triple.throws (fun s hs => ⟨hs.1, Or.inl hs.2.1, hs.2.2⟩)

/-! ## The configuration that is selected -/

theorem get_cons (key : JsString) (value : Raw) (rest : List (JsString × Raw)) (name : JsString) :
    Raw.get ((key, value) :: rest) name = if key = name then value else Raw.get rest name := by
  unfold Raw.get
  by_cases hkey : key = name
  · rw [List.find?_cons_of_pos (by simpa using hkey), if_pos hkey]
  · rw [List.find?_cons_of_neg (by simpa using hkey), if_neg hkey]

theorem get_replaced (members : List (JsString × Raw)) (text name : JsString) :
    Raw.get (members.map (replaced text)) name =
      if name = js "workspace" ∧ members.any (fun member => member.1 == js "workspace") = true then
        .string text
      else Raw.get members name := by
  induction members with
  | nil => simp
  | cons first rest ih =>
      obtain ⟨key, value⟩ := first
      rw [List.map_cons, List.any_cons, get_cons]
      by_cases hkey : key = js "workspace"
      · have hhead : replaced text (key, value) = (key, .string text) :=
          if_pos (beq_iff_eq.mpr hkey)
        rw [hhead, get_cons, ih]
        subst hkey
        by_cases hname : js "workspace" = name
        · rw [if_pos hname, if_pos ⟨hname.symm, by simp⟩]
        · have hother : ¬ name = js "workspace" := fun heq => hname heq.symm
          rw [if_neg hname, if_neg (fun h => hother h.1), if_neg (fun h => hother h.1), if_neg hname]
      · have hbeq : (key == js "workspace") = false := beq_eq_false_iff_ne.mpr hkey
        have hhead : replaced text (key, value) = (key, value) :=
          if_neg (fun h => hkey (beq_iff_eq.mp h))
        rw [hhead, get_cons, ih]
        simp only [hbeq, Bool.false_or]
        by_cases hname : key = name
        · rw [if_pos hname, if_pos hname, if_neg (fun h => hkey (hname.trans h.1))]
        · rw [if_neg hname, if_neg hname]

theorem get_added (members : List (JsString × Raw)) (text name : JsString)
    (h : members.any (fun member => member.1 == js "workspace") = false) :
    Raw.get (members ++ [(js "workspace", .string text)]) name =
      if name = js "workspace" then .string text else Raw.get members name := by
  induction members with
  | nil =>
      rw [List.nil_append, get_cons]
      exact if_congr eq_comm rfl rfl
  | cons first rest ih =>
      obtain ⟨key, value⟩ := first
      rw [List.any_cons, Bool.or_eq_false_iff] at h
      have hkey : ¬ key = js "workspace" := beq_eq_false_iff_ne.mp h.1
      rw [List.cons_append, get_cons, get_cons, ih h.2]
      by_cases hname : key = name
      · rw [if_pos hname, if_pos hname, if_neg (fun heq => hkey (hname.trans heq))]
      · rw [if_neg hname, if_neg hname]

/-- Assigning a member leaves the others as they are. -/
theorem get_setWorkspace (members : List (JsString × Raw)) (text name : JsString) :
    Raw.get (setWorkspace members text) name =
      if name = js "workspace" then .string text else Raw.get members name := by
  unfold setWorkspace
  cases hany : members.any (fun member => member.1 == js "workspace") with
  | true =>
      rw [if_pos rfl, get_replaced]
      simp only [hany, and_true]
  | false =>
      rw [if_neg (by decide)]
      exact get_added members text name hany

/-- The object of the file that is selected, if one is. -/
def FileOf (values : CliValues) (file : List (JsString × Raw)) : Prop :=
  match truthy values.config with
  | none => file = []
  | some _ => ∃ contents, w.readFile = .ok contents ∧ w.parse contents = some (.object file)

/-- The workspace of the file, resolved beside it. -/
def fileWorkspace (values : CliValues) (file : List (JsString × Raw)) : Raw :=
  match truthy values.config, Raw.get file (js "workspace") with
  | some path, .string workspace => .string (w.resolveBeside path workspace)
  | _, given => given

/-- That of the option comes first. -/
def workspaceOf (values : CliValues) (file : List (JsString × Raw)) : Raw :=
  match truthy values.workspace with
  | some workspace => .string (w.env.resolve workspace)
  | none => fileWorkspace w values file

/-- Apart from the workspace, the members are those of the file. -/
def Selected (values : CliValues) (members : List (JsString × Raw)) : Prop :=
  ∃ file, FileOf w values file ∧ ∀ name, Raw.get members name =
    if name = js "workspace" then workspaceOf w values file else Raw.get file name

/-! ## Why a start fails -/

/-- What is thrown, and what it says of the answers that the start was given. -/
inductive Reason : StartupError → Prop
  | node (h : supportedNode w.nodeVersion = false) : Reason .unsupported
  | arguments (h : w.arguments = none) : Reason (.diagnostic (js
      "arguments: unknown option, unexpected argument or missing option value; run --help for usage"))
  | unread (code : Option JsString) (h : w.readFile = .error code) :
      Reason (.diagnostic (StartupDiagnostic.filesystemDiagnostic .config code))
  | unparsed (contents : JsString) (hread : w.readFile = .ok contents) (h : w.parse contents = none) :
      Reason (.diagnostic (js "config: invalid JSON; check syntax in the selected file"))
  | notObject (contents : JsString) (hread : w.readFile = .ok contents)
      (h : ∀ file, w.parse contents ≠ some (.object file)) :
      Reason (.diagnostic (js "config: must be a JSON object"))
  | refused (values : CliValues) (members : List (JsString × Raw)) (issues : List ZodIssue)
      (hselected : Selected w values members)
      (h : Config.parseConfig w.env (.object members) = .error issues) (hsome : issues ≠ [])
      (haccounted : ∀ zod ∈ issues, StartupDiagnostic.Accounted w.env zod) :
      Reason (.diagnostic (StartupDiagnostic.configurationDiagnostic issues))
  | noWorkspace (values : CliValues) (members : List (JsString × Raw)) (config : ParsedConfig)
      (hselected : Selected w values members)
      (hparse : Config.parseConfig w.env (.object members) = .ok config)
      (hallowed : documentsRead.name ∈ config.allowedTools)
      (h : Raw.get members (js "workspace") = .undefined) :
      Reason (.diagnostic (js
        "workspace: choose an approved workspace with --workspace DIRECTORY or --config FILE"))
  | unopened (code : Option JsString) (h : w.openWorkspace = .error code) :
      Reason (.diagnostic (StartupDiagnostic.filesystemDiagnostic .workspace code))
  | unavailable (values : CliValues) (members : List (JsString × Raw)) (config : ParsedConfig)
      (hselected : Selected w values members)
      (hparse : Config.parseConfig w.env (.object members) = .ok config)
      (h : ¬ Covered config (registryOf config)) :
      Reason (.diagnostic (js ("allowedTools: contains an unavailable tool; check supported names and " ++
        "optional API configuration")))
  | unheard (code : Option JsString) (h : w.serveHttp = .error code) :
      Reason (.diagnostic (listenerDiagnostic code))
  | document (h : w.documentTool = false) : Reason .other
  | close (h : w.closes = false) : Reason .other

/-- What is left where `main` throws: whatever was made is closed. -/
structure Fails (error : StartupError) (s : CliState) : Prop where
  reason : Reason w error
  closed : s.closed = s.runtimes
  made : s.runtimes ≤ 1
  roots : s.roots = 0
  stderr : s.stderr = []

/-- What was checked before a server runs. -/
structure Ready (values : CliValues) (members : List (JsString × Raw)) (config : ParsedConfig)
    (registry : List ToolPolicy) : Prop where
  selected : Selected w values members
  parsed : Config.parseConfig w.env (.object members) = .ok config
  /-- Documents are read from a workspace that somebody chose and that could be opened. -/
  workspace : documentsRead.name ∈ config.allowedTools →
    Raw.get members (js "workspace") ≠ .undefined ∧ w.openWorkspace = .ok ()
  tools : registry = registryOf config
  wellFormed : WellFormed registry
  covered : Covered config registry

/-- What was printed, and what is open, where a server runs. -/
structure Serves (config : ParsedConfig) (s : CliState) : Prop where
  runtimes : s.runtimes = 1
  closed : s.closed = 0
  roots : s.roots = rootsOf config none
  stdout : s.stdout = []
  stdio : config.transport = .stdio → s.stderr = []
  http : config.transport = .http →
    ∃ url, w.serveHttp = .ok url ∧ s.stderr = [listeningLine url]

/-- How `main` ends where it does not throw. -/
inductive Ends : Started → CliState → Prop
  | done (s : CliState) (hclosed : s.closed = s.runtimes) (hroots : s.roots = 0)
      (hstderr : s.stderr = []) : Ends .done s
  | serving (values : CliValues) (members : List (JsString × Raw)) (config : ParsedConfig)
      (registry : List ToolPolicy) (s : CliState) (harguments : w.arguments = some values)
      (hdoctor : values.doctor = false) (hready : Ready w values members config registry)
      (h : Serves w config s) : Ends (.serving members config registry) s

theorem fails_of_untouched {error : StartupError} {s : CliState} (h : s = {})
    (hreason : Reason w error) : Fails w error s := by
  subst h
  exact ⟨hreason, rfl, Nat.zero_le _, rfl, rfl⟩

theorem readFile_spec :
    Triple (fun s => s = {}) (readFile w) (fun contents s => w.readFile = .ok contents ∧ s = {})
      (Fails w) := by
  unfold readFile
  cases hread : w.readFile with
  | ok contents => exact Triple.returns (fun s hs => ⟨rfl, hs⟩)
  | error code => exact Triple.throws (fun s hs => fails_of_untouched w hs (.unread code hread))

theorem readConfig_spec (path : JsString) :
    Triple (fun s => s = {}) (readConfig w path)
      (fun members s => (∃ contents file, w.readFile = .ok contents ∧
        w.parse contents = some (.object file) ∧
        members = match Raw.get file (js "workspace") with
          | .string workspace => setWorkspace file (w.resolveBeside path workspace)
          | _ => file) ∧ s = {})
      (Fails w) := by
  refine Triple.bind (readFile_spec w) (fun contents => ?_)
  cases hparse : w.parse contents with
  | none =>
      exact Triple.throws (fun s hs => fails_of_untouched w hs.2 (.unparsed contents hs.1 hparse))
  | some raw =>
      cases raw with
      | object file =>
          show Triple _ (match Raw.get file (js "workspace") with
            | .string workspace => pure (setWorkspace file (w.resolveBeside path workspace))
            | _ => pure file) _ _
          split
          · next workspace hworkspace =>
              refine Triple.returns (fun s hs => ⟨⟨contents, file, hs.1, hparse, ?_⟩, hs.2⟩)
              rw [hworkspace]
          · next hother =>
              refine Triple.returns (fun s hs => ⟨⟨contents, file, hs.1, hparse, ?_⟩, hs.2⟩)
              split
              · next workspace hworkspace => exact absurd hworkspace (hother workspace)
              · rfl
      | _ =>
          refine Triple.throws (fun s hs => fails_of_untouched w hs.2 (.notObject contents hs.1 ?_))
          intro file hfile
          rw [hparse] at hfile
          cases hfile

/-- The members of the file before the option is looked at. -/
theorem selectFile_spec (values : CliValues) :
    Triple (fun s => s = {}) (selectFile w values)
      (fun members s => (∃ file, FileOf w values file ∧ ∀ name, Raw.get members name =
        if name = js "workspace" then fileWorkspace w values file else Raw.get file name) ∧ s = {})
      (Fails w) := by
  unfold selectFile FileOf fileWorkspace
  cases hconfig : truthy values.config with
  | none =>
      refine Triple.returns (fun s hs => ⟨⟨[], rfl, fun name => ?_⟩, hs⟩)
      split <;> rfl
  | some path =>
      refine (readConfig_spec w path).weaken (fun _ hs => hs) ?_ (fun _ _ hs => hs)
      rintro members s ⟨⟨contents, file, hread, hparse, rfl⟩, hs⟩
      refine ⟨⟨file, ⟨contents, hread, hparse⟩, fun name => ?_⟩, hs⟩
      cases hgiven : Raw.get file (js "workspace") with
      | string workspace => exact get_setWorkspace file _ name
      | _ =>
          show Raw.get file name = _
          split
          · next hname => rw [hname, hgiven]
          · rfl

theorem selectConfig_spec (values : CliValues) :
    Triple (fun s => s = {}) (selectConfig w values)
      (fun members s => Selected w values members ∧ s = {}) (Fails w) := by
  refine Triple.bind (selectFile_spec w values) (fun members => ?_)
  cases hoption : truthy values.workspace with
  | some workspace =>
      refine Triple.returns ?_
      rintro s ⟨⟨file, hfile, hget⟩, hs⟩
      refine ⟨⟨file, hfile, fun name => ?_⟩, hs⟩
      rw [get_setWorkspace, workspaceOf, hoption, hget]
      split <;> rfl
  | none =>
      refine Triple.returns ?_
      rintro s ⟨⟨file, hfile, hget⟩, hs⟩
      refine ⟨⟨file, hfile, fun name => ?_⟩, hs⟩
      rw [hget, workspaceOf, hoption]

theorem parse_spec (hcontract : Config.Contract w.env) (values : CliValues)
    (members : List (JsString × Raw)) :
    Triple (fun s => Selected w values members ∧ s = {}) (parse w members)
      (fun config s => (Selected w values members ∧
        Config.parseConfig w.env (.object members) = .ok config) ∧ s = {})
      (Fails w) := by
  unfold parse
  cases hparse : Config.parseConfig w.env (.object members) with
  | ok config => exact Triple.returns (fun s hs => ⟨⟨hs.1, rfl⟩, hs.2⟩)
  | error issues =>
      obtain ⟨hsome, haccounted⟩ := StartupDiagnostic.accounted_of_parseConfig hcontract hparse
      exact Triple.throws (fun s hs => fails_of_untouched w hs.2
        (.refused values members issues hs.1 hparse hsome haccounted))

theorem checkWorkspace_spec (values : CliValues) (members : List (JsString × Raw))
    (config : ParsedConfig) (hselected : Selected w values members)
    (hparse : Config.parseConfig w.env (.object members) = .ok config) :
    Triple (fun s => s = {}) (checkWorkspace w members config)
      (fun _ s => (documentsRead.name ∈ config.allowedTools →
        Raw.get members (js "workspace") ≠ .undefined ∧ w.openWorkspace = .ok ()) ∧ s = {})
      (Fails w) := by
  refine Triple.ite (fun hallowed => ?_) (fun hother => ?_)
  · rw [List.contains_iff_mem] at hallowed
    split
    · next hnone =>
        exact Triple.throws (fun s hs => fails_of_untouched w hs
          (.noWorkspace values members config hselected hparse hallowed hnone))
    · next hsome =>
        cases hopen : w.openWorkspace with
        | ok _ => exact Triple.returns (fun s hs => ⟨fun _ => ⟨hsome, rfl⟩, hs⟩)
        | error code =>
            exact Triple.throws (fun s hs => fails_of_untouched w hs (.unopened code hopen))
  · refine Triple.returns (fun s hs => ⟨fun hallowed => ?_, hs⟩)
    exact absurd (List.contains_iff_mem.mpr hallowed) hother

/-- The check of `main` and the check of `create` accept the same tools. -/
theorem covered_registryOf_iff (config : ParsedConfig) :
    Covered config (registryOf config) ↔ ∀ name ∈ config.allowedTools, name ∈ availableNames config := by
  refine forall₂_congr (fun name hname => ?_)
  unfold registryOf availableNames
  cases hdocuments : config.allowedTools.contains documentsRead.name with
  | true => cases config.api.isSome <;> rfl
  | false =>
      have hother : name ≠ documentsRead.name := by
        intro heq
        rw [← heq, List.contains_iff_mem.mpr hname] at hdocuments
        cases hdocuments
      cases config.api.isSome <;> simp [hother]

theorem checkTools_spec (values : CliValues) (members : List (JsString × Raw))
    (config : ParsedConfig) (hselected : Selected w values members)
    (hparse : Config.parseConfig w.env (.object members) = .ok config) {P : Prop} :
    Triple (fun s => P ∧ s = {}) (checkTools config)
      (fun _ s => (P ∧ Covered config (registryOf config)) ∧ s = {}) (Fails w) := by
  refine Triple.ite (fun hany => ?_) (fun hall => ?_)
  · refine Triple.throws (fun s hs => fails_of_untouched w hs.2
      (.unavailable values members config hselected hparse (fun hcovered => ?_)))
    obtain ⟨name, hname, hout⟩ := List.any_eq_true.mp hany
    rw [List.contains_iff_mem.mpr ((covered_registryOf_iff config).mp hcovered name hname)] at hout
    cases hout
  · refine Triple.returns (fun s hs => ⟨⟨hs.1, (covered_registryOf_iff config).mpr ?_⟩, hs.2⟩)
    intro name hname
    by_contra hout
    refine hall (List.any_eq_true.mpr ⟨name, hname, ?_⟩)
    rw [Bool.not_eq_true', Bool.eq_false_iff]
    exact fun hin => hout (List.contains_iff_mem.mp hin)

/-- `runtime.close()` on the one runtime there is. -/
theorem closeRuntime_spec {P : CliState → Prop}
    (hP : ∀ s, P s → s.runtimes = 1 ∧ s.closed = 0 ∧ s.stderr = []) :
    Triple P (closeRuntime w)
      (fun _ s => s.runtimes = 1 ∧ s.closed = 1 ∧ s.roots = 0 ∧ s.stderr = []) (Fails w) := by
  refine Triple.bind (Q := fun _ s => s.runtimes = 1 ∧ s.closed = 1 ∧ s.roots = 0 ∧ s.stderr = [])
    (Triple.updates _ ?_) (fun _ => ?_)
  · intro s hs
    obtain ⟨hruntimes, hclosed, hstderr⟩ := hP s hs
    exact ⟨hruntimes, by rw [hclosed], rfl, hstderr⟩
  · refine Triple.ite (fun _ => Triple.returns (fun s hs => hs)) (fun hfails => Triple.throws ?_)
    rintro s ⟨hruntimes, hclosed, hroots, hstderr⟩
    exact ⟨.close (Bool.eq_false_iff.mpr hfails), by rw [hclosed, hruntimes],
      Nat.le_of_eq hruntimes, hroots, hstderr⟩

theorem run_spec (values : CliValues) (members : List (JsString × Raw)) (config : ParsedConfig)
    (registry : List ToolPolicy) (harguments : w.arguments = some values) :
    Triple (fun s => Ready w values members config registry ∧
        s = { runtimes := 1, roots := rootsOf config none })
      (run w values members config registry) (Ends w) (Fails w) := by
  refine Triple.ite (fun hdoctor => ?_) (fun hserve => Triple.ite (fun hhttp => ?_) (fun hstdio => ?_))
  · refine Triple.bind (Q := fun _ s => s.runtimes = 1 ∧ s.closed = 0 ∧ s.stderr = [])
      (Triple.updates _ ?_) (fun _ => ?_)
    · rintro s ⟨_, rfl⟩
      exact ⟨rfl, rfl, rfl⟩
    · refine Triple.bind (closeRuntime_spec w (fun s hs => hs)) (fun _ => Triple.returns ?_)
      rintro s ⟨hruntimes, hclosed, hroots, hstderr⟩
      exact .done s (hclosed.trans hruntimes.symm) hroots hstderr
  · refine Triple.bind (Q := fun _ s => Ready w values members config registry ∧ Serves w config s)
      ?_ (fun _ => Triple.returns (fun s hs =>
        .serving values members config registry s harguments (Bool.eq_false_iff.mpr hserve) hs.1 hs.2))
    unfold listen
    cases hlisten : w.serveHttp with
    | ok url =>
        refine Triple.updates _ ?_
        rintro s ⟨hready, rfl⟩
        refine ⟨hready, rfl, rfl, rfl, rfl, fun hstdio => ?_, fun _ => ⟨url, hlisten, rfl⟩⟩
        rw [hhttp] at hstdio
        cases hstdio
    | error code =>
        refine Triple.bind (closeRuntime_spec w ?_) (fun _ => Triple.throws ?_)
        · rintro s ⟨_, rfl⟩
          exact ⟨rfl, rfl, rfl⟩
        · rintro s ⟨hruntimes, hclosed, hroots, hstderr⟩
          exact ⟨.unheard code hlisten, hclosed.trans hruntimes.symm, Nat.le_of_eq hruntimes, hroots,
            hstderr⟩
  · refine Triple.returns ?_
    rintro s ⟨hready, rfl⟩
    exact .serving values members config registry _ harguments (Bool.eq_false_iff.mpr hserve) hready
      ⟨rfl, rfl, rfl, rfl, fun _ => rfl, fun hhttp => absurd hhttp hstdio⟩

theorem createReady_spec (values : CliValues) (members : List (JsString × Raw)) (config : ParsedConfig)
    (hselected : Selected w values members)
    (hparse : Config.parseConfig w.env (.object members) = .ok config) :
    Triple (fun s => ((documentsRead.name ∈ config.allowedTools →
          Raw.get members (js "workspace") ≠ .undefined ∧ w.openWorkspace = .ok ()) ∧
        Covered config (registryOf config)) ∧ s = {})
      (create w config none)
      (fun registry s => Ready w values members config registry ∧
        s = { runtimes := 1, roots := rootsOf config none })
      (Fails w) := by
  rintro s ⟨⟨hworkspace, hcovered⟩, hs⟩
  -- `create` refuses nothing that `main` has accepted
  refine (create_spec w config none).weaken (P := fun s => s = {}) (fun _ hs => hs) ?_ ?_ s hs
  · rintro registry s ⟨hwell, htools, hcover, hs⟩
    exact ⟨⟨hselected, hparse, hworkspace, htools, hwell, hcover⟩, hs⟩
  · rintro error s ⟨rfl, hwhy, rfl⟩
    refine ⟨?_, rfl, Nat.le_refl _, rfl, rfl⟩
    rcases hwhy with hwhy | hcloses
    · cases hwhy with
      | malformed given htools => cases htools
      | document htools hfails => exact .document hfails
      | uncovered huncovered => exact absurd hcovered huncovered
    · exact .close hcloses

theorem mainWith_spec (hcontract : Config.Contract w.env) (values : CliValues)
    (harguments : w.arguments = some values) :
    Triple (fun s => s = {}) (mainWith w values) (Ends w) (Fails w) := by
  have hdone : ∀ text, Triple (fun s => s = {}) (do print text; pure Started.done) (Ends w) (Fails w) := by
    intro text
    refine Triple.bind (Q := fun _ s => s = { stdout := [text] }) (Triple.updates _ ?_)
      (fun _ => Triple.returns ?_)
    · rintro s rfl
      rfl
    · rintro s rfl
      exact .done _ rfl rfl rfl
  refine Triple.ite (fun _ => hdone _) (fun _ => Triple.ite (fun _ => hdone _) (fun _ => ?_))
  refine Triple.bind (selectConfig_spec w values) (fun members => ?_)
  refine Triple.bind (parse_spec w hcontract values members) (fun config => ?_)
  rintro s ⟨⟨hselected, hparse⟩, hs⟩
  refine (Triple.bind (checkWorkspace_spec w values members config hselected hparse) (fun _ => ?_)) s hs
  refine Triple.bind (checkTools_spec w values members config hselected hparse) (fun _ => ?_)
  refine Triple.bind (createReady_spec w values members config hselected hparse) (fun registry => ?_)
  exact run_spec w values members config registry harguments

/-! ## What is printed -/

/-- The codes of system errors that are told apart, and none of them. -/
def knownCodes : List (Option JsString) :=
  [none, some (js "ENOENT"), some (js "EACCES"), some (js "EPERM"), some (js "ENOTDIR"),
    some (js "EISDIR"), some (js "EADDRINUSE")]

/-- The texts that do not come from the issues of a configuration. -/
def fixedTexts : List JsString :=
  [js "arguments: unknown option, unexpected argument or missing option value; run --help for usage",
    js "config: invalid JSON; check syntax in the selected file", js "config: must be a JSON object",
    js "config: invalid configuration",
    js "workspace: choose an approved workspace with --workspace DIRECTORY or --config FILE",
    js ("allowedTools: contains an unavailable tool; check supported names and optional API " ++
      "configuration"),
    js "startup failed; check configuration, workspace access, and listener availability"] ++
  knownCodes.map listenerDiagnostic ++
  knownCodes.map (StartupDiagnostic.filesystemDiagnostic .config) ++
  knownCodes.map (StartupDiagnostic.filesystemDiagnostic .workspace)

/-- Every other code is told like none. -/
theorem told_as_known (code : Option JsString) : ∃ known ∈ knownCodes,
    listenerDiagnostic code = listenerDiagnostic known ∧
      ∀ area, StartupDiagnostic.filesystemDiagnostic area code =
        StartupDiagnostic.filesystemDiagnostic area known := by
  by_cases hknown : code ∈ knownCodes
  · exact ⟨code, hknown, rfl, fun _ => rfl⟩
  · refine ⟨none, by simp [knownCodes], ?_, fun area => ?_⟩
    · simp only [knownCodes, List.mem_cons, not_or] at hknown
      simp [listenerDiagnostic, hknown]
    · simp only [knownCodes, List.mem_cons, not_or] at hknown
      simp [StartupDiagnostic.filesystemDiagnostic, hknown]

theorem listenerDiagnostic_mem (code : Option JsString) : listenerDiagnostic code ∈ fixedTexts := by
  obtain ⟨known, hknown, heq, _⟩ := told_as_known code
  rw [heq]
  exact List.mem_append_left _ (List.mem_append_left _ (List.mem_append_right _
    (List.mem_map_of_mem hknown)))

theorem filesystemDiagnostic_mem (area : StartupDiagnostic.Area) (code : Option JsString) :
    StartupDiagnostic.filesystemDiagnostic area code ∈ fixedTexts := by
  obtain ⟨known, hknown, _, heq⟩ := told_as_known code
  rw [heq]
  cases area with
  | config =>
      exact List.mem_append_left _ (List.mem_append_right _ (List.mem_map_of_mem hknown))
  | workspace => exact List.mem_append_right _ (List.mem_map_of_mem hknown)

/-- What is printed between the name of the command and the end of the line. -/
inductive Printed (error : StartupError) : JsString → Prop
  | fixed (text : JsString) (h : text ∈ fixedTexts) : Printed error text
  | lines (text : JsString) (lines : List JsString) (h : StartupDiagnostic.Says text lines) :
      Printed error text
  | node (h : error = .unsupported) : Printed error (unsupportedMessage w.nodeVersion)

theorem printed_configurationDiagnostic (error : StartupError) (zods : List ZodIssue) :
    Printed w error (StartupDiagnostic.configurationDiagnostic zods) := by
  cases zods with
  | nil => exact .fixed _ (by decide +kernel)
  | cons first rest => exact .lines _ _ (StartupDiagnostic.says_of_issues (List.cons_ne_nil _ _))

/-- Nothing of what the system answered is printed but the version. -/
theorem printed_of_reason {error : StartupError} (h : Reason w error) :
    ∃ text, failureText w error = js "secure-mcp: " ++ text ++ js "\n" ∧ Printed w error text := by
  cases h with
  | node => exact ⟨_, rfl, .node rfl⟩
  | unread code => exact ⟨_, rfl, .fixed _ (filesystemDiagnostic_mem .config code)⟩
  | unopened code => exact ⟨_, rfl, .fixed _ (filesystemDiagnostic_mem .workspace code)⟩
  | unheard code => exact ⟨_, rfl, .fixed _ (listenerDiagnostic_mem code)⟩
  | refused _ _ issues => exact ⟨_, rfl, printed_configurationDiagnostic w _ _⟩
  | document | close =>
      refine ⟨js "startup failed; check configuration, workspace access, and listener availability", ?_,
        .fixed _ (by simp [fixedTexts])⟩
      show js ("secure-mcp: startup failed; check configuration, workspace access, and listener " ++
        "availability\n") = _
      decide +kernel
  | _ => exact ⟨_, rfl, .fixed _ (by simp [fixedTexts])⟩

/-- Whatever the system answers. -/
theorem main_ends (hcontract : Config.Contract w.env) :
    match main w {} with
    | .ok started s => Ends w started s
    | .error error s => Fails w error s ∧
      ∃ text, failureText w error = js "secure-mcp: " ++ text ++ js "\n" ∧ Printed w error text := by
  have hmain : Triple (fun s => s = {}) (main w) (Ends w) (Fails w) := by
    refine Triple.ite (fun _ => ?_) (fun hnode => Triple.throws (fun s hs =>
      fails_of_untouched w hs (.node (Bool.eq_false_iff.mpr hnode))))
    cases harguments : w.arguments with
    | some values => exact mainWith_spec w hcontract values harguments
    | none => exact Triple.throws (fun s hs => fails_of_untouched w hs (.arguments harguments))
  have hrun := hmain {} rfl
  cases hresult : main w {} with
  | ok started s =>
      rw [hresult] at hrun
      exact hrun
  | error error s =>
      rw [hresult] at hrun
      exact ⟨hrun, printed_of_reason w hrun.reason⟩

end World

/-- Where no text is a URL. -/
def noUrls : Urls := { parseUrl := fun _ => none, urlText := fun _ => none }

/-- The command without arguments, where every answer is a good one. -/
def bareWorld : CliWorld where
  nodeVersion := js "24.22.1"
  arguments := some {}
  readFile := .error none
  parse := fun _ => none
  env := { noUrls with resolve := fun text => js "/" ++ text, parse := Config.plainParse noUrls }
  resolveBeside := fun _ text => js "/" ++ text
  openWorkspace := .ok ()
  documentTool := true
  closes := true
  serveHttp := .error none

/-- No workspace was chosen, so nothing is served. -/
theorem main_ends_bareWorld :
    (match main bareWorld {} with
      | .ok started s => Ends bareWorld started s
      | .error error s => Fails bareWorld error s ∧
        ∃ text, failureText bareWorld error = js "secure-mcp: " ++ text ++ js "\n" ∧
          Printed bareWorld error text) ∧
    (match main bareWorld {} with
      | .ok _ _ => none
      | .error error _ => some (failureText bareWorld error)) = some (js
        ("secure-mcp: workspace: choose an approved workspace with --workspace DIRECTORY or --config " ++
          "FILE\n")) := by
  exact ⟨main_ends bareWorld (Config.contract_plainParse noUrls _), by decide +kernel⟩

end Cli

end SecureMcp
