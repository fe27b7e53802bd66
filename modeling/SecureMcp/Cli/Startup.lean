import SecureMcp.Cli.Diagnostics
import SecureMcp.Lib.Decimal
import SecureMcp.Lib.JsonObject
import SecureMcp.Lib.JsonLine
import SecureMcp.Lib.Triples

set_option autoImplicit false

/-! # The start of the command (`main` of `src/cli.ts`, `SecureRuntime.create` of `src/runtime.ts`)

`main` up to the point where the server runs, as code that throws. What the system and the libraries
answer is given beforehand (`CliWorld`); what is printed, and what is opened and closed, is the state. -/

namespace SecureMcp

/-! ## The version of Node (`src/node-version.ts`) -/

/-- The groups of `/^(0|[1-9]\d*)\.(0|[1-9]\d*)\.(0|[1-9]\d*)$/`. -/
def versionParts (version : JsString) : Option (Nat × Nat × Nat) :=
  match List.splitOn 0x2E version with
  | [major, minor, patch] =>
    if [major, minor, patch].all isNumeral then
      some (JsString.decimalValue major, JsString.decimalValue minor, JsString.decimalValue patch)
    else none
  | _ => none
where
  /-- `0|[1-9]\d*`. -/
  isNumeral (text : JsString) : Bool :=
    !text.isEmpty && text.all NumberState.isDigit && (text == [0x30] || text.head? != some 0x30)

def supportedNode (version : JsString) : Bool :=
  match versionParts version with
  | none => false
  | some (major, minor, patch) => major == 24 && (minor > 22 || (minor == 22 && patch ≥ 1))

example : ["24.22.1", "24.23.0", "24.22.0", "25.0.0", "024.23.0", "24.22"].map (fun v => supportedNode (js v)) =
    [true, true, false, false, false, false] := by decide +kernel

/-- The message of `UnsupportedRuntimeError`. -/
def unsupportedMessage (version : JsString) : JsString :=
  js "Unsupported Node.js " ++ version ++ js ("; SecureMCP requires Node.js >=24.22.1 <25. " ++
    "Select a supported Node 24 binary and restart.")

/-! ## Registration -/

/-- `register`; `none` where it throws. -/
def register (registry : List ToolPolicy) (tool : ToolPolicy) : Option (List ToolPolicy) :=
  if !Config.isName tool.name || (registry.map ToolPolicy.name).contains tool.name ||
      tool.requiredScopes.length == 0 then none
  else some (registry ++ [tool])

def documentsRead : ToolPolicy :=
  { name := js "documents_read", requiredScopes := [js "documents:read"], readOnly := true }

def policyStatus : ToolPolicy :=
  { name := js "policy_status", requiredScopes := [js "policy:read"], readOnly := true }

def apiRead : ToolPolicy :=
  { name := js "api_read", requiredScopes := [js "api:read"], readOnly := true }

/-! ## The command -/

/-- `values` of `parseArgs`. -/
structure CliValues where
  config : Option JsString := none
  workspace : Option JsString := none
  doctor : Bool := false
  help : Bool := false
  version : Bool := false
deriving DecidableEq

/-- What `main().catch` tells apart. -/
inductive StartupError
  | diagnostic (text : JsString)
  | unsupported
  | other
deriving DecidableEq

/-- What the system and the libraries answer. An error of the system is given by its `code`. -/
structure CliWorld where
  nodeVersion : JsString
  /-- `none`: `parseArgs` throws. -/
  arguments : Option CliValues
  readFile : Except (Option JsString) JsString
  /-- `JSON.parse`. -/
  parse : JsString → Option Raw
  env : ConfigEnv
  /-- `resolve(dirname(resolve(file)), path)`. -/
  resolveBeside : JsString → JsString → JsString
  /-- `open` of the workspace, and `close` of the handle. -/
  openWorkspace : Except (Option JsString) Unit
  /-- `createDocumentTool` is fulfilled. -/
  documentTool : Bool
  /-- `runtime.close()` is fulfilled. -/
  closes : Bool
  /-- `serveHttp`: the URL of the handle. -/
  serveHttp : Except (Option JsString) JsString

structure CliState where
  stdout : List JsString := []
  stderr : List JsString := []
  /-- The runtimes that were made, and those on which `close` was called. -/
  runtimes : Nat := 0
  closed : Nat := 0
  /-- The roots of document tools on which `close` was not called. -/
  roots : Nat := 0
deriving DecidableEq

abbrev CliScript : Type → Type := EStateM StartupError CliState

def VERSION : JsString := js "2.0.0-alpha.3"

namespace Cli

variable (w : CliWorld)

def fail {α : Type} (text : String) : CliScript α := throw (.diagnostic (js text))

def print (text : JsString) : CliScript Unit :=
  modify (fun s => { s with stdout := s.stdout ++ [text] })

/-- `runtime.close()`; nothing has been executed, so every disposer is called. -/
def closeRuntime : CliScript Unit := do
  modify (fun s => { s with closed := s.closed + 1, roots := 0 })
  if w.closes then pure () else throw .other

/-- A step of `create` that throws an error of its own. -/
def require {α : Type} (found : Option α) : CliScript α :=
  match found with
  | some value => pure value
  | none => throw .other

/-- `createDocumentTool`, as far as `create` sees it. -/
def createDocumentTool : CliScript Unit :=
  if w.documentTool then modify (fun s => { s with roots := s.roots + 1 }) else throw .other

/-- The branch for `documents_read`. -/
def registerDocuments (config : ParsedConfig) : CliScript (List ToolPolicy) :=
  if config.allowedTools.contains documentsRead.name then do
    createDocumentTool w
    require (register [] documentsRead)
  else pure []

/-- The tools that `create` registers; `tools` are those of the caller. -/
def registerTools (config : ParsedConfig) (tools : Option (List ToolPolicy)) :
    CliScript (List ToolPolicy) :=
  match tools with
  | some tools => require (tools.foldlM register [])
  | none => do
    let documents ← registerDocuments w config
    let policies ← require (register documents policyStatus)
    if config.api.isSome then require (register policies apiRead) else pure policies

/-- `SecureRuntime.create`, with a configuration that `parseConfig` has returned. -/
def create (config : ParsedConfig) (tools : Option (List ToolPolicy)) :
    CliScript (List ToolPolicy) := do
  modify (fun s => { s with runtimes := s.runtimes + 1 })
  try
    let registry ← registerTools w config tools
    if config.allowedTools.all (fun name => (registry.map ToolPolicy.name).contains name) then
      pure registry
    else throw .other
  catch error => do
    closeRuntime w
    throw error

/-- A member of the object after `config.workspace = text`. -/
def replaced (text : JsString) (member : JsString × Raw) : JsString × Raw :=
  if member.1 == js "workspace" then (member.1, .string text) else member

/-- `config.workspace = text`, for an object with this member or without it. -/
def setWorkspace (members : List (JsString × Raw)) (text : JsString) : List (JsString × Raw) :=
  if members.any (fun member => member.1 == js "workspace") then members.map (replaced text)
  else members ++ [(js "workspace", .string text)]

def readFile : CliScript JsString :=
  match w.readFile with
  | .ok contents => pure contents
  | .error code => throw (.diagnostic (StartupDiagnostic.filesystemDiagnostic .config code))

/-- The object of the selected file. -/
def readConfig (path : JsString) : CliScript (List (JsString × Raw)) := do
  let contents ← readFile w
  match w.parse contents with
  | none => fail "config: invalid JSON; check syntax in the selected file"
  | some (.object members) =>
    match Raw.get members (js "workspace") with
    | .string workspace => pure (setWorkspace members (w.resolveBeside path workspace))
    | _ => pure members
  | some _ => fail "config: must be a JSON object"

/-- A text that is there and not empty. -/
def truthy (text : Option JsString) : Option JsString := text.filter (fun text => !text.isEmpty)

/-- The branch for `--config`. -/
def selectFile (values : CliValues) : CliScript (List (JsString × Raw)) :=
  match truthy values.config with
  | some path => readConfig w path
  | none => pure []

/-- `config`, up to `parseConfig`. -/
def selectConfig (values : CliValues) : CliScript (List (JsString × Raw)) := do
  let members ← selectFile w values
  match truthy values.workspace with
  | some workspace => pure (setWorkspace members (w.env.resolve workspace))
  | none => pure members

def parse (members : List (JsString × Raw)) : CliScript ParsedConfig :=
  match Config.parseConfig w.env (.object members) with
  | .ok parsed => pure parsed
  | .error issues => throw (.diagnostic (StartupDiagnostic.configurationDiagnostic issues))

/-- The check of the workspace. -/
def checkWorkspace (members : List (JsString × Raw)) (parsed : ParsedConfig) : CliScript Unit :=
  if parsed.allowedTools.contains documentsRead.name then
    match Raw.get members (js "workspace") with
    | .undefined =>
      fail "workspace: choose an approved workspace with --workspace DIRECTORY or --config FILE"
    | _ =>
      match w.openWorkspace with
      | .ok _ => pure ()
      | .error code => throw (.diagnostic (StartupDiagnostic.filesystemDiagnostic .workspace code))
  else pure ()

def availableNames (parsed : ParsedConfig) : List JsString :=
  [documentsRead.name, policyStatus.name] ++ if parsed.api.isSome then [apiRead.name] else []

/-- The check of the tools. -/
def checkTools (parsed : ParsedConfig) : CliScript Unit :=
  if parsed.allowedTools.any (fun name => !(availableNames parsed).contains name) then
    fail ("allowedTools: contains an unavailable tool; check supported names and optional API " ++
      "configuration")
  else pure ()

/-- How `main` ends where it does not throw. -/
inductive Started
  /-- Nothing is left running. -/
  | done
  | serving (members : List (JsString × Raw)) (config : ParsedConfig) (registry : List ToolPolicy)

/-- The object of `--doctor`. -/
def doctorReport (config : ParsedConfig) : Json :=
  .ofFields
    [(js "version", some (.string VERSION)),
      (js "transport", some (.string (if config.transport = .http then js "http" else js "stdio"))),
      (js "readOnly", some (.bool config.readOnly)),
      (js "tools", some (.array (config.allowedTools.map .string))),
      (js "externalAuthentication", some (.bool config.http.isSome)),
      (js "limits", some (.ofFields
        [(js "maxConcurrent", some (.number (.ofInt config.limits.maxConcurrent))),
          (js "timeoutMs", some (.number (.ofInt config.limits.timeoutMs))),
          (js "maxInputBytes", some (.number (.ofInt config.limits.maxInputBytes))),
          (js "maxInputElements", some (.number (.ofInt config.limits.maxInputElements))),
          (js "maxOutputBytes", some (.number (.ofInt config.limits.maxOutputBytes))),
          (js "shutdownMs", some (.number (.ofInt config.limits.shutdownMs)))]))]

/-- Why the listener failed. -/
def listenerDiagnostic (code : Option JsString) : JsString :=
  if code = some (js "EADDRINUSE") then
    js "http.port: listener address is already in use; choose a free port"
  else if code = some (js "EACCES") ∨ code = some (js "EPERM") then
    js "http.port: permission denied when opening the listener; check host and port permissions"
  else js "http: listener startup failed; check bind address and port availability"

/-- The event of a listener. -/
def listeningLine (url : JsString) : JsString :=
  (Json.ofFields [(js "event", some (.string (js "listening"))), (js "url", some (.string url))]).stringify ++
    js "\n"

/-- `serveHttp`, with what follows its rejection. -/
def listen : CliScript Unit :=
  match w.serveHttp with
  | .ok url => modify (fun s => { s with stderr := s.stderr ++ [listeningLine url] })
  | .error code => do
    closeRuntime w
    throw (.diagnostic (listenerDiagnostic code))

/-- What follows `create`. -/
def run (values : CliValues) (members : List (JsString × Raw)) (parsed : ParsedConfig)
    (registry : List ToolPolicy) : CliScript Started :=
  if values.doctor then do
    print ((doctorReport parsed).stringify ++ js "\n")
    closeRuntime w
    pure .done
  else if parsed.transport = .http then do
    listen w
    pure (.serving members parsed registry)
  else pure (.serving members parsed registry)

/-- `main`, from the values of the arguments on. -/
def mainWith (values : CliValues) : CliScript Started :=
  if values.help then do
    print (js ("secure-mcp [--config FILE] [--workspace DIRECTORY] [--doctor] [--version]\n" ++
      "Default: stdio, read-only document tools. HTTP requires a config file.\n"))
    pure .done
  else if values.version then do
    print (VERSION ++ js "\n")
    pure .done
  else do
    let members ← selectConfig w values
    let parsed ← parse w members
    checkWorkspace w members parsed
    checkTools parsed
    let registry ← create w parsed none
    run w values members parsed registry

def main : CliScript Started := do
  if supportedNode w.nodeVersion then
    match w.arguments with
    | some values => mainWith w values
    | none => fail ("arguments: unknown option, unexpected argument or missing option value; " ++
        "run --help for usage")
  else throw .unsupported

/-- `main().catch`: what is written before the process ends with code 1. -/
def failureText : StartupError → JsString
  | .diagnostic text => js "secure-mcp: " ++ text ++ js "\n"
  | .unsupported => js "secure-mcp: " ++ unsupportedMessage w.nodeVersion ++ js "\n"
  | .other => js ("secure-mcp: startup failed; check configuration, workspace access, and listener " ++
      "availability\n")

end Cli

end SecureMcp
