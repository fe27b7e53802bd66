import SecureMcp.Lib.Collections
import SecureMcp.Lib.JsonParser

set_option autoImplicit false

/-! # Comparing bills of materials (`src/scripts/lib/consumer-evidence.mjs`)

`productionGraph` reads the packages of a CycloneDX document, and `compareProductionGraphs` compares
those of a build with those of a consumer. A document is a JSON value of any shape; every assertion
that fails, and every property that is read of `null`, ends the comparison. -/

namespace SecureMcp

/-- What depends on the language and the version of Unicode that the host has. -/
structure Locale where
  /-- `text.toLowerCase()`. -/
  toLowerCase : JsString → JsString
  /-- `a.localeCompare(b)`. -/
  localeCompare : JsString → JsString → Ordering

namespace Sbom

/-- The assertions, and the errors of the language. -/
inductive Failure
  | typeError
  | format
  | notArrays
  | missingRoot
  | invalidComponent
  | duplicateReference
  | unknownSource
  | duplicateSource
  | missingTargets
  | unknownTarget
  | rootMissing
  | wrapperDependencies
  | missingEntry
  | invalidHash
  | wrapperEdge
  | conflictingIntegrity
  | buildRootMissing
deriving DecidableEq, Repr

/-- The message of the error, where the source gives one. -/
def Failure.message : Failure → Option JsString
  | .typeError | .format | .notArrays | .invalidHash => none
  | .missingRoot => some (js "Missing SBOM root")
  | .invalidComponent => some (js "Invalid npm component")
  | .duplicateReference => some (js "Duplicate component reference")
  | .unknownSource => some (js "Unknown dependency source")
  | .duplicateSource => some (js "Duplicate dependency source")
  | .missingTargets => some (js "Missing dependency targets")
  | .unknownTarget => some (js "Unknown dependency target")
  | .rootMissing => some (js "Package root missing")
  | .wrapperDependencies =>
    some (js "Consumer must contain only the candidate as a direct dependency")
  | .missingEntry => some (js "Missing dependency entry")
  | .wrapperEdge => some (js "Edge to consumer wrapper")
  | .conflictingIntegrity => some (js "Conflicting duplicate integrity")
  | .buildRootMissing => some (js "Build SBOM root missing")

/-- `assert.ok(condition)`. -/
def check (condition : Bool) (failure : Failure) : Except Failure Unit :=
  if condition then .ok () else .error failure

/-! ## Components -/

/-- A component with the strings that have been found in it. -/
structure Component where
  purl : JsString
  version : JsString
  ref : JsString
  hashes : Option Json

def readComponent (component : Json) : Except Failure Component := do
  check (!component.isNull) .typeError
  match Json.text? (component.property (js "purl")), Json.text? (component.property (js "version")),
    Json.text? (component.property (js "bom-ref")) with
  | some purl, some version, some ref =>
    check ((js "pkg:npm/").isPrefixOf purl) .invalidComponent
    return { purl, version, ref, hashes := component.property (js "hashes") }
  | _, _, _ => throw .invalidComponent

/-- One round of the loop that fills `refs`. -/
def addComponent (refs : List Component) (value : Json) : Except Failure (List Component) := do
  let component ← readComponent value
  check (Keyed.get Component.ref refs component.ref).isNone .duplicateReference
  return Keyed.set Component.ref refs component

/-! ## Dependencies -/

/-- An entry of `edges`. -/
structure Dependency where
  ref : JsString
  dependsOn : List JsString

section Edges

variable (refs : List Component)

def hasRef (ref : JsString) : Bool := (Keyed.get Component.ref refs ref).isSome

def readTarget (target : Json) : Except Failure JsString :=
  match Json.text? (some target) with
  | some ref => if hasRef refs ref then .ok ref else .error .unknownTarget
  | none => .error .unknownTarget

/-- One round of the loop that fills `edges`. -/
def addDependency (edges : List Dependency) (dependency : Json) : Except Failure (List Dependency) := do
  check (!dependency.isNull) .typeError
  match Json.text? (dependency.property (js "ref")) with
  | none => throw .unknownSource
  | some ref =>
    check (hasRef refs ref) .unknownSource
    check (Keyed.get Dependency.ref edges ref).isNone .duplicateSource
    match dependency.property (js "dependsOn") with
    | some (.array targets) =>
      let dependsOn ← targets.mapM (readTarget refs)
      return Keyed.set Dependency.ref edges { ref, dependsOn }
    | _ => throw .missingTargets

/-- `refs.get(ref).purl`. -/
def purlOf (ref : JsString) : Except Failure JsString :=
  match Keyed.get Component.ref refs ref with
  | some component => .ok component.purl
  | none => .error .typeError

/-- The check of what the wrapper of a consumer depends on. -/
def checkWrapper (edges : List Dependency) (wrapper : Component) (rootPurl : JsString) :
    Except Failure Unit :=
  if wrapper.purl = rootPurl then .ok ()
  else do
    let purls ← (((Keyed.get Dependency.ref edges wrapper.ref).map Dependency.dependsOn).getD []).mapM
      (purlOf refs)
    check (purls.eraseDups == [rootPurl]) .wrapperDependencies

end Edges

/-! ## Packages -/

/-- An entry of the graph. -/
structure Package where
  purl : JsString
  version : JsString
  integrity : List JsString
  dependencies : List JsString
deriving DecidableEq

/-- What one component says about its package. -/
structure Installation where
  purl : JsString
  version : JsString
  integrity : List JsString
  targets : List JsString

section Packages

variable (locale : Locale)

/-- `alg` and `content` of a hash. -/
def identifier (hash : Json) : Except Failure JsString := do
  check (!hash.isNull) .typeError
  match Json.text? (hash.property (js "alg")), Json.text? (hash.property (js "content")) with
  | some alg, some content => return alg ++ js ":" ++ locale.toLowerCase content
  | _, _ => throw .invalidHash

/-- `component.hashes ?? []`, before it is sorted. -/
def identifiers : Option Json → Except Failure (List JsString)
  | none | some .null => .ok []
  | some (.array hashes) => hashes.mapM (identifier locale)
  | some _ => .error .typeError

/-- The build root has no archive integrity yet. -/
def readIntegrity (rootPurl : JsString) (component : Component) : Except Failure (List JsString) :=
  if component.purl = rootPurl then .ok []
  else (identifiers locale component.hashes).map Sorted.sort

variable (refs : List Component) (edges : List Dependency) (wrapper : Component) (rootPurl : JsString)

/-- What the loop over the components reads of one of them. -/
def install (component : Component) : Except Failure Installation :=
  match Keyed.get Dependency.ref edges component.ref with
  | none => .error .missingEntry
  | some dependency => do
    let integrity ← readIntegrity locale rootPurl component
    let targets ← dependency.dependsOn.mapM (purlOf refs)
    check (!targets.contains wrapper.purl || wrapper.purl == rootPurl) .wrapperEdge
    return { purl := component.purl, version := component.version, integrity, targets }

/-- What the loop does with it: the version is the one that was seen last. -/
def merge (packages : List Package) (installation : Installation) : Except Failure (List Package) := do
  let prior := Keyed.get Package.purl packages installation.purl
  check (prior.all (fun prior => prior.integrity == installation.integrity)) .conflictingIntegrity
  return Keyed.set Package.purl packages
    { purl := installation.purl
      version := installation.version
      integrity := installation.integrity
      dependencies := Sorted.sortedSet
        ((prior.map Package.dependencies).getD [] ++ installation.targets) }

/-- One round of the loop that fills `packages`. -/
def addPackage (packages : List Package) (component : Component) : Except Failure (List Package) := do
  let installation ← install locale refs edges wrapper rootPurl component
  merge packages installation

end Packages

/-- `sbom.metadata?.component`. -/
def wrapperOf (sbom : Json) : Option Json :=
  (sbom.property (js "metadata")).bind (Json.property (js "component"))

section

variable (locale : Locale)

/-- `productionGraph`, once the component that `metadata` describes is the first of `refs`. -/
def packagesOf (refs : List Component) (dependencies : List Json) (rootPurl : JsString) :
    Except Failure (List Package) :=
  match refs with
  -- `productionGraph` has found the wrapper by then.
  | [] => .error .missingRoot
  | wrapper :: components => do
    let edges ← dependencies.foldlM (addDependency refs) []
    check (refs.any (fun component => component.purl == rootPurl)) .rootMissing
    checkWrapper refs edges wrapper rootPurl
    -- The wrapper of a consumer is not one of its packages.
    let packages ← (if wrapper.purl ≠ rootPurl then components else refs).foldlM
      (addPackage locale refs edges wrapper rootPurl) []
    return packages.insertionSort (fun a b => locale.localeCompare a.purl b.purl ≠ .gt)

def productionGraph (sbom : Json) (rootPurl : JsString) : Except Failure (List Package) := do
  check (!sbom.isNull) .typeError
  check (Json.text? (sbom.property (js "bomFormat")) == some (js "CycloneDX")) .format
  match sbom.property (js "components"), sbom.property (js "dependencies") with
  | some (.array components), some (.array dependencies) =>
    let wrapper := wrapperOf sbom
    check (Json.truthy (wrapper.bind (Json.property (js "purl"))) &&
      Json.truthy (wrapper.bind (Json.property (js "bom-ref")))) .missingRoot
    let refs ← (wrapper.toList ++ components).foldlM addComponent []
    packagesOf locale refs dependencies rootPurl
  | _, _ => throw .notArrays

/-! ## The comparison -/

/-- An entry as it is compared, and written to the report. -/
def Package.toJson (package : Package) : Json :=
  .object [(js "purl", .string package.purl), (js "version", .string package.version),
    (js "integrity", .array (package.integrity.map .string)),
    (js "dependencies", .array (package.dependencies.map .string))]

inductive Result
  | different
  | match
deriving DecidableEq, Repr

structure Change where
  purl : JsString
  build : Package
  consumer : Package
deriving DecidableEq

structure Comparison where
  result : Result
  root : JsString
  comparison : JsString := js
    "production package identities, integrity identifiers and dependency edges; layout duplicates collapsed"
  added : List Package
  removed : List Package
  changed : List Change
  build : List Package
  consumer : List Package
deriving DecidableEq

/-- The entries that are there on both sides and are not the same. -/
def changes (expected consumer : List Package) : List Change :=
  consumer.filterMap (fun entry =>
    match Keyed.get Package.purl expected entry.purl with
    | some build =>
      if entry.toJson.stringify ≠ build.toJson.stringify then
        some { purl := entry.purl, build, consumer := entry }
      else none
    | none => none)

/-- The entries of one side that the other one does not have. -/
def missing (entries others : List Package) : List Package :=
  entries.filter (fun entry => (Keyed.get Package.purl others entry.purl).isNone)

def report (rootPurl : JsString) (build consumer : List Package) : Comparison :=
  let added := missing consumer build
  let removed := missing build consumer
  let changed := changes build consumer
  { result := if added.isEmpty && removed.isEmpty && changed.isEmpty then .match else .different
    root := rootPurl, added, removed, changed, build, consumer }

def compareProductionGraphs (buildSbom consumerSbom : Json) : Except Failure Comparison := do
  check (!buildSbom.isNull) .typeError
  match Json.text? ((wrapperOf buildSbom).bind (Json.property (js "purl"))) with
  | none => throw .buildRootMissing
  | some rootPurl =>
    let build ← productionGraph locale buildSbom rootPurl
    let consumer ← productionGraph locale consumerSbom rootPurl
    return report rootPurl build consumer

end

end Sbom

end SecureMcp
