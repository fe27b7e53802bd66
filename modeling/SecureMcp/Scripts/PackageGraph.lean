import SecureMcp.Lib.Shuffled
import SecureMcp.Scripts.ConsumerEvidence
import Mathlib.Data.Multiset.Basic
import Mathlib.Data.Set.Basic

set_option autoImplicit false

/-! # The package graph of a bill of materials

What a document says, apart from how it says it: which packages it has, with which versions and
integrity identifiers, and which package depends on which. `productionGraph` returns this graph when
the document is well formed, and throws otherwise; where installations of one package disagree about
its version, it is the last of them that counts. -/

namespace SecureMcp

namespace Sbom

/-! ## What is read of a document -/

def readRef (target : Json) : Except Failure JsString :=
  match Json.text? (some target) with
  | some ref => .ok ref
  | none => .error .unknownTarget

/-- An entry of `dependencies`, before its references are looked up. -/
def readDependency (dependency : Json) : Except Failure Dependency :=
  match Json.text? (dependency.property (js "ref")), dependency.property (js "dependsOn") with
  | some ref, some (.array targets) =>
    (targets.mapM readRef).map (fun dependsOn => { ref, dependsOn })
  | _, _ => .error .missingTargets

/-- The strings that a document is made of. -/
structure View where
  wrapper : Component
  components : List Component
  edges : List Dependency

structure Reads (sbom : Json) (view : View) : Prop where
  format : Json.text? (sbom.property (js "bomFormat")) = some (js "CycloneDX")
  wrapper : ∃ value, wrapperOf sbom = some value ∧ readComponent value = .ok view.wrapper
  components : ∃ items, sbom.property (js "components") = some (.array items) ∧
    items.mapM readComponent = .ok view.components
  edges : ∃ items, sbom.property (js "dependencies") = some (.array items) ∧
    items.mapM readDependency = .ok view.edges

namespace View

variable (view : View)

/-- All components, the wrapper first. -/
def nodes : List Component := view.wrapper :: view.components

/-- The components that are packages: the wrapper is one where it is the root itself. -/
def counted (rootPurl : JsString) : List Component :=
  if view.wrapper.purl ≠ rootPurl then view.components else view.nodes

def DependsOn (a b : Component) : Prop :=
  b ∈ view.nodes ∧ ∃ entry ∈ view.edges, entry.ref = a.ref ∧ b.ref ∈ entry.dependsOn

end View

/-- The integrity identifiers of a component; the root has none. -/
def integrityOf (locale : Locale) (rootPurl : JsString) (component : Component) : Multiset JsString :=
  if component.purl = rootPurl then 0
  else
    match identifiers locale component.hashes with
    | .ok found => (found : Multiset JsString)
    | .error _ => 0

/-- What is checked of a component that is installed. -/
structure Installable (locale : Locale) (rootPurl : JsString) (view : View) (a : Component) : Prop where
  entry : ∃ entry ∈ view.edges, entry.ref = a.ref
  hashes : a.purl ≠ rootPurl → ∃ found, identifiers locale a.hashes = .ok found
  /-- No package depends on the wrapper of a consumer. -/
  apart : view.wrapper.purl ≠ rootPurl → ∀ b, view.DependsOn a b → b.purl ≠ view.wrapper.purl

/-- What is checked of a document, apart from the reference of its root. -/
structure WellFormed (locale : Locale) (rootPurl : JsString) (view : View) : Prop where
  refs : (view.nodes.map Component.ref).Nodup
  sources : (view.edges.map Dependency.ref).Nodup
  known : ∀ entry ∈ view.edges, (∃ a ∈ view.nodes, a.ref = entry.ref) ∧
    ∀ ref ∈ entry.dependsOn, ∃ b ∈ view.nodes, b.ref = ref
  root : ∃ a ∈ view.nodes, a.purl = rootPurl
  /-- The wrapper of a consumer depends on the root, and on nothing else. -/
  direct : view.wrapper.purl ≠ rootPurl → (∃ b, view.DependsOn view.wrapper b) ∧
    ∀ b, view.DependsOn view.wrapper b → b.purl = rootPurl
  installable : ∀ a ∈ view.counted rootPurl, Installable locale rootPurl view a
  agree : ∀ a ∈ view.counted rootPurl, ∀ b ∈ view.counted rootPurl, a.purl = b.purl →
    integrityOf locale rootPurl a = integrityOf locale rootPurl b

/-- Installations of one package have one version. -/
def VersionsAgree (rootPurl : JsString) (view : View) : Prop :=
  ∀ a ∈ view.counted rootPurl, ∀ b ∈ view.counted rootPurl, a.purl = b.purl → a.version = b.version

/-- Packages with a version and integrity identifiers, and the dependencies between them. -/
@[ext]
structure PackageGraph where
  packages : Set (JsString × JsString × Multiset JsString)
  edges : Set (JsString × JsString)

/-- The graph of a document, all installations of a package taken together. -/
def View.graph (locale : Locale) (rootPurl : JsString) (view : View) : PackageGraph where
  packages := { package | ∃ a ∈ view.counted rootPurl,
    package = (a.purl, a.version, integrityOf locale rootPurl a) }
  edges := { edge | ∃ a ∈ view.counted rootPurl, ∃ b, view.DependsOn a b ∧ edge = (a.purl, b.purl) }

/-! ## Checks -/

theorem check_eq_ok {condition : Bool} {failure : Failure} {result : Unit} :
    check condition failure = .ok result ↔ condition = true := by
  unfold check
  by_cases h : condition = true
  · rw [if_pos h]
    exact ⟨fun _ => h, fun _ => rfl⟩
  · rw [if_neg h]
    exact ⟨nofun, fun hcondition => absurd hcondition h⟩

theorem check_bind_eq_ok {α : Type} {condition : Bool} {failure : Failure} {f : Unit → Except Failure α}
    {result : α} : (check condition failure >>= f) = .ok result ↔ condition = true ∧ f () = .ok result := by
  rw [Loops.bind_eq_ok]
  constructor
  · rintro ⟨_, hcheck, h⟩
    exact ⟨check_eq_ok.mp hcheck, h⟩
  · rintro ⟨hcondition, h⟩
    exact ⟨(), check_eq_ok.mpr hcondition, h⟩

theorem pure_eq_ok {α : Type} {a b : α} : (pure a : Except Failure α) = .ok b ↔ b = a :=
  ⟨fun h => (Except.ok.inj h).symm, fun h => by rw [h]; rfl⟩

/-! ## References -/

theorem addComponent_eq_ok (refs : List Component) (value : Json) (next : List Component) :
    addComponent refs value = .ok next ↔ ∃ component, readComponent value = .ok component ∧ True ∧
      component.ref ∉ refs.map Component.ref ∧ next = refs ++ [component] := by
  unfold addComponent
  rw [Loops.bind_eq_ok]
  refine exists_congr (fun component => and_congr_right (fun _ => ?_))
  rw [check_bind_eq_ok, Keyed.get_isNone_iff, pure_eq_ok, true_and]
  exact and_congr_right (fun hnew => by rw [Keyed.set_of_not_mem hnew])

theorem refs_eq_ok {items : List Json} {refs : List Component} :
    items.foldlM addComponent [] = .ok refs ↔
      items.mapM readComponent = .ok refs ∧ (refs.map Component.ref).Nodup := by
  rw [Loops.foldlM_collect addComponent_eq_ok]
  simp

section Edges

variable {refs : List Component}

theorem hasRef_iff {ref : JsString} : hasRef refs ref = true ↔ ∃ a ∈ refs, a.ref = ref :=
  Keyed.get_isSome_iff

theorem readTarget_eq_ok {target : Json} {ref : JsString} :
    readTarget refs target = .ok ref ↔ readRef target = .ok ref ∧ ∃ a ∈ refs, a.ref = ref := by
  unfold readTarget readRef
  rw [← hasRef_iff]
  cases Json.text? (some target) with
  | none => exact ⟨nofun, nofun⟩
  | some found =>
      show (if hasRef refs found = true then _ else _) = _ ↔ _
      by_cases h : hasRef refs found = true
      · rw [if_pos h]
        refine ⟨fun heq => ⟨heq, ?_⟩, And.left⟩
        obtain rfl := Except.ok.inj heq
        exact h
      · rw [if_neg h]
        refine ⟨nofun, ?_⟩
        rintro ⟨heq, hfound⟩
        obtain rfl := Except.ok.inj heq
        exact absurd hfound h

theorem readTargets_eq_ok {targets : List Json} {dependsOn : List JsString} :
    targets.mapM (readTarget refs) = .ok dependsOn ↔ targets.mapM readRef = .ok dependsOn ∧
      ∀ ref ∈ dependsOn, ∃ b ∈ refs, b.ref = ref := by
  rw [Loops.mapM_eq_ok, Loops.mapM_eq_ok, ← Loops.forall₂_and_right]
  simp only [readTarget_eq_ok]

theorem addDependency_eq_ok (edges : List Dependency) (value : Json) (next : List Dependency) :
    addDependency refs edges value = .ok next ↔ ∃ entry, readDependency value = .ok entry ∧
      ((∃ a ∈ refs, a.ref = entry.ref) ∧ ∀ ref ∈ entry.dependsOn, ∃ b ∈ refs, b.ref = ref) ∧
      entry.ref ∉ edges.map Dependency.ref ∧ next = edges ++ [entry] := by
  unfold addDependency
  rw [check_bind_eq_ok]
  constructor
  · rintro ⟨_, h⟩
    split at h
    · -- What is not a string is not a key of the map.
      cases h
    · next ref href =>
        rw [check_bind_eq_ok, check_bind_eq_ok, hasRef_iff, Keyed.get_isNone_iff] at h
        obtain ⟨hsource, hnew, h⟩ := h
        split at h
        · next targets htargets =>
            obtain ⟨dependsOn, hread, hnext⟩ := Loops.bind_eq_ok.mp h
            obtain ⟨hread, hknown⟩ := readTargets_eq_ok.mp hread
            refine ⟨{ ref, dependsOn }, ?_, ⟨hsource, hknown⟩, hnew, ?_⟩
            · rw [readDependency, href, htargets]
              exact Loops.map_eq_ok.mpr ⟨dependsOn, hread, rfl⟩
            · rw [pure_eq_ok.mp hnext, Keyed.set_of_not_mem hnew]
        · cases h
  · rintro ⟨entry, hread, ⟨hsource, hknown⟩, hnew, rfl⟩
    unfold readDependency at hread
    split at hread
    · next ref targets href htargets =>
        obtain ⟨dependsOn, hfound, rfl⟩ := Loops.map_eq_ok.mp hread
        refine ⟨Json.not_isNull_of_property (Json.text?_eq_some.mp href), ?_⟩
        rw [href]
        show (check (hasRef refs ref) .unknownSource >>= _) = _
        rw [check_bind_eq_ok, check_bind_eq_ok, hasRef_iff, Keyed.get_isNone_iff, htargets]
        refine ⟨hsource, hnew, Loops.bind_eq_ok.mpr ⟨dependsOn, readTargets_eq_ok.mpr ⟨hfound, hknown⟩, ?_⟩⟩
        rw [pure_eq_ok, Keyed.set_of_not_mem hnew]
    · cases hread

theorem edges_eq_ok {items : List Json} {edges : List Dependency} :
    items.foldlM (addDependency refs) [] = .ok edges ↔
      items.mapM readDependency = .ok edges ∧ (edges.map Dependency.ref).Nodup ∧
        ∀ entry ∈ edges, (∃ a ∈ refs, a.ref = entry.ref) ∧
          ∀ ref ∈ entry.dependsOn, ∃ b ∈ refs, b.ref = ref :=
  Loops.foldlM_collect addDependency_eq_ok

end Edges

/-! ## One installation -/

section Install

variable {locale : Locale} {rootPurl : JsString} {view : View}

/-- What `install` returns for a component. -/
structure Installs (locale : Locale) (rootPurl : JsString) (view : View) (a : Component)
    (installation : Installation) : Prop where
  purl : installation.purl = a.purl
  version : installation.version = a.version
  sorted : installation.integrity.Pairwise (· ≤ ·)
  integrity : (installation.integrity : Multiset JsString) = integrityOf locale rootPurl a
  targets : ∀ purl, purl ∈ installation.targets ↔ ∃ b, view.DependsOn a b ∧ b.purl = purl

theorem purlOf_eq_ok (hrefs : (view.nodes.map Component.ref).Nodup) {ref purl : JsString} :
    purlOf view.nodes ref = .ok purl ↔ ∃ b ∈ view.nodes, b.ref = ref ∧ b.purl = purl := by
  unfold purlOf
  split
  · next b hb =>
      rw [Keyed.get_eq_some_iff hrefs] at hb
      constructor
      · intro h
        exact ⟨b, hb.1, hb.2, Except.ok.inj h⟩
      · -- No two components have this reference.
        rintro ⟨b', hb', href, rfl⟩
        rw [List.inj_on_of_nodup_map hrefs hb.1 hb' (hb.2.trans href.symm)]
  · next hnone =>
      rw [Keyed.get_eq_none_iff] at hnone
      exact ⟨nofun, fun ⟨b, hb, href, _⟩ => absurd href (hnone b hb)⟩

/-- The packages that an entry leads to. -/
theorem mem_targets (hrefs : (view.nodes.map Component.ref).Nodup)
    (hsources : (view.edges.map Dependency.ref).Nodup) {a : Component} {entry : Dependency}
    (hentry : entry ∈ view.edges) (href : entry.ref = a.ref) {targets : List JsString}
    (h : entry.dependsOn.mapM (purlOf view.nodes) = .ok targets) (purl : JsString) :
    purl ∈ targets ↔ ∃ b, view.DependsOn a b ∧ b.purl = purl := by
  have hshuffled : Shuffled _ entry.dependsOn targets := ⟨targets, Loops.mapM_eq_ok.mp h, List.Perm.refl _⟩
  constructor
  · intro hpurl
    obtain ⟨ref, hmem, hread⟩ := hshuffled.exists_mem' hpurl
    obtain ⟨b, hb, rfl, rfl⟩ := (purlOf_eq_ok hrefs).mp hread
    exact ⟨b, ⟨hb, entry, hentry, href, hmem⟩, rfl⟩
  · rintro ⟨b, ⟨hb, entry', hentry', href', hmem⟩, rfl⟩
    -- A source has one entry, the one whose targets have been looked up.
    have heq : entry' = entry :=
      List.inj_on_of_nodup_map hsources hentry' hentry (href'.trans href.symm)
    obtain ⟨found, hfound, hread⟩ := hshuffled.exists_mem (heq ▸ hmem)
    have hpurl := (purlOf_eq_ok hrefs).mpr ⟨b, hb, rfl, rfl⟩
    obtain rfl := Except.ok.inj (hread.symm.trans hpurl)
    exact hfound

theorem exists_targets (hrefs : (view.nodes.map Component.ref).Nodup) {entry : Dependency}
    (hknown : ∀ ref ∈ entry.dependsOn, ∃ b ∈ view.nodes, b.ref = ref) :
    ∃ targets, entry.dependsOn.mapM (purlOf view.nodes) = .ok targets := by
  apply Loops.exists_mapM
  intro ref hmem
  obtain ⟨b, hb, href⟩ := hknown ref hmem
  exact ⟨b.purl, (purlOf_eq_ok hrefs).mpr ⟨b, hb, href, rfl⟩⟩

theorem checkWrapper_eq_ok (hrefs : (view.nodes.map Component.ref).Nodup)
    (hsources : (view.edges.map Dependency.ref).Nodup)
    (hknown : ∀ entry ∈ view.edges, ∀ ref ∈ entry.dependsOn, ∃ b ∈ view.nodes, b.ref = ref) :
    checkWrapper view.nodes view.edges view.wrapper rootPurl = .ok () ↔ (view.wrapper.purl ≠ rootPurl →
      (∃ b, view.DependsOn view.wrapper b) ∧ ∀ b, view.DependsOn view.wrapper b → b.purl = rootPurl) := by
  unfold checkWrapper
  by_cases hroot : view.wrapper.purl = rootPurl
  · rw [if_pos hroot]
    exact ⟨fun _ hne => absurd hroot hne, fun _ => rfl⟩
  rw [if_neg hroot, imp_iff_right hroot]
  cases hget : Keyed.get Dependency.ref view.edges view.wrapper.ref with
  | some entry =>
      rw [Keyed.get_eq_some_iff hsources] at hget
      obtain ⟨targets, htargets⟩ := exists_targets hrefs (hknown entry hget.1)
      have hmem := mem_targets hrefs hsources hget.1 hget.2 htargets
      rw [Option.map_some, Option.getD_some, htargets]
      show check _ _ = _ ↔ _
      rw [check_eq_ok, beq_iff_eq, List.eraseDups_eq_singleton]
      constructor
      · rintro ⟨⟨purl, hpurl⟩, hall⟩
        obtain ⟨b, hb, _⟩ := (hmem purl).mp hpurl
        exact ⟨⟨b, hb⟩, fun b hb => hall b.purl ((hmem b.purl).mpr ⟨b, hb, rfl⟩)⟩
      · rintro ⟨⟨b, hb⟩, hall⟩
        refine ⟨⟨b.purl, (hmem b.purl).mpr ⟨b, hb, rfl⟩⟩, fun purl hpurl => ?_⟩
        obtain ⟨b, hb, rfl⟩ := (hmem purl).mp hpurl
        exact hall b hb
  | none =>
      rw [Keyed.get_eq_none_iff] at hget
      -- Without an entry there are no targets, and no list of them is `[rootPurl]`.
      constructor
      · intro h
        rw [Option.map_none, Option.getD_none, List.mapM_nil, pure_bind] at h
        exact absurd (check_eq_ok.mp h) (by simp)
      · rintro ⟨⟨b, _, entry, hentry, href, _⟩, _⟩
        exact absurd href (hget entry hentry)

/-- The integrity identifiers are sorted, and are those of the component. -/
theorem readIntegrity_eq_ok {a : Component} {integrity : List JsString}
    (h : readIntegrity locale rootPurl a = .ok integrity) :
    (a.purl ≠ rootPurl → ∃ found, identifiers locale a.hashes = .ok found) ∧
      integrity.Pairwise (· ≤ ·) ∧ (integrity : Multiset JsString) = integrityOf locale rootPurl a := by
  unfold readIntegrity at h
  unfold integrityOf
  by_cases hroot : a.purl = rootPurl
  · rw [if_pos hroot] at h ⊢
    obtain rfl := Except.ok.inj h
    exact ⟨fun hne => absurd hroot hne, List.Pairwise.nil, rfl⟩
  · rw [if_neg hroot] at h ⊢
    obtain ⟨found, hfound, rfl⟩ := Loops.map_eq_ok.mp h
    rw [hfound]
    exact ⟨fun _ => ⟨found, rfl⟩, Sorted.pairwise_sort found,
      Multiset.coe_eq_coe.mpr (Sorted.perm_sort found)⟩

theorem exists_readIntegrity {a : Component}
    (h : a.purl ≠ rootPurl → ∃ found, identifiers locale a.hashes = .ok found) :
    ∃ integrity, readIntegrity locale rootPurl a = .ok integrity := by
  unfold readIntegrity
  by_cases hroot : a.purl = rootPurl
  · exact ⟨[], if_pos hroot⟩
  · obtain ⟨found, hfound⟩ := h hroot
    exact ⟨Sorted.sort found, by rw [if_neg hroot, hfound]; rfl⟩

/-- The targets leave out the wrapper of a consumer. -/
theorem apart_iff {targets : List JsString} {a : Component}
    (hmem : ∀ purl, purl ∈ targets ↔ ∃ b, view.DependsOn a b ∧ b.purl = purl) :
    (!targets.contains view.wrapper.purl || view.wrapper.purl == rootPurl) = true ↔
      (view.wrapper.purl ≠ rootPurl → ∀ b, view.DependsOn a b → b.purl ≠ view.wrapper.purl) := by
  rw [Bool.or_eq_true, beq_iff_eq, Bool.not_eq_true', List.contains_eq_mem, decide_eq_false_iff_not, hmem]
  constructor
  · rintro (hnot | hroot) hne b hb heq
    · exact hnot ⟨b, hb, heq⟩
    · exact hne hroot
  · intro h
    by_cases hroot : view.wrapper.purl = rootPurl
    · exact Or.inr hroot
    · exact Or.inl (fun ⟨b, hb, heq⟩ => h hroot b hb heq)

theorem install_eq_ok (hrefs : (view.nodes.map Component.ref).Nodup)
    (hsources : (view.edges.map Dependency.ref).Nodup) {a : Component} {installation : Installation}
    (h : install locale view.nodes view.edges view.wrapper rootPurl a = .ok installation) :
    Installable locale rootPurl view a ∧ Installs locale rootPurl view a installation := by
  unfold install at h
  split at h
  · exact absurd h nofun
  · next entry hentry =>
      rw [Keyed.get_eq_some_iff hsources] at hentry
      obtain ⟨integrity, hintegrity, h⟩ := Loops.bind_eq_ok.mp h
      obtain ⟨targets, htargets, h⟩ := Loops.bind_eq_ok.mp h
      rw [check_bind_eq_ok, pure_eq_ok] at h
      obtain ⟨hwrapper, rfl⟩ := h
      have hmem := mem_targets hrefs hsources hentry.1 hentry.2 htargets
      obtain ⟨hhashes, hsorted, hintegrity⟩ := readIntegrity_eq_ok hintegrity
      exact ⟨⟨⟨entry, hentry⟩, hhashes, (apart_iff hmem).mp hwrapper⟩, rfl, rfl, hsorted, hintegrity, hmem⟩

/-- What is checked of a component is enough for it to be installed. -/
theorem WellFormed.exists_install (h : WellFormed locale rootPurl view) {a : Component}
    (ha : a ∈ view.counted rootPurl) :
    ∃ installation, install locale view.nodes view.edges view.wrapper rootPurl a = .ok installation := by
  have hinstallable := h.installable a ha
  obtain ⟨entry, hentry⟩ := hinstallable.entry
  obtain ⟨targets, htargets⟩ := exists_targets h.refs (h.known entry hentry.1).2
  obtain ⟨integrity, hintegrity⟩ := exists_readIntegrity hinstallable.hashes
  have hmem := mem_targets h.refs h.sources hentry.1 hentry.2 htargets
  have hwrapper := (apart_iff hmem).mpr hinstallable.apart
  rw [install, (Keyed.get_eq_some_iff h.sources).mpr hentry]
  refine ⟨{ purl := a.purl, version := a.version, integrity, targets }, ?_⟩
  exact Loops.bind_eq_ok.mpr ⟨integrity, hintegrity,
    Loops.bind_eq_ok.mpr ⟨targets, htargets, check_bind_eq_ok.mpr ⟨hwrapper, rfl⟩⟩⟩

end Install

end Sbom

end SecureMcp
