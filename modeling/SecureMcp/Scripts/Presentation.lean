import SecureMcp.Scripts.Renaming

set_option autoImplicit false

/-! # Presentations of a document

One JSON document presents another when it has the same components and entries, each array in any
order, with other references. What is read of the two differs by the renaming of the references only;
and every renaming of what is read of a document has a document that presents it. -/

namespace SecureMcp

namespace Sbom

/-- An injective renaming of references to nonempty strings. It has to say nothing about the
    references that do not occur. -/
structure Renaming where
  rel : JsString → JsString → Prop
  unique : Relator.BiUnique rel
  nonempty : ∀ {ref ref' : JsString}, rel ref ref' → ref' ≠ []

/-- A reference is renamed; a value that is not a string is left alone. -/
inductive RenamesValue (r : JsString → JsString → Prop) : Json → Json → Prop
  | string {ref ref' : JsString} (rel : r ref ref') : RenamesValue r (.string ref) (.string ref')
  | other {value : Json} (other : ∀ ref, value ≠ .string ref) : RenamesValue r value value

structure PresentsComponent (r : JsString → JsString → Prop) (value value' : Json) : Prop where
  purl : value'.property (js "purl") = value.property (js "purl")
  version : value'.property (js "version") = value.property (js "version")
  ref : Option.Rel (RenamesValue r) (value.property (js "bom-ref")) (value'.property (js "bom-ref"))
  hashes : Reordered (fun hash hash' => hash' = hash) (value.property (js "hashes"))
    (value'.property (js "hashes"))

structure PresentsDependency (r : JsString → JsString → Prop) (value value' : Json) : Prop where
  ref : Option.Rel (RenamesValue r) (value.property (js "ref")) (value'.property (js "ref"))
  dependsOn : Reordered (RenamesValue r) (value.property (js "dependsOn"))
    (value'.property (js "dependsOn"))

/-- `sbom'` is `sbom` with its arrays in another order and its references renamed. -/
structure Presents (r : JsString → JsString → Prop) (sbom sbom' : Json) : Prop where
  format : sbom'.property (js "bomFormat") = sbom.property (js "bomFormat")
  wrapper : Option.Rel (PresentsComponent r) (wrapperOf sbom) (wrapperOf sbom')
  components : Reordered (PresentsComponent r) (sbom.property (js "components"))
    (sbom'.property (js "components"))
  dependencies : Reordered (PresentsDependency r) (sbom.property (js "dependencies"))
    (sbom'.property (js "dependencies"))

variable {r : JsString → JsString → Prop}

/-! ## Both ways -/

theorem relSymm {R S : Json → Json → Prop} {value value' : Option Json} (h : Option.Rel R value value')
    (himp : ∀ a b, R a b → S b a) : Option.Rel S value' value := by
  cases h with
  | some hvalue => exact .some (himp _ _ hvalue)
  | none => exact .none

theorem RenamesValue.symm {value value' : Json} (h : RenamesValue r value value') :
    RenamesValue (fun ref' ref => r ref ref') value' value := by
  cases h with
  | string hrel => exact .string hrel
  | other hother => exact .other hother

theorem PresentsComponent.symm {value value' : Json} (h : PresentsComponent r value value') :
    PresentsComponent (fun ref' ref => r ref ref') value' value where
  purl := h.purl.symm
  version := h.version.symm
  ref := relSymm h.ref fun _ _ => RenamesValue.symm
  hashes := h.hashes.symm.imp fun _ _ => Eq.symm

theorem PresentsDependency.symm {value value' : Json} (h : PresentsDependency r value value') :
    PresentsDependency (fun ref' ref => r ref ref') value' value where
  ref := relSymm h.ref fun _ _ => RenamesValue.symm
  dependsOn := h.dependsOn.symm.imp fun _ _ => RenamesValue.symm

theorem Presents.symm {sbom sbom' : Json} (h : Presents r sbom sbom') :
    Presents (fun ref' ref => r ref ref') sbom' sbom where
  format := h.format.symm
  wrapper := relSymm h.wrapper fun _ _ => PresentsComponent.symm
  components := h.components.symm.imp fun _ _ => PresentsComponent.symm
  dependencies := h.dependencies.symm.imp fun _ _ => PresentsDependency.symm

/-! ## What is read of a presentation -/

theorem exists_text {value value' : Option Json} {text : JsString}
    (h : Option.Rel (RenamesValue r) value value') (htext : value = some (.string text)) :
    ∃ text', value' = some (.string text') ∧ r text text' := by
  subst htext
  cases h with
  | some hvalue =>
      cases hvalue with
      | string hrel => exact ⟨_, rfl, hrel⟩
      | other hother => exact absurd rfl (hother text)

theorem readRef_eq_ok {target : Json} {ref : JsString} : readRef target = .ok ref ↔ target = .string ref := by
  unfold readRef
  constructor
  · intro h
    split at h
    · next found hfound =>
        obtain rfl := Except.ok.inj h
        exact Option.some.inj (Json.text?_eq_some.mp hfound)
    · exact absurd h nofun
  · rintro rfl
    rfl

theorem readDependency_eq_ok {value : Json} {entry : Dependency} :
    readDependency value = .ok entry ↔ value.property (js "ref") = some (.string entry.ref) ∧
      ∃ targets, value.property (js "dependsOn") = some (.array targets) ∧
        targets.mapM readRef = .ok entry.dependsOn := by
  rw [← Json.text?_eq_some]
  unfold readDependency
  constructor
  · intro h
    split at h
    · next ref targets href htargets =>
        obtain ⟨dependsOn, hread, rfl⟩ := Loops.map_eq_ok.mp h
        exact ⟨href, targets, htargets, hread⟩
    · exact absurd h nofun
  · rintro ⟨href, targets, htargets, hread⟩
    rw [href, htargets]
    exact Loops.map_eq_ok.mpr ⟨entry.dependsOn, hread, rfl⟩

theorem PresentsComponent.exists_read {value value' : Json} {a : Component}
    (h : PresentsComponent r value value') (hread : readComponent value = .ok a) :
    ∃ a', readComponent value' = .ok a' ∧ Component.Renamed r a a' := by
  obtain ⟨hpurl, hversion, href, hnpm, hhashes⟩ := readComponent_eq_ok.mp hread
  obtain ⟨ref', href', hrel⟩ := exists_text h.ref href
  refine ⟨{ purl := a.purl, version := a.version, ref := ref', hashes := value'.property (js "hashes") },
    readComponent_eq_ok.mpr ⟨h.purl.trans hpurl, h.version.trans hversion, href', hnpm, rfl⟩,
    rfl, rfl, hrel, ?_⟩
  rw [← hhashes]
  exact h.hashes

theorem PresentsDependency.exists_read {value value' : Json} {entry : Dependency}
    (h : PresentsDependency r value value') (hread : readDependency value = .ok entry) :
    ∃ entry', readDependency value' = .ok entry' ∧ Dependency.Renamed r entry entry' := by
  obtain ⟨href, targets, htargets, hdependsOn⟩ := readDependency_eq_ok.mp hread
  obtain ⟨ref', href', hrel⟩ := exists_text h.ref href
  -- Where the targets are an array, so are those of the presentation.
  have hitems := h.dependsOn
  rw [htargets] at hitems
  generalize hvalue : value'.property (js "dependsOn") = found at hitems
  cases hitems with
  | array hitems =>
      obtain ⟨dependsOn', hread', hshuffled⟩ := hitems.exists_mapM (g := readRef) (S := r)
        (by
          intro target target' ref hrenames htarget
          obtain rfl := readRef_eq_ok.mp htarget
          obtain ⟨text', htext', hrel⟩ := exists_text (.some hrenames) rfl
          exact ⟨text', readRef_eq_ok.mpr (Option.some.inj htext'), hrel⟩) hdependsOn
      exact ⟨⟨ref', dependsOn'⟩, readDependency_eq_ok.mpr ⟨href', _, hvalue, hread'⟩, hrel, hshuffled⟩
  | other hother => exact absurd rfl (hother targets)

theorem Presents.exists_reads {sbom sbom' : Json} {view : View} (h : Presents r sbom sbom')
    (hunique : Relator.BiUnique r) (hreads : Reads sbom view) :
    ∃ view', Reads sbom' view' ∧ View.Renamed r view view' := by
  obtain ⟨value, hvalue, hwrapper⟩ := hreads.wrapper
  obtain ⟨components, hcomponents, hread⟩ := hreads.components
  obtain ⟨dependencies, hdependencies, hedges⟩ := hreads.edges
  obtain ⟨wrapper', hwrapper', hrenamed⟩ : ∃ wrapper',
      (∃ value', wrapperOf sbom' = some value' ∧ readComponent value' = .ok wrapper') ∧
        Component.Renamed r view.wrapper wrapper' := by
    have hrel := h.wrapper
    rw [hvalue] at hrel
    generalize wrapperOf sbom' = found at hrel
    cases hrel with
    | some hpresents =>
        obtain ⟨wrapper', hread', hrenamed⟩ := hpresents.exists_read hwrapper
        exact ⟨wrapper', ⟨_, rfl, hread'⟩, hrenamed⟩
  obtain ⟨components', hcomponents', hshuffled⟩ := h.components.exists_mapM
    (fun _ _ _ hpresents => hpresents.exists_read) hcomponents hread
  obtain ⟨edges', hedges', hshuffledEdges⟩ := h.dependencies.exists_mapM
    (fun _ _ _ hpresents => hpresents.exists_read) hdependencies hedges
  refine ⟨⟨wrapper', components', edges'⟩, ⟨?_, hwrapper', hcomponents', hedges'⟩,
    hunique, hrenamed, hshuffled, hshuffledEdges⟩
  rw [h.format]
  exact hreads.format

theorem Presents.exists_reads' {sbom sbom' : Json} {view' : View} (h : Presents r sbom sbom')
    (hunique : Relator.BiUnique r) (hreads : Reads sbom' view') :
    ∃ view, Reads sbom view ∧ View.Renamed r view view' := by
  obtain ⟨view, hview, hrenamed⟩ := h.symm.exists_reads
    ⟨fun _ _ _ h₁ h₂ => hunique.2 h₁ h₂, fun _ _ _ h₁ h₂ => hunique.1 h₁ h₂⟩ hreads
  exact ⟨view, hview, hrenamed.symm⟩

/-! ## Writing a document -/

def Component.toJson (a : Component) : Json :=
  .object ([(js "purl", .string a.purl), (js "version", .string a.version), (js "bom-ref", .string a.ref)] ++
    a.hashes.toList.map (fun hashes => (js "hashes", hashes)))

def Dependency.toJson (entry : Dependency) : Json :=
  .object [(js "ref", .string entry.ref), (js "dependsOn", .array (entry.dependsOn.map .string))]

def View.toJson (view : View) : Json :=
  .object [(js "bomFormat", .string (js "CycloneDX")),
    (js "metadata", .object [(js "component", view.wrapper.toJson)]),
    (js "components", .array (view.components.map Component.toJson)),
    (js "dependencies", .array (view.edges.map Dependency.toJson))]

theorem readComponent_toJson {a : Component} (h : (js "pkg:npm/").isPrefixOf a.purl = true) :
    readComponent a.toJson = .ok a := by
  refine readComponent_eq_ok.mpr ?_
  unfold Component.toJson
  cases hhashes : a.hashes with
  | none => exact ⟨rfl, rfl, rfl, h, rfl⟩
  | some hashes => exact ⟨rfl, rfl, rfl, h, rfl⟩

theorem readDependency_toJson (entry : Dependency) : readDependency entry.toJson = .ok entry := by
  refine readDependency_eq_ok.mpr ⟨rfl, _, rfl, Loops.mapM_eq_ok.mpr ?_⟩
  rw [List.forall₂_map_left_iff, List.forall₂_same]
  exact fun ref _ => rfl

/-- A document is read as what it was written from. -/
theorem reads_toJson {view : View} (h : ∀ a ∈ view.nodes, (js "pkg:npm/").isPrefixOf a.purl = true) :
    Reads view.toJson view := by
  refine ⟨rfl, ⟨_, rfl, readComponent_toJson (h _ List.mem_cons_self)⟩, ⟨_, rfl, Loops.mapM_eq_ok.mpr ?_⟩,
    ⟨_, rfl, Loops.mapM_eq_ok.mpr ?_⟩⟩
  · rw [List.forall₂_map_left_iff, List.forall₂_same]
    exact fun a ha => readComponent_toJson (h a (List.mem_cons_of_mem _ ha))
  · rw [List.forall₂_map_left_iff, List.forall₂_same]
    exact fun entry _ => readDependency_toJson entry

theorem presentsComponent_toJson {value : Json} {a a' : Component} (hread : readComponent value = .ok a)
    (h : Component.Renamed r a a') : PresentsComponent r value a'.toJson := by
  obtain ⟨hpurl, hversion, href, hnpm, hhashes⟩ := readComponent_eq_ok.mp hread
  obtain ⟨hpurl', hversion', href', _, hhashes'⟩ :=
    readComponent_eq_ok.mp (readComponent_toJson (a := a') (h.purl ▸ hnpm))
  constructor
  case purl => rw [hpurl, hpurl', h.purl]
  case version => rw [hversion, hversion', h.version]
  case ref =>
    rw [href, href']
    exact .some (.string h.ref)
  case hashes =>
    rw [hhashes, hhashes']
    exact h.hashes

theorem presentsDependency_toJson {value : Json} {entry entry' : Dependency}
    (hread : readDependency value = .ok entry) (h : Dependency.Renamed r entry entry') :
    PresentsDependency r value entry'.toJson := by
  obtain ⟨href, targets, htargets, hdependsOn⟩ := readDependency_eq_ok.mp hread
  constructor
  case ref =>
    rw [href]
    exact .some (.string h.ref)
  case dependsOn =>
    rw [htargets]
    refine .array ?_
    -- From the values to the references, and from these to the renamed ones.
    have hstrings : Shuffled (fun target ref => readRef target = .ok ref) targets entry.dependsOn :=
      ⟨entry.dependsOn, Loops.mapM_eq_ok.mp hdependsOn, List.Perm.refl _⟩
    refine (hstrings.comp h.dependsOn).map_right ?_
    rintro target ref' ⟨ref, htarget, hrel⟩
    rw [readRef_eq_ok.mp htarget]
    exact .string hrel

/-- A document with a renaming presents the document it was read from. -/
theorem Reads.presents {sbom : Json} {view view' : View} (hreads : Reads sbom view)
    (h : View.Renamed r view view') : Presents r sbom view'.toJson := by
  obtain ⟨value, hvalue, hwrapper⟩ := hreads.wrapper
  obtain ⟨components, hcomponents, hread⟩ := hreads.components
  obtain ⟨dependencies, hdependencies, hedges⟩ := hreads.edges
  constructor
  case format => exact (Json.text?_eq_some.mp hreads.format).symm
  case wrapper =>
    rw [hvalue]
    exact .some (presentsComponent_toJson hwrapper h.wrapper)
  case components =>
    rw [hcomponents]
    have hitems : Shuffled (fun item a => readComponent item = .ok a) components view.components :=
      ⟨view.components, Loops.mapM_eq_ok.mp hread, List.Perm.refl _⟩
    refine .array ((hitems.comp h.components).map_right ?_)
    rintro item a' ⟨a, hitem, hrenamed⟩
    exact presentsComponent_toJson hitem hrenamed
  case dependencies =>
    rw [hdependencies]
    have hitems : Shuffled (fun item entry => readDependency item = .ok entry) dependencies view.edges :=
      ⟨view.edges, Loops.mapM_eq_ok.mp hedges, List.Perm.refl _⟩
    refine .array ((hitems.comp h.edges).map_right ?_)
    rintro item entry' ⟨entry, hitem, hrenamed⟩
    exact presentsDependency_toJson hitem hrenamed

end Sbom

end SecureMcp
