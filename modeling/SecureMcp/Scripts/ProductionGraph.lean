import SecureMcp.Scripts.Merging

set_option autoImplicit false

/-! # What `productionGraph` returns

`productionGraph` comes to its end exactly when the document is well formed and the reference of its
root is not empty, and then it returns one entry for each package of the document. -/

namespace SecureMcp

namespace Sbom

variable {locale : Locale} {rootPurl : JsString} {view : View} {packages : List Package}

/-! ## The loop over the components -/

theorem Describes.agree {done : List Component} (h : Describes locale rootPurl view done packages)
    {a b : Component} (ha : a ∈ done) (hb : b ∈ done) (heq : a.purl = b.purl) :
    integrityOf locale rootPurl a = integrityOf locale rootPurl b := by
  obtain ⟨p, hp, hpurl⟩ := h.installed a ha
  rw [← h.integrity p hp a ha hpurl, ← h.integrity p hp b hb (hpurl.trans heq)]

theorem Describes.perm {done : List Component} {packages' : List Package}
    (h : Describes locale rootPurl view done packages) (hperm : packages.Perm packages') :
    Describes locale rootPurl view done packages' where
  canonical := h.canonical.perm hperm
  installed := fun a ha => by simpa only [hperm.mem_iff] using h.installed a ha
  version := fun p hp => h.version p (hperm.mem_iff.mpr hp)
  integrity := fun p hp => h.integrity p (hperm.mem_iff.mpr hp)
  dependencies := fun p hp => h.dependencies p (hperm.mem_iff.mpr hp)

/-- Where installations of a package have one version, the entries make the graph of the document. -/
theorem Describes.graphOf_eq (h : Describes locale rootPurl view (view.counted rootPurl) packages)
    (hversions : VersionsAgree rootPurl view) : graphOf packages = view.graph locale rootPurl := by
  ext edge
  case packages =>
    constructor
    · rintro ⟨p, hp, rfl⟩
      obtain ⟨a, ha, hpurl, hversion⟩ := h.version p hp
      exact ⟨a, ha, by rw [h.integrity p hp a ha hpurl, hpurl, hversion]⟩
    · rintro ⟨a, ha, rfl⟩
      obtain ⟨p, hp, hpurl⟩ := h.installed a ha
      -- The version of the entry is the one of some other installation.
      obtain ⟨b, hb, hpurl', hversion⟩ := h.version p hp
      have hsame := hversions a ha b hb (hpurl.symm.trans hpurl')
      exact ⟨p, hp, by rw [h.integrity p hp a ha hpurl, hpurl, hversion, hsame]⟩
  case edges =>
    constructor
    · rintro ⟨p, hp, purl, hmem, rfl⟩
      obtain ⟨a, ha, hpurl, b, hb, rfl⟩ := (h.dependencies p hp purl).mp hmem
      exact ⟨a, ha, b, hb, by rw [hpurl]⟩
    · rintro ⟨a, ha, b, hb, rfl⟩
      obtain ⟨p, hp, hpurl⟩ := h.installed a ha
      exact ⟨p, hp, b.purl, (h.dependencies p hp b.purl).mpr ⟨a, ha, hpurl, b, hb, rfl⟩, by rw [hpurl]⟩

theorem addPackage_describes (hrefs : (view.nodes.map Component.ref).Nodup)
    (hsources : (view.edges.map Dependency.ref).Nodup) {done : List Component} {a : Component}
    {next : List Package} (hdone : Describes locale rootPurl view done packages)
    (h : addPackage locale view.nodes view.edges view.wrapper rootPurl packages a = .ok next) :
    Describes locale rootPurl view (done ++ [a]) next ∧ Installable locale rootPurl view a := by
  obtain ⟨installation, hinstall, hmerge⟩ := Loops.bind_eq_ok.mp h
  obtain ⟨hinstallable, hinstalls⟩ := install_eq_ok hrefs hsources hinstall
  exact ⟨hdone.merge hinstalls hmerge, hinstallable⟩

theorem addPackages_describes (hrefs : (view.nodes.map Component.ref).Nodup)
    (hsources : (view.edges.map Dependency.ref).Nodup) {items : List Component}
    (h : items.foldlM (addPackage locale view.nodes view.edges view.wrapper rootPurl) [] = .ok packages) :
    Describes locale rootPurl view items packages ∧ ∀ a ∈ items, Installable locale rootPurl view a := by
  refine Loops.foldlM_invariant (fun done packages => Describes locale rootPurl view done packages ∧
    ∀ a ∈ done, Installable locale rootPurl view a) ⟨describes_nil, by simp⟩ ?_ h
  intro done a packages next hdone hnext
  obtain ⟨hdescribes, hinstallable⟩ := addPackage_describes hrefs hsources hdone.1 hnext
  refine ⟨hdescribes, fun b hb => ?_⟩
  rcases List.mem_append.mp hb with hb | hb
  · exact hdone.2 b hb
  · exact List.mem_singleton.mp hb ▸ hinstallable

/-- The loop takes every round of a document that is well formed. -/
theorem WellFormed.exists_addPackages (h : WellFormed locale rootPurl view) :
    ∃ packages, (view.counted rootPurl).foldlM
      (addPackage locale view.nodes view.edges view.wrapper rootPurl) [] = .ok packages := by
  refine Loops.exists_foldlM (Describes locale rootPurl view) describes_nil ?_ ?_
  · intro done a packages next hdone hnext
    exact (addPackage_describes h.refs h.sources hdone hnext).1
  · intro done a rest packages hitems hdone
    have hmem : ∀ b ∈ done ++ [a], b ∈ view.counted rootPurl := by
      intro b hb
      rw [hitems, List.append_cons]
      exact List.mem_append_left _ hb
    -- The components before this one belong to the document as well, so they agree with it.
    have ha := hmem a (by simp)
    obtain ⟨installation, hinstall⟩ := h.exists_install ha
    obtain ⟨_, hinstalls⟩ := install_eq_ok h.refs h.sources hinstall
    obtain ⟨next, hnext⟩ := hdone.exists_merge hinstalls
      (fun b hb => h.agree b (hmem b (List.mem_append_left _ hb)) a ha)
    exact ⟨next, Loops.bind_eq_ok.mpr ⟨installation, hinstall, hnext⟩⟩

/-! ## The document -/

theorem any_purl_iff {refs : List Component} :
    refs.any (fun component => component.purl == rootPurl) = true ↔ ∃ a ∈ refs, a.purl = rootPurl := by
  simp

theorem packagesOf_describes (view : View) {items : List Json} (hrefs : (view.nodes.map Component.ref).Nodup)
    (hedges : items.mapM readDependency = .ok view.edges)
    (h : packagesOf locale view.nodes items rootPurl = .ok packages) :
    WellFormed locale rootPurl view ∧ Describes locale rootPurl view (view.counted rootPurl) packages := by
  -- Every reference of an entry is known by the time the loop over the components starts.
  obtain ⟨edges, hread, h⟩ := Loops.bind_eq_ok.mp (show (_ >>= _) = _ from h)
  rw [edges_eq_ok, hedges] at hread
  obtain ⟨heq, hsources, hknown⟩ := hread
  obtain rfl := Except.ok.inj heq
  rw [check_bind_eq_ok, any_purl_iff] at h
  obtain ⟨hroot, h⟩ := h
  obtain ⟨_, hwrapper, h⟩ := Loops.bind_eq_ok.mp h
  obtain ⟨found, hfound, h⟩ := Loops.bind_eq_ok.mp h
  have hdirect := (checkWrapper_eq_ok hrefs hsources (fun entry hentry => (hknown entry hentry).2)).mp hwrapper
  obtain ⟨hdescribes, hinstallable⟩ := addPackages_describes hrefs hsources hfound
  rw [pure_eq_ok] at h
  refine ⟨⟨hrefs, hsources, hknown, hroot, hdirect, hinstallable, ?_⟩, ?_⟩
  · exact fun a ha b hb => hdescribes.agree ha hb
  · -- Whatever `localeCompare` returns, sorting only changes the order.
    rw [h]
    exact hdescribes.perm (List.perm_insertionSort _ _).symm

theorem WellFormed.exists_packagesOf (h : WellFormed locale rootPurl view) {items : List Json}
    (hedges : items.mapM readDependency = .ok view.edges) :
    ∃ packages, packagesOf locale view.nodes items rootPurl = .ok packages := by
  have hread : items.foldlM (addDependency view.nodes) [] = .ok view.edges :=
    edges_eq_ok.mpr ⟨hedges, h.sources, h.known⟩
  have hwrapper := (checkWrapper_eq_ok h.refs h.sources
    (fun entry hentry => (h.known entry hentry).2)).mpr h.direct
  obtain ⟨found, hfound⟩ := h.exists_addPackages
  refine ⟨found.insertionSort (fun a b => locale.localeCompare a.purl b.purl ≠ .gt),
    Loops.bind_eq_ok.mpr ⟨view.edges, hread, check_bind_eq_ok.mpr ⟨any_purl_iff.mpr h.root, ?_⟩⟩⟩
  exact Loops.bind_eq_ok.mpr ⟨(), hwrapper, Loops.bind_eq_ok.mpr ⟨found, hfound, rfl⟩⟩

theorem readComponent_eq_ok {value : Json} {a : Component} :
    readComponent value = .ok a ↔ value.property (js "purl") = some (.string a.purl) ∧
      value.property (js "version") = some (.string a.version) ∧
      value.property (js "bom-ref") = some (.string a.ref) ∧
      (js "pkg:npm/").isPrefixOf a.purl = true ∧ value.property (js "hashes") = a.hashes := by
  simp only [← Json.text?_eq_some]
  unfold readComponent
  rw [check_bind_eq_ok]
  constructor
  · rintro ⟨_, h⟩
    split at h
    · next purl version ref hpurl hversion href =>
        rw [check_bind_eq_ok, pure_eq_ok] at h
        obtain ⟨hnpm, rfl⟩ := h
        exact ⟨hpurl, hversion, href, hnpm, rfl⟩
    · exact absurd h nofun
  · rintro ⟨hpurl, hversion, href, hnpm, hhashes⟩
    refine ⟨Json.not_isNull_of_property (Json.text?_eq_some.mp hpurl), ?_⟩
    rw [hpurl, hversion, href]
    exact check_bind_eq_ok.mpr ⟨hnpm, by rw [hhashes]; rfl⟩

/-- The reference of the root must not be empty. -/
theorem truthy_wrapper_iff {value : Json} {a : Component} (h : readComponent value = .ok a) :
    (Json.truthy (value.property (js "purl")) && Json.truthy (value.property (js "bom-ref"))) = true ↔
      a.ref ≠ [] := by
  obtain ⟨hpurl, _, href, hnpm, _⟩ := readComponent_eq_ok.mp h
  rw [hpurl, href, Bool.and_eq_true]
  have hne : Json.truthy (some (.string a.purl)) = true := by
    cases heq : a.purl with
    | nil =>
        rw [heq] at hnpm
        exact absurd hnpm (by decide)
    | cons unit rest => rfl
  constructor
  · rintro ⟨_, htruthy⟩ hnil
    rw [hnil] at htruthy
    exact absurd htruthy (by decide)
  · intro href
    refine ⟨hne, ?_⟩
    cases heq : a.ref with
    | nil => exact absurd heq href
    | cons unit rest => rfl

theorem productionGraph_describes {sbom : Json} (h : productionGraph locale sbom rootPurl = .ok packages) :
    ∃ view, Reads sbom view ∧ view.wrapper.ref ≠ [] ∧ WellFormed locale rootPurl view ∧
      Describes locale rootPurl view (view.counted rootPurl) packages := by
  unfold productionGraph at h
  rw [check_bind_eq_ok, check_bind_eq_ok] at h
  obtain ⟨_, hformat, h⟩ := h
  split at h
  · next components dependencies hcomponents hdependencies =>
      obtain ⟨hroot, h⟩ := check_bind_eq_ok.mp h
      obtain ⟨refs, hrefs, h⟩ := Loops.bind_eq_ok.mp h
      cases hwrapper : wrapperOf sbom with
      | none =>
          -- `undefined` is not truthy.
          rw [hwrapper] at hroot
          exact absurd hroot (by decide)
      | some value =>
          rw [hwrapper] at hroot hrefs
          obtain ⟨hread, hnodup⟩ := refs_eq_ok.mp hrefs
          obtain ⟨wrapper, later, hvalue, hlater, rfl⟩ :=
            List.forall₂_cons_left_iff.mp (Loops.mapM_eq_ok.mp hread)
          obtain ⟨edges, hedges, _⟩ := Loops.bind_eq_ok.mp (show (_ >>= _) = _ from h)
          obtain ⟨hwellFormed, hdescribes⟩ := packagesOf_describes ⟨wrapper, later, edges⟩
            hnodup (edges_eq_ok.mp hedges).1 h
          exact ⟨⟨wrapper, later, edges⟩, ⟨beq_iff_eq.mp hformat, ⟨value, hwrapper, hvalue⟩,
            ⟨components, hcomponents, Loops.mapM_eq_ok.mpr hlater⟩,
            ⟨dependencies, hdependencies, (edges_eq_ok.mp hedges).1⟩⟩,
            (truthy_wrapper_iff hvalue).mp hroot, hwellFormed, hdescribes⟩
  · exact absurd h nofun

theorem Reads.exists_productionGraph {sbom : Json} (hreads : Reads sbom view)
    (href : view.wrapper.ref ≠ []) (h : WellFormed locale rootPurl view) :
    ∃ packages, productionGraph locale sbom rootPurl = .ok packages := by
  obtain ⟨value, hwrapper, hvalue⟩ := hreads.wrapper
  obtain ⟨components, hcomponents, hread⟩ := hreads.components
  obtain ⟨dependencies, hdependencies, hedges⟩ := hreads.edges
  obtain ⟨packages, hpackages⟩ := h.exists_packagesOf hedges
  have hrefs : ((wrapperOf sbom).toList ++ components).foldlM addComponent [] = .ok view.nodes := by
    rw [hwrapper, refs_eq_ok]
    exact ⟨Loops.mapM_eq_ok.mpr (.cons hvalue (Loops.mapM_eq_ok.mp hread)), h.refs⟩
  have hroot := (truthy_wrapper_iff hvalue).mpr href
  refine ⟨packages, ?_⟩
  unfold productionGraph
  rw [check_bind_eq_ok, check_bind_eq_ok]
  refine ⟨Json.not_isNull_of_property hcomponents, beq_iff_eq.mpr hreads.format, ?_⟩
  rw [hcomponents, hdependencies]
  refine check_bind_eq_ok.mpr ⟨?_, Loops.bind_eq_ok.mpr ⟨view.nodes, hrefs, hpackages⟩⟩
  rw [hwrapper]
  exact hroot

/-- A document is read in one way. -/
theorem Reads.unique {sbom : Json} {view' : View} (h : Reads sbom view) (h' : Reads sbom view') :
    view = view' := by
  obtain ⟨value, hwrapper, hvalue⟩ := h.wrapper
  obtain ⟨components, hcomponents, hread⟩ := h.components
  obtain ⟨dependencies, hdependencies, hedges⟩ := h.edges
  obtain ⟨value', hwrapper', hvalue'⟩ := h'.wrapper
  obtain ⟨components', hcomponents', hread'⟩ := h'.components
  obtain ⟨dependencies', hdependencies', hedges'⟩ := h'.edges
  obtain rfl := Option.some.inj (hwrapper.symm.trans hwrapper')
  obtain rfl := Json.array.inj (Option.some.inj (hcomponents.symm.trans hcomponents'))
  obtain rfl := Json.array.inj (Option.some.inj (hdependencies.symm.trans hdependencies'))
  cases view
  cases view'
  rw [View.mk.injEq]
  exact ⟨Except.ok.inj (hvalue.symm.trans hvalue'), Except.ok.inj (hread.symm.trans hread'),
    Except.ok.inj (hedges.symm.trans hedges')⟩

end Sbom

end SecureMcp
