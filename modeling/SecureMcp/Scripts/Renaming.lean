import SecureMcp.Scripts.ProductionGraph
import Mathlib.Logic.Relator

set_option autoImplicit false

/-! # Documents with other references, in another order

Two views are the same up to a renaming when a one-to-one relation between references pairs their
components and their entries. Such views are well formed together, and have one graph. The relation
can be read both ways, so that every property has to be carried over in one direction only. -/

namespace SecureMcp

namespace Sbom

/-- The same value, apart from the order of an array, whose items are related. -/
inductive Reordered (R : Json → Json → Prop) : Option Json → Option Json → Prop
  | array {items items' : List Json} (shuffled : Shuffled R items items') :
    Reordered R (some (.array items)) (some (.array items'))
  | other {value : Option Json} (other : ∀ items, value ≠ some (.array items)) : Reordered R value value

structure Component.Renamed (r : JsString → JsString → Prop) (a a' : Component) : Prop where
  purl : a'.purl = a.purl
  version : a'.version = a.version
  ref : r a.ref a'.ref
  hashes : Reordered (fun hash hash' => hash' = hash) a.hashes a'.hashes

structure Dependency.Renamed (r : JsString → JsString → Prop) (entry entry' : Dependency) : Prop where
  ref : r entry.ref entry'.ref
  dependsOn : Shuffled r entry.dependsOn entry'.dependsOn

structure View.Renamed (r : JsString → JsString → Prop) (view view' : View) : Prop where
  unique : Relator.BiUnique r
  wrapper : Component.Renamed r view.wrapper view'.wrapper
  components : Shuffled (Component.Renamed r) view.components view'.components
  edges : Shuffled (Dependency.Renamed r) view.edges view'.edges

theorem Reordered.symm {R : Json → Json → Prop} {value value' : Option Json} (h : Reordered R value value') :
    Reordered (fun b a => R a b) value' value := by
  cases h with
  | array hitems => exact .array hitems.symm
  | other hother => exact .other hother

theorem Reordered.refl {R : Json → Json → Prop} (h : ∀ a, R a a) (value : Option Json) :
    Reordered R value value := by
  by_cases harray : ∃ items, value = some (.array items)
  · obtain ⟨items, rfl⟩ := harray
    exact .array (Shuffled.refl fun a _ => h a)
  · exact .other (fun items heq => harray ⟨items, heq⟩)

theorem Reordered.imp {R S : Json → Json → Prop} {value value' : Option Json}
    (h : Reordered R value value') (himp : ∀ a b, R a b → S a b) : Reordered S value value' := by
  cases h with
  | array hitems => exact .array (hitems.imp himp)
  | other hother => exact .other hother

theorem Reordered.exists_mapM {R : Json → Json → Prop} {α : Type} {S : α → α → Prop}
    {read : Json → Except Failure α} {value value' : Option Json} (h : Reordered R value value')
    (hread : ∀ item item' result, R item item' → read item = .ok result →
      ∃ result', read item' = .ok result' ∧ S result result')
    {items : List Json} {results : List α} (hitems : value = some (.array items))
    (hresults : items.mapM read = .ok results) :
    ∃ results', (∃ items', value' = some (.array items') ∧ items'.mapM read = .ok results') ∧
      Shuffled S results results' := by
  subst hitems
  cases h with
  | array hitems =>
      obtain ⟨results', hresults', hshuffled⟩ := hitems.exists_mapM hread hresults
      exact ⟨results', ⟨_, rfl, hresults'⟩, hshuffled⟩
  | other hother => exact absurd rfl (hother items)

section

variable {r : JsString → JsString → Prop} {a a' : Component}

theorem Component.Renamed.symm (h : Component.Renamed r a a') :
    Component.Renamed (fun ref' ref => r ref ref') a' a where
  purl := h.purl.symm
  version := h.version.symm
  ref := h.ref
  hashes := h.hashes.symm.imp fun _ _ => Eq.symm

theorem Dependency.Renamed.symm {entry entry' : Dependency} (h : Dependency.Renamed r entry entry') :
    Dependency.Renamed (fun ref' ref => r ref ref') entry' entry :=
  ⟨h.ref, h.dependsOn.symm⟩

theorem View.Renamed.symm {view view' : View} (h : View.Renamed r view view') :
    View.Renamed (fun ref' ref => r ref ref') view' view where
  unique := ⟨fun _ _ _ h₁ h₂ => h.unique.2 h₁ h₂, fun _ _ _ h₁ h₂ => h.unique.1 h₁ h₂⟩
  wrapper := h.wrapper.symm
  components := h.components.symm.imp fun _ _ h => h.symm
  edges := h.edges.symm.imp fun _ _ h => h.symm

/-! ## The integrity identifiers -/

variable {locale : Locale} {rootPurl : JsString}

theorem Component.Renamed.exists_identifiers (h : Component.Renamed r a a') {found : List JsString}
    (hfound : identifiers locale a.hashes = .ok found) :
    ∃ found', identifiers locale a'.hashes = .ok found' ∧ found.Perm found' := by
  have hhashes := h.hashes
  generalize a.hashes = hashes at hfound hhashes
  generalize a'.hashes = hashes' at hhashes
  cases hhashes with
  | array hitems =>
      obtain ⟨found', hfound', hshuffled⟩ := hitems.exists_mapM (f := identifier locale)
        (g := identifier locale) (S := Eq) (fun hash hash' text heq htext => ⟨text, heq ▸ htext, rfl⟩) hfound
      refine ⟨found', hfound', ?_⟩
      obtain ⟨middle, heq, hperm⟩ := hshuffled
      rw [List.forall₂_eq_eq_eq] at heq
      rwa [heq]
  | other _ => exact ⟨found, hfound, List.Perm.refl found⟩

theorem Component.Renamed.integrityOf_eq (h : Component.Renamed r a a') :
    integrityOf locale rootPurl a' = integrityOf locale rootPurl a := by
  unfold integrityOf
  rw [h.purl]
  by_cases hroot : a.purl = rootPurl
  · rw [if_pos hroot, if_pos hroot]
  rw [if_neg hroot, if_neg hroot]
  cases hfound : identifiers locale a.hashes with
  | ok found =>
      obtain ⟨found', hfound', hperm⟩ := h.exists_identifiers hfound
      rw [hfound']
      exact Multiset.coe_eq_coe.mpr hperm.symm
  | error failure =>
      -- The hashes of the other are not readable either: they are these ones in another order.
      cases hfound' : identifiers locale a'.hashes with
      | error failure' => rfl
      | ok found' =>
          obtain ⟨found, hok, _⟩ := h.symm.exists_identifiers hfound'
          exact absurd (hok.symm.trans hfound) nofun

end

/-! ## Dependencies -/

namespace View.Renamed

variable {r : JsString → JsString → Prop} {view view' : View} {locale : Locale} {rootPurl : JsString}
  {a a' b b' : Component}

theorem nodes (h : View.Renamed r view view') : Shuffled (Component.Renamed r) view.nodes view'.nodes :=
  h.components.cons h.wrapper

theorem counted (h : View.Renamed r view view') :
    Shuffled (Component.Renamed r) (view.counted rootPurl) (view'.counted rootPurl) := by
  unfold View.counted
  rw [h.wrapper.purl]
  by_cases hroot : view.wrapper.purl = rootPurl
  · rw [if_neg (fun hne => hne hroot), if_neg (fun hne => hne hroot)]
    exact h.nodes
  · rw [if_pos hroot, if_pos hroot]
    exact h.components

theorem exists_ref (h : View.Renamed r view view') {ref ref' : JsString} (href : r ref ref')
    (hknown : ∃ a ∈ view.nodes, a.ref = ref) : ∃ a' ∈ view'.nodes, a'.ref = ref' := by
  obtain ⟨a, ha, rfl⟩ := hknown
  obtain ⟨a', ha', hrenamed⟩ := h.nodes.exists_mem ha
  exact ⟨a', ha', h.unique.2 hrenamed.ref href⟩

theorem exists_entry (h : View.Renamed r view view') (ha : Component.Renamed r a a') {entry : Dependency}
    (hentry : entry ∈ view.edges) (href : entry.ref = a.ref) :
    ∃ entry' ∈ view'.edges, entry'.ref = a'.ref ∧ Dependency.Renamed r entry entry' := by
  obtain ⟨entry', hentry', hrenamed⟩ := h.edges.exists_mem hentry
  exact ⟨entry', hentry', h.unique.2 hrenamed.ref (href ▸ ha.ref), hrenamed⟩

theorem dependsOn (h : View.Renamed r view view') (ha : Component.Renamed r a a')
    (hdepends : view.DependsOn a b) : ∃ b', Component.Renamed r b b' ∧ view'.DependsOn a' b' := by
  obtain ⟨hb, entry, hentry, href, hmem⟩ := hdepends
  obtain ⟨b', hb', hrenamed⟩ := h.nodes.exists_mem hb
  obtain ⟨entry', hentry', href', hentryRenamed⟩ := h.exists_entry ha hentry href
  obtain ⟨ref', hmem', hrel⟩ := hentryRenamed.dependsOn.exists_mem hmem
  -- The reference of the component and the one in the entry are renamed to the same.
  obtain rfl := h.unique.2 hrel hrenamed.ref
  exact ⟨b', hrenamed, hb', entry', hentry', href', hmem'⟩

theorem dependsOn' (h : View.Renamed r view view') (ha : Component.Renamed r a a')
    (hdepends : view'.DependsOn a' b') : ∃ b, Component.Renamed r b b' ∧ view.DependsOn a b := by
  obtain ⟨b, hb, hdepends⟩ := h.symm.dependsOn ha.symm hdepends
  exact ⟨b, hb.symm, hdepends⟩

/-! ## What is checked -/

theorem installable (h : View.Renamed r view view') (ha : Component.Renamed r a a')
    (hinstallable : Installable locale rootPurl view a) : Installable locale rootPurl view' a' := by
  constructor
  case entry =>
    obtain ⟨entry, hentry, href⟩ := hinstallable.entry
    obtain ⟨entry', hentry', href', _⟩ := h.exists_entry ha hentry href
    exact ⟨entry', hentry', href'⟩
  case hashes =>
    rw [ha.purl]
    intro hroot
    obtain ⟨found, hfound⟩ := hinstallable.hashes hroot
    obtain ⟨found', hfound', _⟩ := ha.exists_identifiers hfound
    exact ⟨found', hfound'⟩
  case apart =>
    rw [h.wrapper.purl]
    intro hroot b' hdepends
    obtain ⟨b, hb, hdepends⟩ := h.dependsOn' ha hdepends
    rw [hb.purl]
    exact hinstallable.apart hroot b hdepends

theorem wellFormed (h : View.Renamed r view view') (hview : WellFormed locale rootPurl view) :
    WellFormed locale rootPurl view' := by
  constructor
  case refs => exact (h.nodes.map fun _ _ hrenamed => hrenamed.ref).nodup h.unique hview.refs
  case sources => exact (h.edges.map fun _ _ hrenamed => hrenamed.ref).nodup h.unique hview.sources
  case known =>
    intro entry' hentry'
    obtain ⟨entry, hentry, hrenamed⟩ := h.edges.exists_mem' hentry'
    obtain ⟨hsource, htargets⟩ := hview.known entry hentry
    refine ⟨h.exists_ref hrenamed.ref hsource, fun ref' href' => ?_⟩
    obtain ⟨ref, href, hrel⟩ := hrenamed.dependsOn.exists_mem' href'
    exact h.exists_ref hrel (htargets ref href)
  case root =>
    obtain ⟨a, ha, hroot⟩ := hview.root
    obtain ⟨a', ha', hrenamed⟩ := h.nodes.exists_mem ha
    exact ⟨a', ha', hrenamed.purl.trans hroot⟩
  case direct =>
    -- One dependency of the wrapper is carried over, and all of them are carried back.
    rw [h.wrapper.purl]
    intro hroot
    obtain ⟨⟨b, hb⟩, hall⟩ := hview.direct hroot
    obtain ⟨b', _, hdepends⟩ := h.dependsOn h.wrapper hb
    refine ⟨⟨b', hdepends⟩, fun b' hdepends => ?_⟩
    obtain ⟨b, hrenamed, hb⟩ := h.dependsOn' h.wrapper hdepends
    exact hrenamed.purl.trans (hall b hb)
  case installable =>
    intro a' ha'
    obtain ⟨a, ha, hrenamed⟩ := h.counted.exists_mem' ha'
    exact h.installable hrenamed (hview.installable a ha)
  case agree =>
    intro a' ha' b' hb' heq
    obtain ⟨a, ha, harenamed⟩ := h.counted.exists_mem' ha'
    obtain ⟨b, hb, hbrenamed⟩ := h.counted.exists_mem' hb'
    rw [harenamed.integrityOf_eq, hbrenamed.integrityOf_eq]
    exact hview.agree a ha b hb (harenamed.purl.symm.trans (heq.trans hbrenamed.purl))

theorem versionsAgree (h : View.Renamed r view view') (hversions : VersionsAgree rootPurl view) :
    VersionsAgree rootPurl view' := by
  intro a' ha' b' hb' heq
  obtain ⟨a, ha, harenamed⟩ := h.counted.exists_mem' ha'
  obtain ⟨b, hb, hbrenamed⟩ := h.counted.exists_mem' hb'
  rw [harenamed.version, hbrenamed.version]
  exact hversions a ha b hb (harenamed.purl.symm.trans (heq.trans hbrenamed.purl))

/-! ## The graph -/

theorem mem_packages (h : View.Renamed r view view') {package : JsString × JsString × Multiset JsString}
    (hpackage : package ∈ (view.graph locale rootPurl).packages) :
    package ∈ (view'.graph locale rootPurl).packages := by
  obtain ⟨a, ha, rfl⟩ := hpackage
  obtain ⟨a', ha', hrenamed⟩ := h.counted.exists_mem ha
  exact ⟨a', ha', by rw [hrenamed.purl, hrenamed.version, hrenamed.integrityOf_eq]⟩

theorem mem_edges (h : View.Renamed r view view') {edge : JsString × JsString}
    (hedge : edge ∈ (view.graph locale rootPurl).edges) : edge ∈ (view'.graph locale rootPurl).edges := by
  obtain ⟨a, ha, b, hb, rfl⟩ := hedge
  obtain ⟨a', ha', hrenamed⟩ := h.counted.exists_mem ha
  obtain ⟨b', hbrenamed, hdepends⟩ := h.dependsOn hrenamed hb
  exact ⟨a', ha', b', hdepends, by rw [hrenamed.purl, hbrenamed.purl]⟩

theorem graph_eq (h : View.Renamed r view view') :
    view.graph locale rootPurl = view'.graph locale rootPurl := by
  ext package
  case packages => exact ⟨h.mem_packages, h.symm.mem_packages⟩
  case edges => exact ⟨h.mem_edges, h.symm.mem_edges⟩

end View.Renamed

/-! ## Renaming by a function -/

section

variable (f : JsString → JsString)

def Component.rename (a : Component) : Component := { a with ref := f a.ref }

def Dependency.rename (entry : Dependency) : Dependency where
  ref := f entry.ref
  dependsOn := entry.dependsOn.map f

def View.rename (view : View) : View where
  wrapper := view.wrapper.rename f
  components := view.components.map (Component.rename f)
  edges := view.edges.map (Dependency.rename f)

variable {f}

theorem renamed_rename (hf : Function.Injective f) (view : View) :
    View.Renamed (fun ref ref' => ref' = f ref) view (view.rename f) := by
  have hcomponent : ∀ a : Component, Component.Renamed (fun ref ref' => ref' = f ref) a (a.rename f) :=
    fun a => ⟨rfl, rfl, rfl, Reordered.refl (R := fun hash hash' => hash' = hash) (fun _ => rfl) a.hashes⟩
  have hentry : ∀ entry : Dependency,
      Dependency.Renamed (fun ref ref' => ref' = f ref) entry (entry.rename f) :=
    fun entry => ⟨rfl, (Shuffled.refl (R := Eq) fun _ _ => rfl).map_right
      fun _ _ heq => congrArg f heq.symm⟩
  constructor
  case unique => exact ⟨fun _ _ _ h₁ h₂ => hf (h₁.symm.trans h₂), fun _ _ _ h₁ h₂ => h₁.trans h₂.symm⟩
  case wrapper => exact hcomponent view.wrapper
  case components =>
    refine (Shuffled.refl (R := Eq) fun _ _ => rfl).map_right ?_
    rintro a _ rfl
    exact hcomponent a
  case edges =>
    refine (Shuffled.refl (R := Eq) fun _ _ => rfl).map_right ?_
    rintro entry _ rfl
    exact hentry entry

end

end Sbom

end SecureMcp
