import SecureMcp.Scripts.PackageGraph

set_option autoImplicit false

/-! # Merging installations

The loop over the components keeps one entry for each package. What the entries say of the
components so far (`Describes`) carries over from one round to the next, and at the end of the loop
it makes the entries the graph of the document wherever installations of a package have one version. -/

namespace SecureMcp

namespace Sbom

/-- One entry for each package, with its lists in order. -/
structure Canonical (packages : List Package) : Prop where
  purls : (packages.map Package.purl).Nodup
  integrity : ∀ p ∈ packages, p.integrity.Pairwise (· ≤ ·)
  dependencies : ∀ p ∈ packages, Sorted.IsSet p.dependencies

/-- The graph that the entries make. -/
def graphOf (packages : List Package) : PackageGraph where
  packages := { package | ∃ p ∈ packages, package = (p.purl, p.version, (p.integrity : Multiset JsString)) }
  edges := { edge | ∃ p ∈ packages, ∃ purl ∈ p.dependencies, edge = (p.purl, purl) }

/-! ## Entries and their graph -/

section Canonical

variable {packages packages' : List Package}

theorem Canonical.eq_of_purl (h : Canonical packages) {p q : Package} (hp : p ∈ packages)
    (hq : q ∈ packages) (heq : p.purl = q.purl) : p = q :=
  List.inj_on_of_nodup_map h.purls hp hq heq

theorem Canonical.perm (h : Canonical packages) (hperm : packages.Perm packages') : Canonical packages' where
  purls := (hperm.map Package.purl).nodup_iff.mp h.purls
  integrity := fun p hp => h.integrity p (hperm.mem_iff.mpr hp)
  dependencies := fun p hp => h.dependencies p (hperm.mem_iff.mpr hp)

theorem graphOf_perm (hperm : packages.Perm packages') : graphOf packages = graphOf packages' := by
  unfold graphOf
  simp only [hperm.mem_iff]

/-- An edge of the graph belongs to the one entry of its package. -/
theorem Canonical.mem_edges_iff (h : Canonical packages) {p : Package} (hp : p ∈ packages) {purl : JsString} :
    (p.purl, purl) ∈ (graphOf packages).edges ↔ purl ∈ p.dependencies := by
  constructor
  · rintro ⟨q, hq, found, hfound, heq⟩
    obtain ⟨hpurl, rfl⟩ := Prod.mk.inj heq
    exact h.eq_of_purl hp hq hpurl ▸ hfound
  · exact fun hmem => ⟨p, hp, purl, hmem, rfl⟩

theorem mem_of_graphOf_eq (h : Canonical packages) (h' : Canonical packages')
    (hgraph : graphOf packages = graphOf packages') {p : Package} (hp : p ∈ packages) : p ∈ packages' := by
  have hpackage : (p.purl, p.version, (p.integrity : Multiset JsString)) ∈ (graphOf packages').packages := by
    rw [← hgraph]
    exact ⟨p, hp, rfl⟩
  obtain ⟨p', hp', heq⟩ := hpackage
  rw [Prod.mk.injEq, Prod.mk.injEq] at heq
  obtain ⟨hpurl, hversion, hintegrity⟩ := heq
  have hsame : p.integrity = p'.integrity :=
    List.Perm.eq_of_pairwise' (h.integrity p hp) (h'.integrity p' hp') (Multiset.coe_eq_coe.mp hintegrity)
  have hdependencies : p.dependencies = p'.dependencies := by
    refine (h.dependencies p hp).eq_of_mem_iff (h'.dependencies p' hp') (fun purl => ?_)
    rw [← h.mem_edges_iff hp, ← h'.mem_edges_iff hp', hgraph, hpurl]
  have hentry : p = p' := by
    cases p
    cases p'
    simp_all
  exact hentry ▸ hp'

/-- Entries are determined by their graph, up to their order. -/
theorem perm_iff_graphOf_eq (h : Canonical packages) (h' : Canonical packages') :
    packages.Perm packages' ↔ graphOf packages = graphOf packages' := by
  constructor
  · exact graphOf_perm
  · intro hgraph
    rw [List.perm_ext_iff_of_nodup h.purls.of_map h'.purls.of_map]
    exact fun p => ⟨mem_of_graphOf_eq h h' hgraph, mem_of_graphOf_eq h' h hgraph.symm⟩

end Canonical

/-! ## One round of the loop -/

section Merge

variable {locale : Locale} {rootPurl : JsString} {view : View}

/-- What the entries say of the components that have been installed. -/
structure Describes (locale : Locale) (rootPurl : JsString) (view : View) (done : List Component)
    (packages : List Package) : Prop where
  canonical : Canonical packages
  installed : ∀ a ∈ done, ∃ p ∈ packages, p.purl = a.purl
  version : ∀ p ∈ packages, ∃ a ∈ done, p.purl = a.purl ∧ p.version = a.version
  integrity : ∀ p ∈ packages, ∀ a ∈ done, p.purl = a.purl →
    (p.integrity : Multiset JsString) = integrityOf locale rootPurl a
  dependencies : ∀ p ∈ packages, ∀ purl, purl ∈ p.dependencies ↔
    ∃ a ∈ done, p.purl = a.purl ∧ ∃ b, view.DependsOn a b ∧ b.purl = purl

variable {done : List Component} {packages next : List Package} {a : Component}
  {installation : Installation}

theorem describes_nil : Describes locale rootPurl view [] [] where
  canonical := ⟨List.nodup_nil, by simp, by simp⟩
  installed := by simp
  version := by simp
  integrity := by simp
  dependencies := by simp

/-- The entry that comes out of a round. -/
structure Merged (packages : List Package) (installation : Installation) (p : Package) : Prop where
  purl : p.purl = installation.purl
  version : p.version = installation.version
  integrity : p.integrity = installation.integrity
  isSet : Sorted.IsSet p.dependencies
  dependencies : ∀ purl, purl ∈ p.dependencies ↔
    (∃ prior ∈ packages, prior.purl = installation.purl ∧ purl ∈ prior.dependencies) ∨
      purl ∈ installation.targets

theorem merge_eq_ok (h : Canonical packages) (hnext : merge packages installation = .ok next) :
    (∀ prior ∈ packages, prior.purl = installation.purl → prior.integrity = installation.integrity) ∧
      ∃ p, Merged packages installation p ∧ next = Keyed.set Package.purl packages p := by
  unfold merge at hnext
  rw [check_bind_eq_ok, pure_eq_ok] at hnext
  obtain ⟨hagree, rfl⟩ := hnext
  refine ⟨?_, _, ⟨rfl, rfl, rfl, Sorted.isSet_sortedSet _, fun purl => ?_⟩, rfl⟩
  · intro prior hprior hpurl
    rw [(Keyed.get_eq_some_iff h.purls).mpr ⟨hprior, hpurl⟩] at hagree
    exact beq_iff_eq.mp hagree
  · rw [Sorted.mem_sortedSet, List.mem_append]
    refine or_congr_left ?_
    constructor
    · intro hmem
      cases hget : Keyed.get Package.purl packages installation.purl with
      | none =>
          rw [hget] at hmem
          exact absurd hmem (by simp)
      | some prior =>
          rw [hget] at hmem
          exact ⟨prior, Keyed.mem_of_get hget, Keyed.key_of_get hget, hmem⟩
    · rintro ⟨prior, hprior, hpurl, hmem⟩
      rw [(Keyed.get_eq_some_iff h.purls).mpr ⟨hprior, hpurl⟩]
      exact hmem

theorem Canonical.set (h : Canonical packages) {p : Package} (hintegrity : p.integrity.Pairwise (· ≤ ·))
    (hdependencies : Sorted.IsSet p.dependencies) : Canonical (Keyed.set Package.purl packages p) where
  purls := Keyed.nodup_set h.purls p
  integrity := fun q hq => (Keyed.mem_set hq).elim (fun heq => heq ▸ hintegrity) (h.integrity q)
  dependencies := fun q hq => (Keyed.mem_set hq).elim (fun heq => heq ▸ hdependencies) (h.dependencies q)

/-- A round adds what the installation says. -/
theorem Describes.merge (hdone : Describes locale rootPurl view done packages)
    (ha : Installs locale rootPurl view a installation) (hnext : merge packages installation = .ok next) :
    Describes locale rootPurl view (done ++ [a]) next := by
  obtain ⟨hagree, p, hp, rfl⟩ := merge_eq_ok hdone.canonical hnext
  have hmem : ∀ {q}, q ∈ Keyed.set Package.purl packages p ↔ q = p ∨ (q ∈ packages ∧ q.purl ≠ p.purl) :=
    Keyed.mem_set_iff hdone.canonical.purls
  have hsnoc : ∀ {b}, b ∈ done ++ [a] ↔ b ∈ done ∨ b = a := by
    intro b
    rw [List.mem_append, List.mem_singleton]
  have hpurl : p.purl = a.purl := hp.purl.trans ha.purl
  constructor
  case canonical => exact hdone.canonical.set (hp.integrity ▸ ha.sorted) hp.isSet
  case installed =>
    intro b hb
    by_cases heq : a.purl = b.purl
    · exact ⟨p, hmem.mpr (Or.inl rfl), hpurl.trans heq⟩
    · have hbdone : b ∈ done := (hsnoc.mp hb).resolve_right (fun h => heq (congrArg Component.purl h.symm))
      obtain ⟨q, hq, hqpurl⟩ := hdone.installed b hbdone
      exact ⟨q, hmem.mpr (Or.inr ⟨hq, fun h => heq (hpurl.symm.trans (h.symm.trans hqpurl))⟩), hqpurl⟩
  case version =>
    intro q hq
    rcases hmem.mp hq with rfl | ⟨hq, _⟩
    · exact ⟨a, hsnoc.mpr (Or.inr rfl), hpurl, hp.version.trans ha.version⟩
    · obtain ⟨b, hb, h⟩ := hdone.version q hq
      exact ⟨b, hsnoc.mpr (Or.inl hb), h⟩
  case integrity =>
    intro q hq b hb hqb
    -- The entry is the new one or another, and the component the last one or one before it.
    rcases hmem.mp hq with rfl | ⟨hq, hne⟩
    · rw [hp.integrity]
      rcases hsnoc.mp hb with hb | rfl
      · -- The entry that was there has been compared with the new one.
        obtain ⟨prior, hprior, hpriorpurl⟩ := hdone.installed b hb
        rw [← hagree prior hprior (hpriorpurl.trans (hqb.symm.trans hp.purl))]
        exact hdone.integrity prior hprior b hb hpriorpurl
      · exact ha.integrity
    · rcases hsnoc.mp hb with hb | rfl
      · exact hdone.integrity q hq b hb hqb
      · exact absurd (hqb.trans hpurl.symm) hne
  case dependencies =>
    intro q hq purl
    rcases hmem.mp hq with rfl | ⟨hq, hne⟩
    · rw [hp.dependencies, ha.targets]
      constructor
      · rintro (⟨prior, hprior, hpriorpurl, hfound⟩ | hfound)
        · obtain ⟨b, hb, hpriorb, h⟩ := (hdone.dependencies prior hprior purl).mp hfound
          exact ⟨b, hsnoc.mpr (Or.inl hb), hp.purl.trans (hpriorpurl.symm.trans hpriorb), h⟩
        · exact ⟨a, hsnoc.mpr (Or.inr rfl), hpurl, hfound⟩
      · rintro ⟨b, hb, hqb, h⟩
        rcases hsnoc.mp hb with hb | rfl
        · -- The union starts from the dependencies of the entry that was there.
          obtain ⟨prior, hprior, hpriorpurl⟩ := hdone.installed b hb
          exact Or.inl ⟨prior, hprior, hpriorpurl.trans (hqb.symm.trans hp.purl),
            (hdone.dependencies prior hprior purl).mpr ⟨b, hb, hpriorpurl, h⟩⟩
        · exact Or.inr h
    · rw [hdone.dependencies q hq]
      constructor
      · rintro ⟨b, hb, h⟩
        exact ⟨b, hsnoc.mpr (Or.inl hb), h⟩
      · rintro ⟨b, hb, hqb, h⟩
        rcases hsnoc.mp hb with hb | rfl
        · exact ⟨b, hb, hqb, h⟩
        · exact absurd (hqb.trans hpurl.symm) hne

/-- A round comes to its end when the integrity identifiers agree. -/
theorem Describes.exists_merge (hdone : Describes locale rootPurl view done packages)
    (ha : Installs locale rootPurl view a installation)
    (hagree : ∀ b ∈ done, b.purl = a.purl → integrityOf locale rootPurl b = integrityOf locale rootPurl a) :
    ∃ next, Sbom.merge packages installation = .ok next := by
  have hcheck : (Keyed.get Package.purl packages installation.purl).all
      (fun prior => prior.integrity == installation.integrity) = true := by
    cases hget : Keyed.get Package.purl packages installation.purl with
    | none => rfl
    | some prior =>
        have hprior := Keyed.mem_of_get hget
        obtain ⟨b, hb, hpurl, _⟩ := hdone.version prior hprior
        have hsame : (prior.integrity : Multiset JsString) = installation.integrity := by
          rw [hdone.integrity prior hprior b hb hpurl, ha.integrity]
          exact hagree b hb (hpurl.symm.trans ((Keyed.key_of_get hget).trans ha.purl))
        exact beq_iff_eq.mpr (List.Perm.eq_of_pairwise' (hdone.canonical.integrity prior hprior) ha.sorted
          (Multiset.coe_eq_coe.mp hsame))
  exact ⟨_, check_bind_eq_ok.mpr ⟨hcheck, rfl⟩⟩

end Merge

end Sbom

end SecureMcp
