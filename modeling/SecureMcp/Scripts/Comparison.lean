import SecureMcp.Lib.JsonRead
import SecureMcp.Scripts.Presentation

set_option autoImplicit false

/-! # What a comparison depends on

`compareProductionGraphs` compares the package graphs of two documents, whichever way the documents
present them, as long as installations of one package have one version: the version of an entry is the
one that was seen last, and nothing compares it with the one before. -/

namespace SecureMcp

namespace Sbom

/-! ## The report -/

section Report

variable {build build' consumer consumer' : List Package} {rootPurl : JsString}

theorem toJson_injective {p q : Package} (h : p.toJson.stringify = q.toJson.stringify) : p = q := by
  have hjson := Json.stringify_injective h
  unfold Package.toJson at hjson
  rw [Json.object.injEq] at hjson
  cases p
  cases q
  simp only [List.cons.injEq, Prod.mk.injEq, true_and, and_true, Json.string.injEq, Json.array.injEq] at hjson
  obtain ⟨rfl, rfl, hintegrity, hdependencies⟩ := hjson
  rw [Package.mk.injEq]
  exact ⟨rfl, rfl, List.map_injective_iff.mpr (fun _ _ => Json.string.inj) hintegrity,
    List.map_injective_iff.mpr (fun _ _ => Json.string.inj) hdependencies⟩

theorem missing_eq_nil_iff {entries others : List Package} :
    missing entries others = [] ↔ ∀ entry ∈ entries, ∃ other ∈ others, other.purl = entry.purl := by
  unfold missing
  rw [List.filter_eq_nil_iff]
  refine forall₂_congr (fun entry _ => ?_)
  have hfound : (Keyed.get Package.purl others entry.purl).isSome = true ↔
      ∃ other ∈ others, other.purl = entry.purl := Keyed.get_isSome_iff
  rw [← hfound, Option.isNone_iff_eq_none, Option.isSome_iff_ne_none]

theorem changes_eq_nil_iff (h : Canonical build) :
    changes build consumer = [] ↔ ∀ entry ∈ consumer, ∀ p ∈ build, p.purl = entry.purl → entry = p := by
  unfold changes
  rw [List.filterMap_eq_nil_iff]
  refine forall₂_congr (fun entry _ => ?_)
  constructor
  · -- Entries with different texts are different, and the others the same.
    intro hnone p hp hpurl
    rw [(Keyed.get_eq_some_iff h.purls).mpr ⟨hp, hpurl⟩] at hnone
    by_contra hne
    have hdiffer : entry.toJson.stringify ≠ p.toJson.stringify := fun heq => hne (toJson_injective heq)
    exact absurd hnone (by simp [hdiffer])
  · intro hall
    cases hget : Keyed.get Package.purl build entry.purl with
    | none => rfl
    | some p =>
        obtain rfl := hall p (Keyed.mem_of_get hget) (Keyed.key_of_get hget)
        simp

/-- The result is a match when both sides have the same entries. -/
theorem report_match_iff (hbuild : Canonical build) (hconsumer : Canonical consumer) :
    (report rootPurl build consumer).result = .match ↔ build.Perm consumer := by
  have hresult : (report rootPurl build consumer).result = .match ↔
      missing consumer build = [] ∧ missing build consumer = [] ∧ changes build consumer = [] := by
    simp [report, and_assoc]
  rw [hresult, missing_eq_nil_iff, missing_eq_nil_iff, changes_eq_nil_iff hbuild]
  constructor
  · rintro ⟨hadded, hremoved, hchanged⟩
    rw [List.perm_ext_iff_of_nodup hbuild.purls.of_map hconsumer.purls.of_map]
    intro p
    constructor
    · intro hp
      obtain ⟨entry, hentry, hpurl⟩ := hremoved p hp
      exact hchanged entry hentry p hp hpurl.symm ▸ hentry
    · intro hp
      obtain ⟨other, hother, hpurl⟩ := hadded p hp
      exact hchanged p hp other hother hpurl ▸ hother
  · intro hperm
    refine ⟨fun p hp => ⟨p, hperm.mem_iff.mpr hp, rfl⟩, fun p hp => ⟨p, hperm.mem_iff.mp hp, rfl⟩, ?_⟩
    exact fun entry hentry p hp hpurl => hbuild.eq_of_purl (hperm.mem_iff.mpr hentry) hp hpurl.symm

/-- The same findings, in any order. -/
structure Comparison.Same (c c' : Comparison) : Prop where
  result : c'.result = c.result
  root : c'.root = c.root
  added : c'.added.Perm c.added
  removed : c'.removed.Perm c.removed
  changed : c'.changed.Perm c.changed

theorem missing_perm {entries entries' others others' : List Package} (h : Canonical others)
    (hentries : entries.Perm entries') (hothers : others.Perm others') :
    (missing entries' others').Perm (missing entries others) := by
  unfold missing
  simp only [Keyed.get_perm h.purls hothers]
  exact hentries.symm.filter _

theorem changes_perm (h : Canonical build) (hbuild : build.Perm build') (hconsumer : consumer.Perm consumer') :
    (changes build' consumer').Perm (changes build consumer) := by
  unfold changes
  simp only [Keyed.get_perm h.purls hbuild]
  exact hconsumer.symm.filterMap _

theorem report_same (hbuild : Canonical build) (hconsumer : Canonical consumer)
    (hbuildPerm : build.Perm build') (hconsumerPerm : consumer.Perm consumer') :
    (report rootPurl build consumer).Same (report rootPurl build' consumer') := by
  have hadded := missing_perm hbuild hconsumerPerm hbuildPerm
  have hremoved := missing_perm hconsumer hbuildPerm hconsumerPerm
  have hchanged := changes_perm hbuild hbuildPerm hconsumerPerm
  refine ⟨?_, rfl, hadded, hremoved, hchanged⟩
  simp only [report]
  rw [hadded.isEmpty_eq, hremoved.isEmpty_eq, hchanged.isEmpty_eq]

end Report

/-! ## The comparison -/

variable {locale : Locale} {buildSbom consumerSbom : Json}

theorem compare_eq_ok {c : Comparison} :
    compareProductionGraphs locale buildSbom consumerSbom = .ok c ↔ ∃ rootPurl build consumer,
      Json.text? ((wrapperOf buildSbom).bind (Json.property (js "purl"))) = some rootPurl ∧
        productionGraph locale buildSbom rootPurl = .ok build ∧
        productionGraph locale consumerSbom rootPurl = .ok consumer ∧ c = report rootPurl build consumer := by
  unfold compareProductionGraphs
  rw [check_bind_eq_ok]
  constructor
  · rintro ⟨_, h⟩
    split at h
    · exact absurd h nofun
    · next rootPurl hroot =>
        obtain ⟨build, hbuild, h⟩ := Loops.bind_eq_ok.mp h
        obtain ⟨consumer, hconsumer, h⟩ := Loops.bind_eq_ok.mp h
        exact ⟨rootPurl, build, consumer, hroot, hbuild, hconsumer, pure_eq_ok.mp h⟩
  · rintro ⟨rootPurl, build, consumer, hroot, hbuild, hconsumer, rfl⟩
    have hnull : (!buildSbom.isNull) = true := by
      cases buildSbom with
      | null => exact absurd hroot nofun
      | _ => rfl
    refine ⟨hnull, ?_⟩
    rw [hroot]
    exact Loops.bind_eq_ok.mpr ⟨build, hbuild, Loops.bind_eq_ok.mpr ⟨consumer, hconsumer, rfl⟩⟩

theorem Reads.rootPurl {view : View} (h : Reads buildSbom view) :
    Json.text? ((wrapperOf buildSbom).bind (Json.property (js "purl"))) = some view.wrapper.purl := by
  obtain ⟨value, hvalue, hread⟩ := h.wrapper
  rw [hvalue]
  exact Json.text?_eq_some.mpr (readComponent_eq_ok.mp hread).1

/-- What the two documents have to be for the comparison to come to its end. -/
structure Comparable (locale : Locale) (build consumer : View) : Prop where
  buildRef : build.wrapper.ref ≠ []
  consumerRef : consumer.wrapper.ref ≠ []
  buildFormed : WellFormed locale build.wrapper.purl build
  consumerFormed : WellFormed locale build.wrapper.purl consumer

theorem compare_describes {c : Comparison}
    (h : compareProductionGraphs locale buildSbom consumerSbom = .ok c) :
    ∃ b k, Reads buildSbom b ∧ Reads consumerSbom k ∧ Comparable locale b k ∧
      ∃ build consumer, Describes locale b.wrapper.purl b (b.counted b.wrapper.purl) build ∧
        Describes locale b.wrapper.purl k (k.counted b.wrapper.purl) consumer ∧
        c = report b.wrapper.purl build consumer := by
  obtain ⟨rootPurl, build, consumer, hroot, hbuild, hconsumer, rfl⟩ := compare_eq_ok.mp h
  obtain ⟨b, hb, hbref, hbwell, hbdescribes⟩ := productionGraph_describes hbuild
  obtain ⟨k, hk, hkref, hkwell, hkdescribes⟩ := productionGraph_describes hconsumer
  obtain rfl : b.wrapper.purl = rootPurl := Option.some.inj (hb.rootPurl.symm.trans hroot)
  exact ⟨b, k, hb, hk, ⟨hbref, hkref, hbwell, hkwell⟩, build, consumer, hbdescribes, hkdescribes, rfl⟩

theorem Comparable.exists_compare {b k : View} (hb : Reads buildSbom b) (hk : Reads consumerSbom k)
    (h : Comparable locale b k) : ∃ c, compareProductionGraphs locale buildSbom consumerSbom = .ok c := by
  obtain ⟨build, hbuild⟩ := hb.exists_productionGraph h.buildRef h.buildFormed
  obtain ⟨consumer, hconsumer⟩ := hk.exists_productionGraph h.consumerRef h.consumerFormed
  exact ⟨_, compare_eq_ok.mpr ⟨b.wrapper.purl, build, consumer, hb.rootPurl, hbuild, hconsumer, rfl⟩⟩

/-- Documents that present others are well formed when those are. -/
theorem Comparable.renamed {b k b' k' : View} (h : Comparable locale b k) {ρ ρ' : Renaming}
    (hb : View.Renamed ρ.rel b b') (hk : View.Renamed ρ'.rel k k') : Comparable locale b' k' where
  buildRef := ρ.nonempty hb.wrapper.ref
  consumerRef := ρ'.nonempty hk.wrapper.ref
  buildFormed := by
    rw [hb.wrapper.purl]
    exact hb.wellFormed h.buildFormed
  consumerFormed := by
    rw [hb.wrapper.purl]
    exact hk.wellFormed h.consumerFormed

/-! ## The graphs that are compared -/

/-- Both throw, or they find the same. -/
def SameOutcome : Except Failure Comparison → Except Failure Comparison → Prop
  | .ok c, .ok c' => c.Same c'
  | .error _, .error _ => True
  | _, _ => False

/-- Installations of one package agree on everything but their edges. -/
def InstallationsAgree (locale : Locale) (rootPurl : JsString) (view : View) : Prop :=
  ∀ a ∈ view.counted rootPurl, ∀ b ∈ view.counted rootPurl, a.purl = b.purl →
    a.version = b.version ∧ integrityOf locale rootPurl a = integrityOf locale rootPurl b

/-- The comparison is one of package graphs. -/
structure ComparesGraphs (locale : Locale) (build consumer : Json) : Prop where
  /-- It does not depend on the presentation. -/
  presentation : ∀ (ρ ρ' : Renaming) (build' consumer' : Json), Presents ρ.rel build build' →
    Presents ρ'.rel consumer consumer' →
      SameOutcome (compareProductionGraphs locale build consumer)
        (compareProductionGraphs locale build' consumer')
  /-- Installations are merged only if they agree, and the graphs that come out are compared. -/
  graphs : ∀ c, compareProductionGraphs locale build consumer = .ok c →
    ∃ b k, Reads build b ∧ Reads consumer k ∧
      InstallationsAgree locale b.wrapper.purl b ∧ InstallationsAgree locale b.wrapper.purl k ∧
      (c.result = .match ↔ b.graph locale b.wrapper.purl = k.graph locale b.wrapper.purl)

/-- Where both documents are well formed, the references of their roots are not empty, and
    installations of one package have one version. -/
def Determined (locale : Locale) (build consumer : Json) : Prop :=
  ∀ b k, Reads build b → Reads consumer k → WellFormed locale b.wrapper.purl b →
    WellFormed locale b.wrapper.purl k →
      b.wrapper.ref ≠ [] ∧ k.wrapper.ref ≠ [] ∧
        VersionsAgree b.wrapper.purl b ∧ VersionsAgree b.wrapper.purl k

theorem WellFormed.installationsAgree {rootPurl : JsString} {view : View}
    (h : WellFormed locale rootPurl view) (hversions : VersionsAgree rootPurl view) :
    InstallationsAgree locale rootPurl view :=
  fun a ha b hb heq => ⟨hversions a ha b hb heq, h.agree a ha b hb heq⟩

/-- With one version for each package, presentations of two documents are compared alike. -/
theorem Comparable.same {b k b' k' : View} {buildSbom' consumerSbom' : Json} {ρ ρ' : Renaming}
    {c c' : Comparison} (hb : Reads buildSbom b) (hk : Reads consumerSbom k)
    (hb' : Reads buildSbom' b') (hk' : Reads consumerSbom' k')
    (hbRenamed : View.Renamed ρ.rel b b') (hkRenamed : View.Renamed ρ'.rel k k')
    (hbVersions : VersionsAgree b.wrapper.purl b) (hkVersions : VersionsAgree b.wrapper.purl k)
    (h : compareProductionGraphs locale buildSbom consumerSbom = .ok c)
    (h' : compareProductionGraphs locale buildSbom' consumerSbom' = .ok c') : c.Same c' := by
  obtain ⟨b₀, k₀, hb₀, hk₀, _, build, consumer, hbuild, hconsumer, rfl⟩ := compare_describes h
  obtain rfl := hb.unique hb₀
  obtain rfl := hk.unique hk₀
  obtain ⟨b₁, k₁, hb₁, hk₁, _, build', consumer', hbuild', hconsumer', rfl⟩ := compare_describes h'
  obtain rfl := hb'.unique hb₁
  obtain rfl := hk'.unique hk₁
  rw [hbRenamed.wrapper.purl] at hbuild' hconsumer' ⊢
  -- Each side makes the graph of its document, and that is the same for the presentation.
  have hbPerm : build.Perm build' := by
    rw [perm_iff_graphOf_eq hbuild.canonical hbuild'.canonical, hbuild.graphOf_eq hbVersions,
      hbuild'.graphOf_eq (hbRenamed.versionsAgree hbVersions)]
    exact hbRenamed.graph_eq
  have hkPerm : consumer.Perm consumer' := by
    rw [perm_iff_graphOf_eq hconsumer.canonical hconsumer'.canonical, hconsumer.graphOf_eq hkVersions,
      hconsumer'.graphOf_eq (hkRenamed.versionsAgree hkVersions)]
    exact hkRenamed.graph_eq
  exact report_same hbuild.canonical hconsumer.canonical hbPerm hkPerm

theorem Determined.presentation (hdetermined : Determined locale buildSbom consumerSbom)
    (ρ ρ' : Renaming) (buildSbom' consumerSbom' : Json) (hbuild : Presents ρ.rel buildSbom buildSbom')
    (hconsumer : Presents ρ'.rel consumerSbom consumerSbom') :
    SameOutcome (compareProductionGraphs locale buildSbom consumerSbom)
      (compareProductionGraphs locale buildSbom' consumerSbom') := by
  cases h : compareProductionGraphs locale buildSbom consumerSbom with
  | ok c =>
      obtain ⟨b, k, hb, hk, hcomparable, _⟩ := compare_describes h
      obtain ⟨b', hb', hbRenamed⟩ := hbuild.exists_reads ρ.unique hb
      obtain ⟨k', hk', hkRenamed⟩ := hconsumer.exists_reads ρ'.unique hk
      obtain ⟨c', h'⟩ := (hcomparable.renamed hbRenamed hkRenamed).exists_compare hb' hk'
      obtain ⟨_, _, hbVersions, hkVersions⟩ :=
        hdetermined b k hb hk hcomparable.buildFormed hcomparable.consumerFormed
      rw [h']
      exact Comparable.same hb hk hb' hk' hbRenamed hkRenamed hbVersions hkVersions h h'
  | error failure =>
      cases h' : compareProductionGraphs locale buildSbom' consumerSbom' with
      | error failure' => trivial
      | ok c' =>
          -- What is compared is well formed, and then so is what it presents.
          obtain ⟨b', k', hb', hk', hcomparable, _⟩ := compare_describes h'
          obtain ⟨b, hb, hbRenamed⟩ := hbuild.exists_reads' ρ.unique hb'
          obtain ⟨k, hk, hkRenamed⟩ := hconsumer.exists_reads' ρ'.unique hk'
          have hbFormed := hbRenamed.symm.wellFormed hcomparable.buildFormed
          have hkFormed := hkRenamed.symm.wellFormed hcomparable.consumerFormed
          rw [hbRenamed.wrapper.purl] at hbFormed hkFormed
          obtain ⟨hbref, hkref, _⟩ := hdetermined b k hb hk hbFormed hkFormed
          obtain ⟨c, hok⟩ := Comparable.exists_compare hb hk ⟨hbref, hkref, hbFormed, hkFormed⟩
          exact absurd (hok.symm.trans h) nofun

theorem Determined.graphs (hdetermined : Determined locale buildSbom consumerSbom) {c : Comparison}
    (h : compareProductionGraphs locale buildSbom consumerSbom = .ok c) :
    ∃ b k, Reads buildSbom b ∧ Reads consumerSbom k ∧
      InstallationsAgree locale b.wrapper.purl b ∧ InstallationsAgree locale b.wrapper.purl k ∧
      (c.result = .match ↔ b.graph locale b.wrapper.purl = k.graph locale b.wrapper.purl) := by
  obtain ⟨b, k, hb, hk, hcomparable, build, consumer, hbuild, hconsumer, rfl⟩ := compare_describes h
  obtain ⟨_, _, hbVersions, hkVersions⟩ :=
    hdetermined b k hb hk hcomparable.buildFormed hcomparable.consumerFormed
  refine ⟨b, k, hb, hk, hcomparable.buildFormed.installationsAgree hbVersions,
    hcomparable.consumerFormed.installationsAgree hkVersions, ?_⟩
  rw [report_match_iff hbuild.canonical hconsumer.canonical,
    perm_iff_graphOf_eq hbuild.canonical hconsumer.canonical, hbuild.graphOf_eq hbVersions,
    hconsumer.graphOf_eq hkVersions]

/-- Every reference with one more code unit in front, so that none is empty. -/
def longer : Renaming where
  rel ref ref' := ref' = 0x78 :: ref
  unique := ⟨fun _ _ _ h₁ h₂ => List.tail_eq_of_cons_eq (h₁.symm.trans h₂), fun _ _ _ h₁ h₂ => h₁.trans h₂.symm⟩
  nonempty := by
    rintro ref _ rfl
    exact List.cons_ne_nil _ _

/-- Where both documents are well formed, they have presentations that are compared. -/
theorem exists_presentations {b k : View} (hb : Reads buildSbom b) (hk : Reads consumerSbom k)
    (hbFormed : WellFormed locale b.wrapper.purl b) (hkFormed : WellFormed locale b.wrapper.purl k) :
    ∃ buildSbom' consumerSbom' c', Presents longer.rel buildSbom buildSbom' ∧
      Presents longer.rel consumerSbom consumerSbom' ∧
      compareProductionGraphs locale buildSbom' consumerSbom' = .ok c' := by
  have hbuild := hb.presents (renamed_rename (List.cons_injective (a := 0x78)) b)
  have hconsumer := hk.presents (renamed_rename (List.cons_injective (a := 0x78)) k)
  obtain ⟨b', hb', hbRenamed⟩ := hbuild.exists_reads longer.unique hb
  obtain ⟨k', hk', hkRenamed⟩ := hconsumer.exists_reads longer.unique hk
  have hcomparable : Comparable locale b' k' :=
    { buildRef := longer.nonempty hbRenamed.wrapper.ref
      consumerRef := longer.nonempty hkRenamed.wrapper.ref
      buildFormed := hbRenamed.wrapper.purl.symm ▸ hbRenamed.wellFormed hbFormed
      consumerFormed := hbRenamed.wrapper.purl.symm ▸ hkRenamed.wellFormed hkFormed }
  obtain ⟨c', hc'⟩ := hcomparable.exists_compare hb' hk'
  exact ⟨_, _, c', hbuild, hconsumer, hc'⟩

/-- The comparison is one of package graphs exactly for documents that determine them. -/
theorem comparesGraphs_iff (locale : Locale) (build consumer : Json) :
    ComparesGraphs locale build consumer ↔ Determined locale build consumer := by
  constructor
  · intro h b k hb hk hbFormed hkFormed
    -- A presentation without empty references is compared, so the documents are.
    obtain ⟨build', consumer', c', hbuild, hconsumer, hc'⟩ := exists_presentations hb hk hbFormed hkFormed
    have hsame := h.presentation longer longer build' consumer' hbuild hconsumer
    rw [hc'] at hsame
    cases hcompare : compareProductionGraphs locale build consumer with
    | error failure =>
        rw [hcompare] at hsame
        exact absurd hsame id
    | ok c =>
        obtain ⟨b₀, k₀, hb₀, hk₀, hcomparable, _⟩ := compare_describes hcompare
        obtain rfl := hb.unique hb₀
        obtain rfl := hk.unique hk₀
        obtain ⟨b₁, k₁, hb₁, hk₁, hbAgree, hkAgree, _⟩ := h.graphs c hcompare
        obtain rfl := hb.unique hb₁
        obtain rfl := hk.unique hk₁
        exact ⟨hcomparable.buildRef, hcomparable.consumerRef,
          fun a ha a' ha' heq => (hbAgree a ha a' ha' heq).1,
          fun a ha a' ha' heq => (hkAgree a ha a' ha' heq).1⟩
  · intro h
    exact ⟨h.presentation, fun c hc => h.graphs hc⟩

/-! ## Two versions of one package -/

/-- Right for texts in lower case, and for these package URLs. -/
def labLocale : Locale where
  toLowerCase text := text
  localeCompare a b := compareOfLessAndEq a b

def labComponent (ref purl version : String) : Component where
  purl := js purl
  version := js version
  ref := js ref
  hashes := none

/-- A root that depends on two installations of a package, with different versions. -/
def repeated (first second : Component) : View where
  wrapper := labComponent "root" "pkg:npm/c@1" "1"
  components := [first, second]
  edges := [⟨js "root", [js "a"]⟩, ⟨js "a", []⟩, ⟨js "a2", []⟩]

def older : Component := labComponent "a" "pkg:npm/a" "1.0.0"

def newer : Component := labComponent "a2" "pkg:npm/a" "1.0.1"

/-- Nothing is renamed. -/
def unrenamed : Renaming where
  rel ref ref' := ref' = ref ∧ ref ≠ []
  unique := ⟨fun _ _ _ h₁ h₂ => h₁.1.symm.trans h₂.1, fun _ _ _ h₁ h₂ => h₁.1.trans h₂.1.symm⟩
  nonempty := by
    rintro ref _ ⟨rfl, h⟩
    exact h

theorem renamed_self {a : Component} (h : a.ref ≠ []) : Component.Renamed unrenamed.rel a a :=
  ⟨rfl, rfl, ⟨rfl, h⟩, Reordered.refl (R := fun hash hash' => hash' = hash) (fun _ => rfl) a.hashes⟩

theorem renamed_repeated {first second : Component} (hperm : [older, newer].Perm [first, second]) :
    View.Renamed unrenamed.rel (repeated older newer) (repeated first second) where
  unique := unrenamed.unique
  wrapper := renamed_self (by decide)
  components := ⟨[older, newer], .cons (renamed_self (by decide)) (.cons (renamed_self (by decide)) .nil), hperm⟩
  edges := by
    refine Shuffled.refl fun entry hentry => ⟨⟨rfl, ?_⟩, Shuffled.refl fun ref href => ⟨rfl, ?_⟩⟩
    · revert entry
      decide
    · revert ref
      revert entry
      decide

theorem reads_repeated : Reads (repeated older newer).toJson (repeated older newer) :=
  reads_toJson (by decide)

/-- Changing the places of the two installations turns a match into a difference. -/
theorem not_comparesGraphs_repeated :
    ¬ ComparesGraphs labLocale (repeated older newer).toJson (repeated older newer).toJson := by
  intro h
  -- The build stays as it is, and the consumer has its components in the other order.
  have hsame := h.presentation unrenamed unrenamed _ _
    (reads_repeated.presents (renamed_repeated (List.Perm.refl _)))
    (reads_repeated.presents (renamed_repeated (List.Perm.swap newer older [])))
  have hmatch : (compareProductionGraphs labLocale (repeated older newer).toJson
      (repeated older newer).toJson).toOption.map Comparison.result = some .match := by decide +kernel
  have hdifferent : (compareProductionGraphs labLocale (repeated older newer).toJson
      (repeated newer older).toJson).toOption.map Comparison.result = some .different := by decide +kernel
  cases hleft : compareProductionGraphs labLocale (repeated older newer).toJson
      (repeated older newer).toJson with
  | error failure =>
      rw [hleft] at hmatch
      exact absurd hmatch nofun
  | ok c =>
      cases hright : compareProductionGraphs labLocale (repeated older newer).toJson
          (repeated newer older).toJson with
      | error failure =>
          rw [hright] at hdifferent
          exact absurd hdifferent nofun
      | ok c' =>
          rw [hleft] at hmatch hsame
          rw [hright] at hdifferent hsame
          have hresult := hsame.result
          rw [Option.some.inj hmatch, Option.some.inj hdifferent] at hresult
          exact absurd hresult nofun

end Sbom

end SecureMcp
