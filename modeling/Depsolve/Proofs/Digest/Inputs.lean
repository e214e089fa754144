import Depsolve.Digest.Signature
import Depsolve.Proofs.Manifest.Reread
import Depsolve.Proofs.Solve.Soundness

/-!
# What the inputs digest tells apart

The texts that are hashed for a manifest and for the imports of its project are one list, with a
marker before each section. The terms of a project have four texts, so a table of terms is read off
the list up to the marker of the next section (`eq_of_termsFields`). That marker is an ordinary
text, which a further root may be as well: the list tells the tables apart just if a root of this
name is in both tables or in neither (`Problem.eq_iff_of_inputFields_eq`). No import is taken for
the last marker, since it is the name of a standard package.
-/

namespace Depsolve

variable {marker : String} {rest rest' : List String}

/-! ## Terms -/

/-- Constraints of one kind with the same text are the same, if the ranges among them are read
back. -/
theorem Constraint.eq_of_toText {c c' : Constraint}
    (hread : ∀ range, c = .semver range → Range.read range.toText = .ok range)
    (hread' : ∀ range, c' = .semver range → Range.read range.toText = .ok range)
    (hlabel : c.label = c'.label) (htext : c.toText = c'.toText) : c = c' := by
  cases c <;> cases c' <;> simp only [label, String.reduceEq] at hlabel
  case any.any => rfl
  case revision.revision r r' =>
    obtain ⟨text⟩ := r
    obtain ⟨text'⟩ := r'
    rw [show text = text' from htext]
  case branch.branch name name' => rw [show name = name' from htext]
  case plain.plain tag tag' => rw [show tag = tag' from htext]
  case semver.semver range range' =>
    have hranges := hread range rfl
    rw [show range.toText = range'.toText from htext, hread' range' rfl] at hranges
    rw [Except.ok.inj hranges]

/-- Persistent terms are told by their texts. -/
theorem Terms.eq_of_fields {root root' : String} {t t' : Terms} (ht : t.Persistent)
    (ht' : t'.Persistent) (h : t.fields root = t'.fields root') : root = root' ∧ t = t' := by
  simp only [fields, List.cons.injEq, and_true] at h
  obtain ⟨hroot, hsource, hlabel, htext⟩ := h
  obtain ⟨source, constraint⟩ := t
  obtain ⟨source', constraint'⟩ := t'
  obtain rfl : constraint = constraint' := Constraint.eq_of_toText ht.semver ht'.semver hlabel htext
  have hsources : source = source' := by
    have hne := ht.source
    have hne' := ht'.source
    cases source <;> cases source' <;> simp_all
  exact ⟨hroot, by rw [hsources]⟩

/-! ## Sections -/

/-- The texts that stand for the entries of a table. -/
def termsFields (entries : List (String × Terms)) : List String :=
  entries.flatMap fun (root, t) => t.fields root

/-- A table is read off a list up to a marker that is a root in both tables that come into
question, or in none. -/
theorem eq_of_termsFields {l l' : List (String × Terms)} (hl : (l.map (·.1)).Nodup)
    (hl' : (l'.map (·.1)).Nodup) (hterms : ∀ e ∈ l, e.2.Persistent)
    (hterms' : ∀ e ∈ l', e.2.Persistent) (hmarker : marker ∈ l.map (·.1) ↔ marker ∈ l'.map (·.1))
    (h : termsFields l ++ marker :: rest = termsFields l' ++ marker :: rest') :
    l = l' ∧ rest = rest' := by
  induction l generalizing l' with
  | nil =>
    cases l' with
    | nil => exact ⟨rfl, (List.cons.inj h).2⟩
    | cons e' l' =>
      obtain rfl : marker = e'.1 := (List.cons.inj h).1
      exact absurd (hmarker.2 List.mem_cons_self) List.not_mem_nil
  | cons e l ih =>
    cases l' with
    | nil =>
      obtain rfl : e.1 = marker := (List.cons.inj h).1
      exact absurd (hmarker.1 List.mem_cons_self) List.not_mem_nil
    | cons e' l' =>
      obtain ⟨root, t⟩ := e
      obtain ⟨root', t'⟩ := e'
      rw [List.map_cons, List.nodup_cons] at hl hl'
      rw [List.map_cons, List.map_cons, List.mem_cons, List.mem_cons] at hmarker
      rw [List.forall_mem_cons] at hterms hterms'
      rw [termsFields, termsFields, List.flatMap_cons, List.flatMap_cons, List.append_assoc,
        List.append_assoc] at h
      obtain ⟨hfields, hleft⟩ := List.append_inj h rfl
      obtain ⟨rfl, rfl⟩ := Terms.eq_of_fields hterms.1 hterms'.1 hfields
      have htail : marker ∈ l.map (·.1) ↔ marker ∈ l'.map (·.1) := by
        by_cases hroot : marker = root
        · subst hroot
          exact ⟨fun hmem => absurd hmem hl.1, fun hmem => absurd hmem hl'.1⟩
        · simpa [hroot] using hmarker
      obtain ⟨rfl, hrest⟩ := ih hl.2 hl'.2 hterms.2 hterms'.2 htail hleft
      exact ⟨rfl, hrest⟩

/-- A list is cut at the last of its markers in one way. -/
theorem append_cons_inj_of_last {front front' : List String} (hrest : marker ∉ rest)
    (hrest' : marker ∉ rest') (h : front ++ marker :: rest = front' ++ marker :: rest') :
    front = front' ∧ rest = rest' := by
  rcases List.append_eq_append_iff.1 h with ⟨more, rfl, hmore⟩ | ⟨more, rfl, hmore⟩
  · cases more with
    | nil => exact ⟨(List.append_nil _).symm, (List.cons.inj hmore).2⟩
    | cons _ more =>
      obtain ⟨-, rfl⟩ := List.cons.inj hmore
      exact absurd (List.mem_append_right _ List.mem_cons_self) hrest
  · cases more with
    | nil => exact ⟨List.append_nil _, (List.cons.inj hmore).2.symm⟩
    | cons _ more =>
      obtain ⟨-, rfl⟩ := List.cons.inj hmore
      exact absurd (List.mem_append_right _ List.mem_cons_self) hrest'

theorem inputFields_eq (m : Manifest) (imports : SortedSet String) : inputFields m imports =
    "constraints" :: (termsFields m.constraints.entries ++ "overrides" ::
      (termsFields m.overrides.entries ++ "ignored" ::
        (m.ignored.toList ++ "imports" :: imports.toList))) := by
  simp [inputFields, termsFields]

/-! ## Manifests -/

theorem Manifest.eq_of_entries_eq {m m' : Manifest}
    (hconstraints : m.constraints.entries = m'.constraints.entries)
    (hoverrides : m.overrides.entries = m'.overrides.entries)
    (hignored : m.ignored.toList = m'.ignored.toList) : m = m' := by
  obtain ⟨constraints, overrides, ignored⟩ := m
  obtain ⟨constraints', overrides', ignored'⟩ := m'
  obtain rfl : constraints = constraints' := SortedMap.eq_of_entries_eq hconstraints
  obtain rfl : overrides = overrides' := SortedMap.eq_of_entries_eq hoverrides
  obtain rfl : ignored = ignored' := SortedSet.eq_of_toList_eq hignored
  rfl

theorem Manifest.persistent_of_ofText {m : Manifest} {text : String} (h : ofText text = .ok m) :
    (∀ e ∈ m.constraints.entries, e.2.Persistent) ∧ ∀ e ∈ m.overrides.entries, e.2.Persistent := by
  obtain ⟨file, hfile⟩ := exists_ofFile_of_ofText h
  obtain ⟨-, hconstraints, hoverrides⟩ := ofFile_toFile_iff.1 (ofFile_toFile_of_ofFile hfile)
  exact ⟨fun e he => (hconstraints e.1 e.2 (SortedMap.get?_eq_some_iff.2 he)).2,
    fun e he => (hoverrides e.1 e.2 (SortedMap.get?_eq_some_iff.2 he)).2⟩

namespace Problem

variable {p p' : Problem} {text text' : String}

theorem not_mem_imports_of_isStandard (p : Problem) {path : String}
    (h : ImportPath.isStandard path = true) : path ∉ p.imports.toList := by
  intro hmem
  obtain ⟨-, -, -, -, -, hskips⟩ := mem_imports.1 hmem
  simp [skips, h] at hskips

/-- Problems with manifests that were read and with the same texts have the same manifest
and the same imports just if each marker that follows a table is a root in the tables of
both or of neither. -/
theorem eq_iff_of_inputFields_eq (hm : Manifest.ofText text = .ok p.manifest)
    (hm' : Manifest.ofText text' = .ok p'.manifest)
    (h : inputFields p.manifest p.imports = inputFields p'.manifest p'.imports) :
    (p.manifest = p'.manifest ∧ p.imports = p'.imports) ↔
      ("overrides" ∈ p.manifest.constraints.keys ↔ "overrides" ∈ p'.manifest.constraints.keys) ∧
      ("ignored" ∈ p.manifest.overrides.keys ↔ "ignored" ∈ p'.manifest.overrides.keys) := by
  constructor
  · rintro ⟨hmanifest, -⟩
    rw [hmanifest]
    exact ⟨Iff.rfl, Iff.rfl⟩
  · rintro ⟨hconstraintsKey, hoverridesKey⟩
    obtain ⟨hconstraints, hoverrides⟩ := Manifest.persistent_of_ofText hm
    obtain ⟨hconstraints', hoverrides'⟩ := Manifest.persistent_of_ofText hm'
    rw [inputFields_eq, inputFields_eq] at h
    obtain ⟨hconstraintsEq, hleft⟩ := eq_of_termsFields p.manifest.constraints.keySet.nodup_toList
      p'.manifest.constraints.keySet.nodup_toList hconstraints hconstraints' hconstraintsKey
      (List.cons.inj h).2
    obtain ⟨hoverridesEq, hleft⟩ := eq_of_termsFields p.manifest.overrides.keySet.nodup_toList
      p'.manifest.overrides.keySet.nodup_toList hoverrides hoverrides' hoverridesKey hleft
    -- "imports" has no dot, so it is not itself among the imports
    obtain ⟨hignored, himports⟩ :=
      append_cons_inj_of_last (p.not_mem_imports_of_isStandard (by decide))
      (p'.not_mem_imports_of_isStandard (by decide)) hleft
    exact ⟨Manifest.eq_of_entries_eq hconstraintsEq hoverridesEq hignored,
      SortedSet.eq_of_toList_eq himports⟩

/-- The problem of an application with some imports. -/
def ofApplication (imports : List String) (m : Manifest) : Problem :=
  (new "example.com/app" m).withImports (.ofList imports)

/-- A manifest file with a root named as each of the markers. -/
def markersText : String :=
  "ignored=['c/b','c/a']\n[constraints.overrides]\nversion=' ^1.0.0'\nsource=''\n" ++
  "[overrides.ignored]\nbranch='main'\n"

/-- The same manifest with its tables in the other order, a rule repeated, and without white
space. -/
def markersText' : String :=
  "ignored=['c/a','c/b','c/a']\n[overrides.ignored]\nbranch='main'\n" ++
  "[constraints.overrides]\nversion='^1.0.0'\n"

theorem eq_iff_of_markersText : ∃ m m',
    Manifest.ofText markersText = .ok m ∧ Manifest.ofText markersText' = .ok m' ∧
    inputFields m (ofApplication ["fmt", "example.com/tool"] m).imports =
      inputFields m' (ofApplication ["example.com/tool", "example.com/app/sub"] m').imports ∧
    m = m' ∧ (ofApplication ["fmt", "example.com/tool"] m).imports =
      (ofApplication ["example.com/tool", "example.com/app/sub"] m').imports := by
  have hread : (Manifest.ofText markersText).toOption.map
      (fun m => (m.constraints.keys, m.overrides.keys,
      inputFields m (ofApplication ["fmt", "example.com/tool"] m).imports)) =
      some (["overrides"], ["ignored"], ["constraints", "overrides", "", "semver", "^1.0.0",
        "overrides", "ignored", "", "branch", "main", "ignored", "c/a", "c/b", "imports",
        "example.com/tool"]) := by
    decide +kernel
  have hread' : (Manifest.ofText markersText').toOption.map
      (fun m => (m.constraints.keys, m.overrides.keys,
      inputFields m (ofApplication ["example.com/tool", "example.com/app/sub"] m).imports)) =
      some (["overrides"], ["ignored"], ["constraints", "overrides", "", "semver", "^1.0.0",
        "overrides", "ignored", "", "branch", "main", "ignored", "c/a", "c/b", "imports",
        "example.com/tool"]) := by
    decide +kernel
  obtain ⟨m, hm, hparts⟩ := exists_of_map_toOption hread
  obtain ⟨m', hm', hparts'⟩ := exists_of_map_toOption hread'
  simp only [Prod.mk.injEq] at hparts hparts'
  obtain ⟨hconstraints, hoverrides, hfields⟩ := hparts
  obtain ⟨hconstraints', hoverrides', hfields'⟩ := hparts'
  have hp : Manifest.ofText markersText =
      .ok (ofApplication ["fmt", "example.com/tool"] m).manifest := hm
  have hp' : Manifest.ofText markersText' =
      .ok (ofApplication ["example.com/tool", "example.com/app/sub"] m').manifest := hm'
  have hsame := eq_iff_of_inputFields_eq hp hp' (hfields.trans hfields'.symm)
  have hkeys : ("overrides" ∈ m.constraints.keys ↔ "overrides" ∈ m'.constraints.keys) ∧
      ("ignored" ∈ m.overrides.keys ↔ "ignored" ∈ m'.overrides.keys) := by
    rw [hconstraints, hconstraints', hoverrides, hoverrides']
    exact ⟨Iff.rfl, Iff.rfl⟩
  exact ⟨m, m', hm, hm', hfields.trans hfields'.symm, hsame.2 hkeys⟩

/-- A constraint on a project that is named as the marker of the overrides is taken for that
marker. -/
theorem inputFields_of_marker : ∃ m m',
    Manifest.ofText "[constraints.overrides]\nsource='a'\nbranch='branch'\n" = .ok m ∧
    Manifest.ofText "[overrides.a]\nsource='branch'\nbranch='overrides'\n" = .ok m' ∧
    inputFields m (ofApplication ["fmt", "example.com/tool"] m).imports =
      inputFields m' (ofApplication ["fmt", "example.com/tool"] m').imports ∧
    m.constraints ≠ m'.constraints ∧ m.overrides ≠ m'.overrides := by
  have hread :
      (Manifest.ofText "[constraints.overrides]\nsource='a'\nbranch='branch'\n").toOption.map
      (fun m => (m.constraints.keys, m.overrides.keys,
        inputFields m (ofApplication ["fmt", "example.com/tool"] m).imports)) =
      some (["overrides"], [], ["constraints", "overrides", "a", "branch", "branch",
        "overrides", "ignored", "imports", "example.com/tool"]) := by
    decide +kernel
  have hread' :
      (Manifest.ofText "[overrides.a]\nsource='branch'\nbranch='overrides'\n").toOption.map
      (fun m => (m.constraints.keys, m.overrides.keys,
        inputFields m (ofApplication ["fmt", "example.com/tool"] m).imports)) =
      some ([], ["a"], ["constraints", "overrides", "a", "branch", "branch", "overrides", "ignored",
        "imports", "example.com/tool"]) := by
    decide +kernel
  obtain ⟨m, hm, hparts⟩ := exists_of_map_toOption hread
  obtain ⟨m', hm', hparts'⟩ := exists_of_map_toOption hread'
  simp only [Prod.mk.injEq] at hparts hparts'
  obtain ⟨hconstraints, hoverrides, hfields⟩ := hparts
  obtain ⟨hconstraints', hoverrides', hfields'⟩ := hparts'
  refine ⟨m, m', hm, hm', hfields.trans hfields'.symm, fun heq => ?_, fun heq => ?_⟩
  · rw [heq, hconstraints'] at hconstraints
    exact nomatch hconstraints
  · rw [heq, hoverrides'] at hoverrides
    exact nomatch hoverrides

end Problem

end Depsolve
