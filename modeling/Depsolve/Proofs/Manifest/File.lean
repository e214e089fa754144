import Depsolve.Manifest.File
import Depsolve.Proofs.Constraint.Range
import Depsolve.Proofs.Toml.Shape

/-!
# Manifests on disk

The file of a manifest has only the texts of constraints, which are classified again on reading.
Whether a manifest is read back as it was is therefore decided terms by terms
(`Manifest.ofFile_toFile_iff`): a plain tag must not read as a range and must have no white space
around it (`Terms.Persistent`).
-/

namespace Depsolve

/-! ## The shape of the document -/

namespace ManifestFile

theorem declaration?_entries (d : Declaration) :
    declaration? (.table (declarationEntries d)) = some d := by
  have hentries : declarationEntries d = Toml.present
      [("version", d.version.map .string), ("branch", d.branch.map .string),
        ("revision", d.revision.map .string), ("source", d.source.map .string)] := by
    obtain ⟨_ | _, _ | _, _ | _, _ | _⟩ := d <;> rfl
  unfold declaration?
  rw [Toml.record?_eq ["version", "branch", "revision", "source"] hentries rfl (by decide)]
  simp [Toml.optional?_text?]

/-- A table of declarations; none for an empty one. -/
def tableValue? (table : SortedMap String Declaration) : Option Toml.Value :=
  if table.isEmpty then none
  else some (.table (table.entries.map fun (root, d) => (root, .table (declarationEntries d))))

theorem default?_tableValue? (table : SortedMap String Declaration) :
    Toml.default? declarations? .empty (tableValue? table) = some table := by
  unfold tableValue?
  split
  · rename_i hempty
    exact congrArg some (SortedMap.eq_of_entries_eq (List.isEmpty_iff.1 hempty).symm)
  · have hread :=
      Toml.table?_table (f := declaration?) (g := fun d => .table (declarationEntries d))
      (l := table.entries) fun e _ => declaration?_entries e.2
    unfold Toml.default? declarations?
    dsimp only
    rw [hread, Option.map_some, SortedMap.ofList_entries]

/-- The list of ignore rules; none for an empty one. -/
def rulesValue? (rules : List String) : Option Toml.Value :=
  if rules.isEmpty then none else some (.array (rules.map .string))

theorem default?_rulesValue? (rules : List String) :
    Toml.default? (Toml.list? Toml.text?) [] (rulesValue? rules) = some rules := by
  unfold rulesValue?
  split
  · rename_i hempty
    exact congrArg some (List.isEmpty_iff.1 hempty).symm
  · exact Toml.list?_array fun _ _ => rfl

/-- The document of a file has the shape of the file. -/
theorem ofDocument?_document (file : ManifestFile) : ofDocument? file.document = some file := by
  obtain ⟨ignored, constraints, overrides⟩ := file
  have hentries : document ⟨ignored, constraints, overrides⟩ =
      Toml.present [("ignored", rulesValue? ignored),
      ("constraints", tableValue? constraints), ("overrides", tableValue? overrides)] := by
    unfold document tableEntries rulesValue? tableValue?
    dsimp only
    split <;> split <;> split <;> rfl
  unfold ofDocument?
  rw [Toml.record?_eq ["ignored", "constraints", "overrides"] hentries rfl (by decide)]
  simp [default?_rulesValue?, default?_tableValue?]

end ManifestFile

/-! ## Terms -/

/-- Terms that are read back from their declaration as they were. -/
structure Terms.Persistent (t : Terms) : Prop where
  /-- The empty source stands for none. -/
  source : t.source ≠ some ""
  /-- A hash is read without white space around it, and is not blank. -/
  revision : ∀ r, t.constraint = .revision r → Text.isBlankText r.text = false ∧
    Text.trimmed r.text = r.text
  /-- A tag is read without white space around it, and as a range if it reads as one. -/
  plain : ∀ tag, t.constraint = .plain tag → Text.trimmed tag = tag ∧
    ∀ range, Range.read tag ≠ .ok range
  semver : ∀ range, t.constraint = .semver range → Range.read range.toText = .ok range

theorem Constraint.ofVersionText_eq_plain_iff {tag : String} :
    ofVersionText tag = .plain tag ↔
    Text.trimmed tag = tag ∧ ∀ range, Range.read tag ≠ .ok range := by
  unfold ofVersionText
  cases Range.read tag <;> simp

theorem Constraint.ofVersionText_toText_iff {range : Range} :
    ofVersionText range.toText = .semver range ↔ Range.read range.toText = .ok range := by
  unfold ofVersionText
  cases Range.read range.toText <;> simp

theorem source?_eq_iff {source : Option String} : source? source = source ↔ source ≠ some "" := by
  cases source with
  | none => simp [source?]
  | some s => by_cases h : s = "" <;> simp [source?, h, Option.filter]

theorem source?_ne_empty (source : Option String) : source? source ≠ some "" := by
  intro h
  exact of_decide_eq_true (Option.filter_eq_some_iff.1 h).2 rfl

theorem Terms.constraint_declaration_iff {t : Terms} {field : String} :
    t.declaration.constraint field = .ok t.constraint ↔
      (∀ r, t.constraint = .revision r → Text.isBlankText r.text = false ∧
        Text.trimmed r.text = r.text) ∧
      (∀ tag, t.constraint = .plain tag → Text.trimmed tag = tag ∧
        ∀ range, Range.read tag ≠ .ok range) ∧
      ∀ range, t.constraint = .semver range → Range.read range.toText = .ok range := by
  obtain ⟨source, constraint⟩ := t
  cases constraint with
  | any => simp [declaration, Declaration.constraint]
  | revision r =>
    obtain ⟨text⟩ := r
    by_cases hblank : Text.isBlankText text = true <;>
      simp [declaration, Declaration.constraint, hblank]
  | branch name => simp [declaration, Declaration.constraint]
  | plain tag => simp [declaration, Declaration.constraint, ← Constraint.ofVersionText_eq_plain_iff]
  | semver range =>
    simp [declaration, Declaration.constraint, ← Constraint.ofVersionText_toText_iff]

theorem Terms.source_declaration (t : Terms) : t.declaration.source = t.source := by
  obtain ⟨source, constraint⟩ := t
  cases constraint <;> rfl

theorem Terms.terms_declaration_iff {t : Terms} {field : String} :
    t.declaration.terms field = .ok t ↔ t.Persistent := by
  have hterms : t.declaration.terms field = .ok t ↔
      source? t.source = t.source ∧ t.declaration.constraint field = .ok t.constraint := by
    unfold Declaration.terms
    rw [bind_eq_ok_iff, t.source_declaration]
    constructor
    · rintro ⟨c, hc, h⟩
      have heq := Except.ok.inj h
      rw [← congrArg Terms.constraint heq]
      exact ⟨congrArg Terms.source heq, hc⟩
    · rintro ⟨hsource, hc⟩
      exact ⟨t.constraint, hc, by rw [hsource]; rfl⟩
  rw [hterms, source?_eq_iff, t.constraint_declaration_iff]
  exact ⟨fun ⟨h, hr, hp, hs⟩ => ⟨h, hr, hp, hs⟩, fun ⟨h, hr, hp, hs⟩ => ⟨h, hr, hp, hs⟩⟩

/-! ## Manifests -/

namespace Manifest

theorem checkRoot_ok_iff {table root : String} :
    checkRoot table root = .ok () ↔ ImportPath.isValid root = true := by
  unfold checkRoot
  split <;> simp_all

theorem map_fst_of_forall₂ {α β : Type} {l : List (String × α)} {l' : List (String × β)}
    (h : List.Forall₂ (fun e e' => e'.1 = e.1) l l') : l'.map (·.1) = l.map (·.1) := by
  induction h with
  | nil => rfl
  | cons h _ ih => rw [List.map_cons, List.map_cons, h, ih]

/-- A table of terms is read back as it was just if all its roots are valid and all its
terms persistent. -/
theorem checkedTerms_mapValues_iff {table : String} {m : SortedMap String Terms} :
    checkedTerms table (m.mapValues Terms.declaration) = .ok m ↔
      ∀ root t, m.get? root = some t → ImportPath.isValid root = true ∧ t.Persistent := by
  have hentry : ∀ {e e' : String × Terms}, (do
        checkRoot table e.1
        return (e.1, ← e.2.declaration.terms e.1)) = (.ok e' : Except Fault _) ↔
      ImportPath.isValid e.1 = true ∧ e'.1 = e.1 ∧ e.2.declaration.terms e.1 = .ok e'.2 := by
    rintro ⟨root, t⟩ ⟨root', t'⟩
    rw [bind_eq_ok_iff]
    constructor
    · rintro ⟨⟨⟩, hroot, h⟩
      obtain ⟨t', ht, h⟩ := bind_eq_ok_iff.1 h
      obtain ⟨rfl, rfl⟩ := Prod.mk.inj (Except.ok.inj h)
      exact ⟨checkRoot_ok_iff.1 hroot, rfl, ht⟩
    · rintro ⟨hroot, rfl, ht⟩
      exact ⟨(), checkRoot_ok_iff.2 hroot, bind_eq_ok_iff.2 ⟨t', ht, rfl⟩⟩
  have hread : checkedTerms table (m.mapValues Terms.declaration) = .ok m ↔ ∃ entries,
      List.Forall₂ (fun e e' : String × Terms => ImportPath.isValid e.1 = true ∧ e'.1 = e.1 ∧
        e.2.declaration.terms e.1 = .ok e'.2) m.entries entries ∧ SortedMap.ofList entries = m := by
    unfold checkedTerms
    rw [bind_eq_ok_iff]
    refine exists_congr fun entries => and_congr ?_ ⟨Except.ok.inj, congrArg Except.ok⟩
    rw [mapM_eq_ok_iff, SortedMap.mapValues, List.forall₂_map_left_iff]
    exact ⟨fun h => h.imp fun _ _ => hentry.1, fun h => h.imp fun _ _ => hentry.2⟩
  rw [hread]
  constructor
  · rintro ⟨entries, hall, hm⟩ root t ht
    -- the entries that were read have the same roots, so they are those of the table
    have hkeys : entries.map (·.1) = m.entries.map (·.1) :=
      map_fst_of_forall₂ (hall.imp fun _ _ h => h.2.1)
    have hascending : entries.Pairwise (·.1 < ·.1) := by
      have hkeysAscending : (m.entries.map (·.1)).Pairwise (· < ·) :=
        List.pairwise_map.2 m.ascending
      rw [← hkeys] at hkeysAscending
      exact List.pairwise_map.1 hkeysAscending
    rw [SortedMap.ofList_of_ascending hascending] at hm
    have hentries : entries = m.entries := congrArg SortedMap.entries hm
    rw [hentries, List.forall₂_same] at hall
    obtain ⟨hroot, -, hterms⟩ := hall (root, t) (SortedMap.get?_eq_some_iff.1 ht)
    exact ⟨hroot, Terms.terms_declaration_iff.1 hterms⟩
  · intro h
    refine ⟨m.entries, List.forall₂_same.2 fun e he => ?_, m.ofList_entries⟩
    obtain ⟨hroot, hpersistent⟩ := h e.1 e.2 (SortedMap.get?_eq_some_iff.2 he)
    exact ⟨hroot, rfl, Terms.terms_declaration_iff.2 hpersistent⟩

/-- A manifest is read back from its file as it was just if its rules and roots are valid and all
its terms persistent. -/
theorem ofFile_toFile_iff {m : Manifest} :
    ofFile m.toFile = .ok m ↔ (∀ rule ∈ m.ignored, checkIgnored rule = .ok ()) ∧
      (∀ root t, m.constraints.get? root = some t → ImportPath.isValid root = true ∧ t.Persistent) ∧
      ∀ root t, m.overrides.get? root = some t → ImportPath.isValid root = true ∧ t.Persistent := by
  rw [← checkedTerms_mapValues_iff, ← checkedTerms_mapValues_iff]
  unfold ofFile
  rw [bind_eq_ok_iff]
  constructor
  · rintro ⟨⟨⟩, hrules, h⟩
    obtain ⟨constraints, hconstraints, h⟩ := bind_eq_ok_iff.1 h
    obtain ⟨overrides, hoverrides, h⟩ := bind_eq_ok_iff.1 h
    have heq := Except.ok.inj h
    obtain rfl : constraints = m.constraints := congrArg Manifest.constraints heq
    obtain rfl : overrides = m.overrides := congrArg Manifest.overrides heq
    exact ⟨forM_eq_ok_iff.1 hrules, hconstraints, hoverrides⟩
  · rintro ⟨hrules, hconstraints, hoverrides⟩
    refine ⟨(), forM_eq_ok_iff.2 hrules, bind_eq_ok_iff.2 ⟨_, hconstraints, bind_eq_ok_iff.2
      ⟨_, hoverrides, ?_⟩⟩⟩
    exact congrArg (fun ignored => Except.ok { m with ignored }) m.ignored.ofList_toList

/-- The text of a manifest is read as its file, if the document of the file is read back. -/
theorem ofText_toText {m : Manifest} (h : Toml.ReadsBack m.toFile.document) :
    ofText m.toText = ofFile m.toFile := by
  have hread : Toml.read m.toText = some m.toFile.document := h
  unfold ofText
  rw [hread]
  dsimp only
  rw [ManifestFile.ofDocument?_document]

end Manifest

end Depsolve
