import Depsolve.Proofs.Manifest.File

/-!
# Manifests are read again

What a declaration is read as is a normal form: hashes and plain tags have no white space around
them, the empty source is none, and a text that reads as a range is kept as one. Terms that were
read are therefore persistent (`Declaration.persistent_of_terms`), and a manifest that was read from
a text, however it was spelled there, is read again from the text that is written for it
(`Manifest.ofText_toText_of_ofText`).
-/

namespace Depsolve

namespace Declaration

variable {d : Declaration} {field : String} {t : Terms} {c : Constraint}

/-- A version is kept as a range, or as a tag that is trimmed and is no range. -/
theorem persistent_ofVersionText {source : Option String} (hsource : source ≠ some "")
    (version : String) : Terms.Persistent ⟨source, .ofVersionText version⟩ := by
  unfold Constraint.ofVersionText
  cases hread : Range.read version with
  | ok range =>
    refine ⟨hsource, fun _ => Constraint.noConfusion, fun _ => Constraint.noConfusion, ?_⟩
    rintro _ ⟨⟩
    exact Range.read_toText (Range.proper_of_read hread)
  | error e =>
    refine ⟨hsource, fun _ => Constraint.noConfusion, ?_, fun _ => Constraint.noConfusion⟩
    rintro _ ⟨⟩
    refine ⟨Text.trimmed_trimmed version, fun range hrange => ?_⟩
    rw [Range.read_trimmed, hread] at hrange
    exact nomatch hrange

theorem persistent_of_constraint (h : d.constraint field = .ok c) {source : Option String}
    (hsource : source ≠ some "") : Terms.Persistent ⟨source, c⟩ := by
  unfold constraint at h
  split at h
  · obtain rfl := Except.ok.inj h
    exact ⟨hsource, fun _ => Constraint.noConfusion, fun _ => Constraint.noConfusion,
      fun _ => Constraint.noConfusion⟩
  · obtain rfl := Except.ok.inj h
    exact persistent_ofVersionText hsource _
  · obtain rfl := Except.ok.inj h
    exact ⟨hsource, fun _ => Constraint.noConfusion, fun _ => Constraint.noConfusion,
      fun _ => Constraint.noConfusion⟩
  · rename_i revision _ _ _
    split at h
    · exact nomatch h
    · rename_i hblank
      obtain rfl := Except.ok.inj h
      refine ⟨hsource, ?_, fun _ => Constraint.noConfusion, fun _ => Constraint.noConfusion⟩
      rintro _ ⟨⟩
      exact ⟨(Text.isBlankText_trimmed_eq revision).trans (Bool.eq_false_iff.2 hblank),
        Text.trimmed_trimmed revision⟩
  · exact nomatch h

/-- Terms that were read are read again. -/
theorem persistent_of_terms (h : d.terms field = .ok t) : t.Persistent := by
  obtain ⟨c, hc, ht⟩ := bind_eq_ok_iff.1 h
  obtain rfl := Except.ok.inj ht
  exact persistent_of_constraint hc (source?_ne_empty d.source)

end Declaration

namespace Manifest

variable {m : Manifest} {file : ManifestFile}

theorem persistent_of_checkedTerms {table : String} {declarations : SortedMap String Declaration}
    {terms : SortedMap String Terms} (h : checkedTerms table declarations = .ok terms)
    {root : String} {t : Terms} (ht : terms.get? root = some t) :
    ImportPath.isValid root = true ∧ t.Persistent := by
  obtain ⟨entries, hentries, hterms⟩ := bind_eq_ok_iff.1 h
  obtain rfl := Except.ok.inj hterms
  have hmem := SortedMap.mem_of_mem_ofList (SortedMap.get?_eq_some_iff.1 ht)
  obtain ⟨⟨_, d⟩, -, hread⟩ := exists_of_mem_mapM hentries hmem
  obtain ⟨⟨⟩, hroot, hread⟩ := bind_eq_ok_iff.1 hread
  obtain ⟨t', hd, heq⟩ := bind_eq_ok_iff.1 hread
  obtain ⟨rfl, rfl⟩ := Prod.mk.inj (Except.ok.inj heq)
  exact ⟨checkRoot_ok_iff.1 hroot, Declaration.persistent_of_terms hd⟩

/-- A manifest that was read from a file is read back from its own. -/
theorem ofFile_toFile_of_ofFile (h : ofFile file = .ok m) : ofFile m.toFile = .ok m := by
  obtain ⟨⟨⟩, hrules, h⟩ := bind_eq_ok_iff.1 h
  obtain ⟨constraints, hconstraints, h⟩ := bind_eq_ok_iff.1 h
  obtain ⟨overrides, hoverrides, h⟩ := bind_eq_ok_iff.1 h
  obtain rfl := Except.ok.inj h
  exact ofFile_toFile_iff.2
    ⟨fun rule hrule => forM_eq_ok_iff.1 hrules rule (SortedSet.mem_ofList.1 hrule),
    fun _ _ ht => persistent_of_checkedTerms hconstraints ht,
    fun _ _ ht => persistent_of_checkedTerms hoverrides ht⟩

theorem exists_ofFile_of_ofText {text : String} (h : ofText text = .ok m) :
    ∃ file, ofFile file = .ok m := by
  unfold ofText at h
  split at h
  · exact nomatch h
  · split at h
    · exact nomatch h
    · exact ⟨_, h⟩

/-- A manifest that was read from a text is read from the text that is written for it: with the same
constraints, of the same kinds, the same sources, overrides and ignore rules. It is taken for
granted that the document that is written is read back. -/
theorem ofText_toText_of_ofText {text : String} (h : ofText text = .ok m)
    (hreads : Toml.ReadsBack m.toFile.document) : ofText m.toText = .ok m := by
  obtain ⟨file, hfile⟩ := exists_ofFile_of_ofText h
  exact (ofText_toText hreads).trans (ofFile_toFile_of_ofFile hfile)

/-- A manifest file with white space and an empty source, neither of which is written. -/
def spelled : String :=
  "ignored=['c/gen/*']\n" ++
  "[constraints.'c/lib']\nversion=' v1.x|| 3 - 4 '\nsource=''\n" ++
  "[constraints.'c/tool']\nversion=' next '\n" ++
  "[overrides.'c/lib']\nrevision=' b1 '\n"

theorem ofText_toText_of_spelled : ∃ m, ofText spelled = .ok m ∧ Toml.ReadsBack m.toFile.document ∧
    m.constraints.entries.map (fun e => (e.1, e.2.constraint.toText)) =
      [("c/lib", "1.* || >=3.0.0, <=4.0.0"), ("c/tool", "next")] ∧
    ofText m.toText = .ok m := by
  have hread : ((ofText spelled).toOption.map fun m => (decide (Toml.ReadsBack m.toFile.document),
      m.constraints.entries.map fun e => (e.1, e.2.constraint.toText))) =
      some (true, [("c/lib", "1.* || >=3.0.0, <=4.0.0"), ("c/tool", "next")]) := by
    decide +kernel
  obtain ⟨m, hm, heq⟩ := exists_of_map_toOption hread
  obtain ⟨hback, hconstraints⟩ := Prod.mk.inj heq
  have hreads := of_decide_eq_true hback
  exact ⟨m, hm, hreads, hconstraints, ofText_toText_of_ofText hm hreads⟩

end Manifest

end Depsolve
