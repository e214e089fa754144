import Depsolve.Proofs.Lock.File

/-!
# Locks are read again

What an entry of a lock file is read as is a normal form: its hash has no white space around it, the
empty source is none, and a branch is not marked as the default one
(`LockEntry.persistent_of_locked`). A lock that was read from a text is therefore read again, as it
was, from the text that is written for it, and that text does not depend on the order of its entries
(`Lock.toText_of_ofText`).
-/

namespace Depsolve

theorem Version.canonical_eq_self {v : Version} (h : ∀ n, v.named? = some n → n.canonical = n) :
    v.canonical = v := by
  cases v with
  | revision r => rfl
  | named n => exact congrArg Version.named (h n rfl)
  | bound b =>
    obtain ⟨n, r⟩ := b
    exact congrArg (fun n => Version.bound ⟨n, r⟩) (h n rfl)

/-! ## Entries -/

namespace LockEntry

variable {e : LockEntry} {p : LockedProject} {v : Version} {n : Named}

/-- A name that was read is a tag, which is classified by its own text, or a branch that
is not marked. -/
theorem named_eq_ok (h : e.named = .ok (some n)) :
    n.canonical = n ∧ ∀ tag, n = .plain tag → Named.ofTag tag = n := by
  unfold named at h
  split at h
  · exact nomatch h
  · rename_i text _ _
    obtain rfl := Option.some.inj (Except.ok.inj h)
    cases hn : Named.ofTag text with
    | branch name isDefault =>
      unfold Named.ofTag at hn
      split at hn <;> exact nomatch hn
    | plain tag =>
      obtain rfl := Named.eq_of_ofTag hn
      exact ⟨rfl, fun tag' htag => by rw [← Named.plain.inj htag, hn]⟩
    | semver tag => exact ⟨rfl, fun _ htag => nomatch htag⟩
  · obtain rfl := Option.some.inj (Except.ok.inj h)
    exact ⟨rfl, fun _ htag => nomatch htag⟩
  · exact nomatch h

theorem lockedVersion_eq_ok (h : e.lockedVersion = .ok v) :
    e.named = .ok v.named? ∧ v.revision? = e.revision.map fun r => ⟨Text.trimmed r⟩ := by
  obtain ⟨n?, hn, h⟩ := bind_eq_ok_iff.1 h
  rw [hn]
  cases hrevision : e.revision with
  | none =>
    rw [hrevision] at h
    cases n? with
    | none => exact nomatch h
    | some n =>
      obtain rfl := Except.ok.inj h
      exact ⟨rfl, rfl⟩
  | some hash =>
    rw [hrevision] at h
    cases n? with
    | none =>
      obtain rfl := Except.ok.inj h
      exact ⟨rfl, rfl⟩
    | some n =>
      obtain rfl := Except.ok.inj h
      exact ⟨rfl, rfl⟩

theorem locked_eq_ok (h : e.locked = .ok p) :
    ImportPath.isValid e.name = true ∧ (∀ r, e.revision = some r → Text.isBlankText r = false) ∧
      e.lockedVersion = .ok p.version ∧ p.project = ⟨e.name, source? e.source⟩ := by
  unfold locked at h
  cases hroot : ImportPath.isValid e.name with
  | false =>
    rw [hroot] at h
    exact nomatch h
  | true =>
    cases hblank : e.revision.any Text.isBlankText with
    | true =>
      rw [hroot, hblank] at h
      exact nomatch h
    | false =>
      rw [hroot, hblank] at h
      obtain ⟨v, hv, h⟩ := bind_eq_ok_iff.1 h
      obtain rfl := Except.ok.inj h
      refine ⟨rfl, fun r hr => ?_, hv, rfl⟩
      rwa [hr] at hblank

/-- A locked project that was read is read again from its own entry. -/
theorem persistent_of_locked (h : e.locked = .ok p) : p.Persistent ∧ p.canonical = p := by
  obtain ⟨hroot, hblank, hversion, hproject⟩ := locked_eq_ok h
  obtain ⟨hnamed, hrevision⟩ := lockedVersion_eq_ok hversion
  have hname : ∀ n, p.version.named? = some n →
      n.canonical = n ∧ ∀ tag, n = .plain tag → Named.ofTag tag = n :=
    fun n hn => named_eq_ok (hnamed.trans (congrArg Except.ok hn))
  refine ⟨⟨by rw [hproject]; exact hroot,
    by rw [hproject]; exact source?_ne_empty e.source, fun r hr => ?_, fun tag htag => (hname _
      htag).2 tag rfl⟩, ?_⟩
  · rw [hrevision] at hr
    obtain ⟨hash, hhash, rfl⟩ := Option.map_eq_some_iff.1 hr
    exact ⟨(Text.isBlankText_trimmed_eq hash).trans (hblank hash hhash), Text.trimmed_trimmed hash⟩
  · rw [LockedProject.canonical, Version.canonical_eq_self fun n hn => (hname n hn).1]

end LockEntry

/-! ## Locks -/

namespace LockFile

theorem solverVersion_lt_of_solveMeta? {value : Toml.Value} {m : SolveMeta}
    (h : solveMeta? value = some m) : m.solverVersion < 4294967296 := by
  unfold solveMeta? at h
  obtain ⟨fields, -, h⟩ := Option.bind_eq_some_iff.1 h
  split at h
  · obtain ⟨_, -, h⟩ := Option.bind_eq_some_iff.1 h
    obtain ⟨_, -, h⟩ := Option.bind_eq_some_iff.1 h
    obtain ⟨_, -, h⟩ := Option.bind_eq_some_iff.1 h
    obtain ⟨_, -, h⟩ := Option.bind_eq_some_iff.1 h
    obtain ⟨_, -, h⟩ := Option.bind_eq_some_iff.1 h
    obtain ⟨version, hversion, h⟩ := Option.bind_eq_some_iff.1 h
    obtain rfl := Option.some.inj h
    exact Toml.lt_of_natBelow? hversion
  · exact nomatch h

theorem solverVersion_lt_of_ofDocument? {entries : List (String × Toml.Value)} {file : LockFile}
    (h : ofDocument? entries = some file) :
    ∀ m, file.solveMeta = some m → m.solverVersion < 4294967296 := by
  unfold ofDocument? at h
  obtain ⟨fields, -, h⟩ := Option.bind_eq_some_iff.1 h
  split at h
  · obtain ⟨_, -, h⟩ := Option.bind_eq_some_iff.1 h
    obtain ⟨solveMeta, hmeta, h⟩ := Option.bind_eq_some_iff.1 h
    obtain rfl := Option.some.inj h
    rintro m rfl
    obtain ⟨value, hvalue⟩ := Toml.exists_of_optional? hmeta
    exact solverVersion_lt_of_solveMeta? hvalue
  · exact nomatch h

end LockFile

namespace Lock

variable {lock : Lock} {file : LockFile}

/-- A lock that was read from a file is read back from its own. -/
theorem ofFile_toFile_of_ofFile (h : ofFile file = .ok lock) :
    lock.projects.Pairwise (fun a b => a.project.root < b.project.root) ∧
    lock.solveMeta = file.solveMeta ∧
      ofFile lock.toFile = .ok lock := by
  obtain ⟨projects, hprojects, h⟩ := bind_eq_ok_iff.1 h
  obtain ⟨sorted, hsorted, h⟩ := bind_eq_ok_iff.1 h
  obtain rfl := Except.ok.inj h
  obtain ⟨hascending, hmem⟩ := ofProjects_ok hsorted
  have hentry : ∀ p ∈ sorted.projects, p.Persistent ∧ p.canonical = p := fun p hp => by
    obtain ⟨e, -, he⟩ := exists_of_mem_mapM hprojects ((hmem p).1 hp)
    exact LockEntry.persistent_of_locked he
  have hcanonical : sorted.projects.map LockedProject.canonical = sorted.projects :=
    (List.map_congr_left fun p hp => (hentry p hp).2).trans (List.map_id _)
  refine ⟨hascending, rfl, ?_⟩
  have hback : ofFile (toFile ⟨sorted.projects, file.solveMeta⟩) =
      .ok ⟨sorted.projects.map LockedProject.canonical, file.solveMeta⟩ :=
    ofFile_toFile hascending fun p hp => (hentry p hp).1
  exact hback.trans
    (congrArg (fun projects => Except.ok (Lock.mk projects file.solveMeta)) hcanonical)

theorem toText_of_perm {lock' : Lock} (hperm : lock'.projects.Perm lock.projects)
    (hmeta : lock'.solveMeta = lock.solveMeta)
    (h : lock.projects.Pairwise fun a b => a.project.root < b.project.root) :
    lock'.toText = .ok (Toml.write lock.toFile.document) := by
  have hvalid : lock'.validate = .ok () :=
    validate_of_nodup ((hperm.map (·.project.root)).nodup_iff.2 (nodup_of_ascending h))
  have hfile : lock'.toFile = lock.toFile := by
    unfold toFile
    rw [sortByRoot_of_perm hperm h, sortByRoot_of_ascending h, hmeta]
  unfold toText
  rw [hvalid, hfile]
  rfl

theorem exists_ofFile_of_ofText {text : String} (h : ofText text = .ok lock) :
    ∃ file, ofFile file = .ok lock ∧ ∀ m, file.solveMeta = some m →
      m.solverVersion < 4294967296 := by
  unfold ofText at h
  split at h
  · exact nomatch h
  · split at h
    · exact nomatch h
    · rename_i hfile
      exact ⟨_, h, LockFile.solverVersion_lt_of_ofDocument? hfile⟩

/-- A lock that was read from a text has a text, from which it is read as it was, and a lock with
the same entries in another order has the same text. It is taken for granted that the document that
is written is read back. -/
theorem toText_of_ofText {text : String} (h : ofText text = .ok lock)
    (hreads : Toml.ReadsBack lock.toFile.document) :
    ∃ written, lock.toText = .ok written ∧ ofText written = .ok lock ∧
      ∀ lock' : Lock, lock'.projects.Perm lock.projects → lock'.solveMeta = lock.solveMeta →
        lock'.toText = .ok written := by
  obtain ⟨file, hfile, hlimit⟩ := exists_ofFile_of_ofText h
  obtain ⟨hascending, hmeta, hback⟩ := ofFile_toFile_of_ofFile hfile
  refine ⟨Toml.write lock.toFile.document, toText_of_perm (.refl _) rfl hascending, ?_,
    fun lock' hperm hmeta => toText_of_perm hperm hmeta hascending⟩
  exact (ofText_write (fun m hm => hlimit m (hmeta ▸ hm)) hreads).trans hback

/-- A lock file whose entries are out of order, with white space, an empty source and a
package given twice. -/
def scattered : String :=
  "[[projects]]\nname='c/tool'\nsource=''\nversion=' v1.0'\nrevision=' t1 '\n" ++
  "[[projects]]\nname='c/lib'\nversion=' next'\npackages=['.', '.']\n" ++
  "[solve-meta]\ninputs-digest=''\nsolver-name='s'\nsolver-version=1\n"

/-- What that file locks. -/
def gathered : Lock where
  projects := [⟨⟨"c/lib", none⟩, .named (.plain " next"), .ofList ["."]⟩,
    ⟨⟨"c/tool", none⟩, .bound ⟨.ofTag "v1.0", ⟨"t1"⟩⟩, .empty⟩]
  solveMeta := some ⟨"", "s", 1⟩

theorem ascending_gathered :
    gathered.projects.Pairwise fun a b => a.project.root < b.project.root := by
  decide +kernel

theorem ofText_scattered : ofText scattered = .ok gathered := by
  have hread : ((Toml.read scattered).bind LockFile.ofDocument?).map (fun file =>
      ((file.projects.mapM LockEntry.locked).toOption, file.solveMeta)) =
      some (some gathered.projects.reverse, gathered.solveMeta) := by
    decide +kernel
  obtain ⟨file, hfile, heq⟩ := Option.map_eq_some_iff.1 hread
  obtain ⟨document, hdocument, hfile⟩ := Option.bind_eq_some_iff.1 hfile
  obtain ⟨hprojects, hmeta⟩ := Prod.mk.inj heq
  have hlocked : file.projects.mapM LockEntry.locked = .ok gathered.projects.reverse := by
    cases hm : file.projects.mapM LockEntry.locked with
    | error e =>
      rw [hm] at hprojects
      exact nomatch hprojects
    | ok projects =>
      rw [hm] at hprojects
      exact congrArg Except.ok (Option.some.inj hprojects)
  rw [ofText, hdocument]
  dsimp only
  rw [hfile]
  dsimp only
  rw [ofFile_eq_ok hlocked (List.reverse_perm _) ascending_gathered, hmeta]

theorem toText_of_scattered :
    ofText scattered = .ok gathered ∧ Toml.ReadsBack gathered.toFile.document ∧
    ∃ written, gathered.toText = .ok written ∧ ofText written = .ok gathered ∧
      (⟨gathered.projects.reverse, gathered.solveMeta⟩ : Lock).toText = .ok written := by
  have hreads : Toml.ReadsBack gathered.toFile.document := by
    have hfile : gathered.toFile = ⟨gathered.projects.map LockEntry.ofLocked,
        gathered.solveMeta⟩ := by
      rw [toFile, sortByRoot_of_ascending ascending_gathered]
    rw [hfile]
    decide +kernel
  obtain ⟨written, hwritten, hreread, hperm⟩ := toText_of_ofText ofText_scattered hreads
  exact ⟨ofText_scattered, hreads, written, hwritten, hreread, hperm _ (List.reverse_perm _) rfl⟩

end Lock

end Depsolve
