import Depsolve.Lock.File
import Depsolve.Proofs.Constraint.Naming
import Depsolve.Proofs.Lock.Projects
import Depsolve.Proofs.Manifest.File

/-!
# Locks on disk

The file of a lock has a text for each name, which is classified again on reading, and does not tell
which branch is the default one. A lock whose entries can be told from their texts
(`LockedProject.Persistent`) is read back as it was, up to the flags of branches
(`Lock.ofFile_toFile`).
-/

namespace Depsolve

/-! ## The shape of the document -/

namespace LockFile

theorem entry?_document (e : LockEntry) : entry? (.table (entryDocument e)) = some e := by
  have hentries : entryDocument e = Toml.present [("name", some (.string e.name)),
      ("source", e.source.map .string), ("version", e.version.map .string),
      ("branch", e.branch.map .string), ("revision", e.revision.map .string),
      ("packages", some (.array (e.packages.map .string)))] := by
    obtain ⟨name, _ | _, _ | _, _ | _, _ | _, packages⟩ := e <;> rfl
  have hpackages : Toml.default? (Toml.list? Toml.text?) []
      (some (.array (e.packages.map .string))) = some e.packages := Toml.list?_array fun _ _ => rfl
  unfold entry?
  rw [Toml.record?_eq ["name", "source", "version", "branch", "revision",
    "packages"] hentries rfl (by decide)]
  simp [Toml.optional?_text?, hpackages, Toml.text?]

theorem solveMeta?_of_record {v digest name version : Toml.Value} {m : SolveMeta}
    (hrecord : Toml.record? ["inputs-digest", "solver-name", "solver-version"] v =
      some [some digest, some name, some version])
    (hdigest : Toml.text? digest = some m.inputsDigest)
    (hname : Toml.text? name = some m.solverName)
    (hversion : Toml.natBelow? 4294967296 version = some m.solverVersion) :
    solveMeta? v = some m := by
  rw [solveMeta?, hrecord]
  simp only [Option.bind_eq_bind, Option.bind_some, hdigest, hname, hversion]
  rfl

theorem optional?_metaDocument {m? : Option SolveMeta}
    (h : ∀ m, m? = some m → m.solverVersion < 4294967296) :
    Toml.optional? solveMeta? (m?.map fun m => .table (metaDocument m)) = some m? := by
  cases m? with
  | none => rfl
  | some m =>
    have hentries : metaDocument m = Toml.present [("inputs-digest", some (.string m.inputsDigest)),
        ("solver-name", some (.string m.solverName)),
        ("solver-version", some (.integer m.solverVersion))] := rfl
    have hread : solveMeta? (.table (metaDocument m)) = some m :=
      solveMeta?_of_record (Toml.record?_eq _ hentries rfl (by decide)) rfl rfl
        (Toml.natBelow?_integer (h m rfl))
    rw [Option.map_some, Toml.optional?, hread]
    rfl

/-- The document of a file has the shape of the file. -/
theorem ofDocument?_document {file : LockFile}
    (h : ∀ m, file.solveMeta = some m → m.solverVersion < 4294967296) :
    ofDocument? file.document = some file := by
  obtain ⟨projects, m?⟩ := file
  have hentries : document ⟨projects, m?⟩ = Toml.present
      [("projects", some (.array (projects.map fun e => .table (entryDocument e)))),
        ("solve-meta", m?.map fun m => .table (metaDocument m))] := by
    cases m? <;> rfl
  have hprojects : Toml.default? (Toml.list? entry?) []
      (some (.array (projects.map fun e => .table (entryDocument e)))) = some projects :=
    Toml.list?_array fun e _ => entry?_document e
  unfold ofDocument?
  rw [Toml.record?_eq ["projects", "solve-meta"] hentries rfl (by decide)]
  simp [hprojects, optional?_metaDocument h]

end LockFile

/-! ## Entries -/

theorem Named.eq_of_ofTag {text tag : String} (h : ofTag text = .plain tag) : text = tag := by
  unfold ofTag at h
  split at h <;> cases h
  rfl

/-- An entry that can be told from its texts. -/
structure LockedProject.Persistent (p : LockedProject) : Prop where
  root : ImportPath.isValid p.project.root = true
  /-- The empty source stands for none. -/
  source : p.project.source ≠ some ""
  /-- A hash is read without white space around it, and is not blank. -/
  revision : ∀ r, p.version.revision? = some r → Text.isBlankText r.text = false ∧
    Text.trimmed r.text = r.text
  /-- A tag is read as a semver tag if it reads as one. -/
  plain : ∀ tag, p.version.named? = some (.plain tag) → Named.ofTag tag = .plain tag

/-- The entry of a branch does not tell whether it is the default one. -/
def LockedProject.canonical (p : LockedProject) : LockedProject :=
  { p with version := p.version.canonical }

namespace LockEntry

theorem named_ofLocked {p : LockedProject} (h : p.Persistent) :
    (ofLocked p).named = .ok (p.version.named?.map Named.canonical) := by
  unfold ofLocked named
  cases hn : p.version.named? with
  | none => rfl
  | some n =>
    cases n with
    | branch name isDefault => rfl
    | plain tag => simp [h.plain tag hn, Named.name, Named.canonical]
    | semver tag =>
      have hread : Named.ofTag tag.text = .semver tag := by
        rw [Named.ofTag, Tag.read_text]
      simp [hread, Named.name, Named.canonical]

theorem lockedVersion_ofLocked {p : LockedProject} (h : p.Persistent) :
    (ofLocked p).lockedVersion = .ok p.version.canonical := by
  have hrevision : (ofLocked p).revision.map Text.trimmed =
      p.version.revision?.map Revision.text := by
    have hfield : (ofLocked p).revision = p.version.revision?.map Revision.text := rfl
    rw [hfield]
    cases hr : p.version.revision? with
    | none => rfl
    | some r => exact congrArg some (h.revision r hr).2
  unfold lockedVersion
  rw [named_ofLocked h, hrevision]
  cases p.version <;> rfl

/-- An entry is read back from its file, up to the flag of a branch. -/
theorem locked_ofLocked {p : LockedProject} (h : p.Persistent) :
    (ofLocked p).locked = .ok p.canonical := by
  have hblank : (ofLocked p).revision.any Text.isBlankText = false := by
    have hfield : (ofLocked p).revision = p.version.revision?.map Revision.text := rfl
    rw [hfield]
    cases hr : p.version.revision? with
    | none => rfl
    | some r => exact (h.revision r hr).1
  have hroot : ImportPath.isValid (ofLocked p).name = true := h.root
  have hsource : source? (ofLocked p).source = p.project.source := source?_eq_iff.2 h.source
  have hpackages : SortedSet.ofList (ofLocked p).packages = p.packages := p.packages.ofList_toList
  unfold locked
  rw [hroot, hblank, lockedVersion_ofLocked h, hsource, hpackages]
  rfl

end LockEntry

/-! ## Locks -/

theorem Version.same_canonical (v : Version) : v.canonical.same v = true := by
  refine decide_eq_true ?_
  cases v with
  | revision r => rfl
  | named n => cases n <;> rfl
  | bound b =>
    obtain ⟨n, r⟩ := b
    cases n <;> rfl

theorem LockedProject.same_canonical (p : LockedProject) : p.canonical.same p = true := by
  simp [same, canonical, Version.same_canonical]

namespace Lock

/-- A file is read as the lock of its entries, in the order in which their roots ascend. -/
theorem ofFile_eq_ok {file : LockFile} {projects sorted : List LockedProject}
    (hread : file.projects.mapM LockEntry.locked = .ok projects) (hperm : projects.Perm sorted)
    (hascending : sorted.Pairwise fun a b => a.project.root < b.project.root) :
    ofFile file = .ok ⟨sorted, file.solveMeta⟩ := by
  have hprojects := ofProjects_of_perm hperm hascending
  unfold ofFile
  rw [hread]
  simp only [bind, Except.bind, hprojects]
  rfl

/-- A lock is read back from its file, up to the flags of branches. -/
theorem ofFile_toFile {lock : Lock}
    (hascending : lock.projects.Pairwise fun a b => a.project.root < b.project.root)
    (h : ∀ p ∈ lock.projects, p.Persistent) :
    ofFile lock.toFile =
      .ok { lock with projects := lock.projects.map LockedProject.canonical } := by
  have hread : lock.toFile.projects.mapM LockEntry.locked =
      .ok (lock.projects.map LockedProject.canonical) := by
    unfold toFile
    rw [sortByRoot_of_ascending hascending, mapM_eq_ok_iff, List.forall₂_map_left_iff,
      List.forall₂_map_right_iff, List.forall₂_same]
    exact fun p hp => LockEntry.locked_ofLocked (h p hp)
  exact ofFile_eq_ok hread (.refl _) (List.pairwise_map.2 hascending)

/-- The text of a lock is read as its file, if the document of the file is read back. -/
theorem ofText_write {lock : Lock}
    (hmeta : ∀ m, lock.solveMeta = some m → m.solverVersion < 4294967296)
    (h : Toml.ReadsBack lock.toFile.document) :
    ofText (Toml.write lock.toFile.document) = ofFile lock.toFile := by
  have hread : Toml.read (Toml.write lock.toFile.document) = some lock.toFile.document := h
  unfold ofText
  rw [hread]
  dsimp only
  rw [LockFile.ofDocument?_document hmeta]

theorem same_map_canonical (lock : Lock) :
    ({ lock with projects := lock.projects.map LockedProject.canonical } : Lock).same lock =
      true := by
  have hall : ∀ l : List LockedProject, ∀ e ∈ (l.map LockedProject.canonical).zip l,
      e.1.same e.2 = true := by
    intro l
    induction l with
    | nil => simp
    | cons p l ih => simpa [LockedProject.same_canonical] using ih
  unfold same sameProjects
  rw [List.length_map, List.all_eq_true.2 (hall lock.projects)]
  simp

/-- A lock whose entries ascend by root and can be told from their texts is written, and what is
written is read back as the same lock. -/
theorem exists_ofText_toText {lock : Lock}
    (hmeta : ∀ m, lock.solveMeta = some m → m.solverVersion < 4294967296)
    (hascending : lock.projects.Pairwise fun a b => a.project.root < b.project.root)
    (h : ∀ p ∈ lock.projects, p.Persistent) (hreads : Toml.ReadsBack lock.toFile.document) :
    ∃ text lock', lock.toText = .ok text ∧ ofText text = .ok lock' ∧ lock'.same lock = true := by
  have hwritten : lock.toText = .ok (Toml.write lock.toFile.document) := by
    unfold toText
    rw [validate_of_ascending hascending]
    rfl
  exact ⟨_, _, hwritten, (ofText_write hmeta hreads).trans (ofFile_toFile hascending h),
    lock.same_map_canonical⟩

end Lock

end Depsolve
