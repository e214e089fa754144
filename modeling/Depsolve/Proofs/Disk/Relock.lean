import Depsolve.Proofs.Disk.Places

/-!
# Replacing the lock of a workspace

`Volume.relock` changes the lock file and the workspace together: it does both, or after any fault
neither (`Volume.Keeps.relock_all_or_nothing`). This holds on every volume that keeps the laws of
volumes, whatever is in the directory and whether the lock can be written as a text or not.
-/

namespace Depsolve

variable {σ ι κ : Type}

/-- The path of the lock file of a workspace. -/
def Workspace.lockPath (w : Workspace) : String :=
  FilePath.join w.directory lockName

namespace Volume

variable {v : Volume σ} {l : Layout σ ι κ}

/-- The lock of a workspace was replaced, in its directory and in the workspace, or else it
was in neither. -/
structure Relocks (v : Volume σ) (l : Layout σ ι κ) (lock : Lock) (w : Workspace) (d : σ)
    (outcome : Except Fault Unit × Workspace × σ) : Prop where
  /-- After a fault what was at the path of the lock file is still there, and the workspace
  is what it was. -/
  failed : ∀ e, outcome.1 = .error e →
    outcome.2.1 = w ∧ l.SameAt w.lockPath d outcome.2.2 ∧
    v.read? outcome.2.2 w.lockPath = v.read? d w.lockPath
  /-- Without a fault the file is that of the lock, which the workspace has. -/
  done : outcome.1 = .ok () → outcome.2.1 = { w with lock := some lock } ∧
    ∃ text, lock.toText = .ok text ∧ v.read? outcome.2.2 w.lockPath = some text
  /-- Then no draft is left. -/
  tidy : outcome.1 = .ok () → ∀ i, l.place? d (draft w.lockPath) = some i →
    l.entry? outcome.2.2 i = none
  /-- In any case nothing changes but the lock file and its draft. -/
  rest : l.SameBut [w.lockPath, draft w.lockPath] d outcome.2.2

theorem relock_of_error {lock : Lock} {e : Fault} (h : lock.toText = .error e)
    (w : Workspace) (d : σ) : v.relock lock w d = (.error e, w, d) := by
  unfold relock writeLock
  rw [h]

theorem relock_of_ok {lock : Lock} {text : String} (h : lock.toText = .ok text)
    (w : Workspace) (d : σ) :
    v.relock lock w d =
      match v.replace w.lockPath text d with
      | (.ok (), d') => (.ok (), { w with lock := some lock }, d')
      | (.error e, d') => (.error e, w, d') := by
  unfold relock writeLock
  rw [h]
  rfl

/-- Replacing a lock is all or nothing. -/
theorem Keeps.relock_all_or_nothing (hv : v.Keeps l) (lock : Lock) (w : Workspace) (d : σ) :
    v.Relocks l lock w d (v.relock lock w d) := by
  cases htext : lock.toText with
  | error e =>
    rw [relock_of_error htext]
    exact ⟨fun _ _ => ⟨rfl, .refl _ _, rfl⟩, nofun, nofun, .refl _ _⟩
  | ok text =>
    have hreplaces := hv.replace w.lockPath text d
    rw [relock_of_ok htext]
    generalize v.replace w.lockPath text d = replaced at hreplaces ⊢
    obtain ⟨e | ⟨⟩, d'⟩ := replaced
    · have hsame := hreplaces.failed e rfl
      exact ⟨fun _ _ => ⟨rfl, hsame, hv.read_eq hsame⟩, nofun, nofun, hreplaces.rest⟩
    · exact ⟨nofun, fun _ => ⟨rfl, text, htext, hreplaces.done rfl⟩, hreplaces.tidy, hreplaces.rest⟩

/-- On a disk a draft that was left there is no hindrance, but a directory at the path of the
lock file is one. -/
theorem relock_all_or_nothing_of_disk :
    let w : Workspace := ⟨"/app", default, none⟩
    let stale : Disk := ⟨[(["app"], .directory), (["app", "tether.lock"], .text "stale"),
      (["app", "tether.lock.tmp"], .text "left")]⟩
    let blocked : Disk := ⟨[(["app"], .directory), (["app", "tether.lock"], .directory)]⟩
    Disk.volume.Keeps Disk.layout ∧
      ((Disk.volume.relock ⟨[], none⟩ w stale).1 = .ok () ∧
        Disk.volume.Relocks Disk.layout ⟨[], none⟩ w stale
        (Disk.volume.relock ⟨[], none⟩ w stale)) ∧
      (Disk.volume.relock ⟨[], none⟩ w blocked).1 =
      .error (fileFault "replace" "/app/tether.lock") ∧
        Disk.volume.Relocks Disk.layout ⟨[], none⟩ w blocked
        (Disk.volume.relock ⟨[], none⟩ w blocked) := by
  intro w stale blocked
  have hkeeps := Disk.volume_keeps
  refine ⟨hkeeps, ⟨by decide +kernel, ?_⟩, by decide +kernel, ?_⟩
  · exact hkeeps.relock_all_or_nothing ⟨[], none⟩ w stale
  · exact hkeeps.relock_all_or_nothing ⟨[], none⟩ w blocked

/-- A manifest file is replaced as a whole, too. -/
theorem Keeps.writeManifest (hv : v.Keeps l) (directory : String) (m : Manifest) (d : σ) :
    v.Replaces l (FilePath.join directory manifestName) m.toText d
      (v.writeManifest directory m d) :=
  hv.replace _ _ d

end Volume

end Depsolve
