import Depsolve.Workspace

/-!
# What volumes owe to those who write files

A volume says nothing of its own about where its files are. A `Layout` says where a path leads and
what is there; two paths may lead to the same place. `Volume.Keeps` are the laws that hold of a
volume with such a layout: what writing, moving and removing a file change, if they work and if they
do not; a failed write may leave its own file in any state. The laws leave no room for links,
through which one file stands for another. `Volume.replace` replaces a file as a whole or leaves it
as it was on every volume that keeps these laws (`Volume.Keeps.replace`).
-/

namespace Depsolve

variable {σ ι κ : Type}

/-- Where the paths of a volume lead, and what is there. -/
structure Layout (σ ι κ : Type) where
  /-- The place that a path leads to; something may be there or not. -/
  place? : σ → String → Option ι
  /-- What is at a place. -/
  entry? : σ → ι → Option κ

namespace Layout

variable {l : Layout σ ι κ} {paths paths' : List String} {d d' d'' : σ}

/-- All paths lead where they led, and only what some of them lead to may have changed. -/
structure SameBut (l : Layout σ ι κ) (paths : List String) (d d' : σ) : Prop where
  places : ∀ path, l.place? d' path = l.place? d path
  entries : ∀ i, (∀ path ∈ paths, l.place? d path ≠ some i) → l.entry? d' i = l.entry? d i

/-- What a path leads to is still the same. -/
def SameAt (l : Layout σ ι κ) (path : String) (d d' : σ) : Prop :=
  l.place? d' path = l.place? d path ∧ ∀ i, l.place? d path = some i → l.entry? d' i = l.entry? d i

theorem SameBut.refl (paths : List String) (d : σ) : l.SameBut paths d d :=
  ⟨fun _ => rfl, fun _ _ => rfl⟩

theorem SameBut.trans (h : l.SameBut paths d d') (h' : l.SameBut paths d' d'') :
    l.SameBut paths d d'' := by
  refine ⟨fun path => (h'.places path).trans (h.places path), fun i hi => ?_⟩
  rw [h'.entries i, h.entries i hi]
  intro path hpath
  rw [h.places path]
  exact hi path hpath

theorem SameBut.mono (h : l.SameBut paths d d') (hsub : paths ⊆ paths') : l.SameBut paths' d d' :=
  ⟨h.places, fun i hi => h.entries i fun path hpath => hi path (hsub hpath)⟩

/-- What a path leads to is the same if no path to the same place is excepted. -/
theorem SameBut.sameAt (h : l.SameBut paths d d') {path : String}
    (hpath : ∀ i, l.place? d path = some i → ∀ other ∈ paths, l.place? d other ≠ some i) :
    l.SameAt path d d' :=
  ⟨h.places path, fun i hi => h.entries i (hpath i hi)⟩

theorem SameAt.refl (path : String) (d : σ) : l.SameAt path d d :=
  ⟨rfl, fun _ _ => rfl⟩

end Layout

namespace Volume

/-- The laws of a volume. -/
structure Keeps (v : Volume σ) (l : Layout σ ι κ) : Prop where
  /-- What is read depends on what is there. -/
  read_eq : ∀ {path d d'}, l.SameAt path d d' → v.read? d' path = v.read? d path
  /-- A file and its draft are two files. -/
  draft_apart : ∀ {d path i}, l.place? d path = some i → l.place? d (draft path) ≠ some i
  /-- Writing changes nothing but the file, even if it fails. -/
  write_only : ∀ d path text, l.SameBut [path] d (v.write d path text).2
  read_write : ∀ {d path text}, (v.write d path text).1 = true →
    v.read? (v.write d path text).2 path = some text
  /-- Moving a file fails without effect. -/
  rename_failed : ∀ {d path target}, (v.rename d path target).1 = false →
    l.SameBut [] d (v.rename d path target).2
  /-- Moving a file changes nothing but the file and what is in its new place. -/
  rename_only : ∀ {d path target text}, v.read? d path = some text →
    (v.rename d path target).1 = true → l.SameBut [path, target] d (v.rename d path target).2
  /-- The new file is there as a whole. -/
  read_rename : ∀ {d path target text}, v.read? d path = some text →
    (v.rename d path target).1 = true → v.read? (v.rename d path target).2 target = some text
  /-- A file that was moved elsewhere is gone. -/
  rename_gone : ∀ {d path target text i}, v.read? d path = some text →
    (v.rename d path target).1 = true →
    l.place? d path = some i → l.place? d target ≠ some i →
    l.entry? (v.rename d path target).2 i = none
  /-- Removing a file changes nothing but the file, even if it fails. -/
  remove_only : ∀ d path, l.SameBut [path] d (v.remove d path)

/-- A file was replaced as a whole, or else it is as it was; apart from its draft nothing
else has changed. -/
structure Replaces (v : Volume σ) (l : Layout σ ι κ) (path content : String) (d : σ)
    (outcome : Except Fault Unit × σ) : Prop where
  failed : ∀ e, outcome.1 = .error e → l.SameAt path d outcome.2
  done : outcome.1 = .ok () → v.read? outcome.2 path = some content
  /-- No draft is left. -/
  tidy : outcome.1 = .ok () → ∀ i, l.place? d (draft path) = some i → l.entry? outcome.2 i = none
  rest : l.SameBut [path, draft path] d outcome.2

/-- The three ways in which replacing a file can end. -/
theorem replace_cases (v : Volume σ) (path content : String) (d : σ) :
    let written := v.write d (draft path) content
    let moved := v.rename written.2 (draft path) path
    (written.1 = false ∧
      v.replace path content d = (.error (fileFault "write" (draft path)), written.2)) ∨
    (written.1 = true ∧ moved.1 = false ∧
      v.replace path content d = (.error (fileFault "replace" path),
        v.remove moved.2 (draft path))) ∨
    (written.1 = true ∧ moved.1 = true ∧ v.replace path content d = (.ok (), moved.2)) := by
  unfold replace
  rcases v.write d (draft path) content with ⟨_ | _, d₁⟩
  · simp
  · rcases hmoved : v.rename d₁ (draft path) path with ⟨_ | _, d₂⟩ <;> simp [hmoved]

variable {v : Volume σ} {l : Layout σ ι κ} {path content : String} {d d' : σ}

/-- A change of the draft only leaves the file as it was. -/
theorem Keeps.sameAt_of_draft (hv : v.Keeps l) (h : l.SameBut [draft path] d d') :
    l.SameAt path d d' := by
  apply h.sameAt
  intro i hi other hother
  obtain rfl := List.mem_singleton.1 hother
  exact hv.draft_apart hi

theorem Keeps.replaces_error (hv : v.Keeps l) (e : Fault) (h : l.SameBut [draft path] d d') :
    v.Replaces l path content d (.error e, d') where
  failed _ _ := hv.sameAt_of_draft h
  done := nofun
  tidy := nofun
  rest := h.mono (by simp)

/-- Replacing a file is all or nothing. -/
theorem Keeps.replace (hv : v.Keeps l) (path content : String) (d : σ) :
    v.Replaces l path content d (v.replace path content d) := by
  have hwrite := hv.write_only d (draft path) content
  rcases v.replace_cases path content d with ⟨-, heq⟩ | ⟨-, hmoved, heq⟩ |
    ⟨hwritten, hmoved, heq⟩ <;> rw [heq]
  · exact hv.replaces_error _ hwrite
  · have hrename := (hv.rename_failed hmoved).mono (List.nil_subset [draft path])
    exact hv.replaces_error _ ((hwrite.trans hrename).trans (hv.remove_only _ _))
  · have hread := hv.read_write hwritten
    have hswap : [draft path, path] ⊆ [path, draft path] := by simp
    have hrename := (hv.rename_only hread hmoved).mono hswap
    refine ⟨nofun, fun _ => hv.read_rename hread hmoved, fun _ i hi => ?_,
      (hwrite.mono (by simp)).trans hrename⟩
    apply hv.rename_gone hread hmoved
    · exact (hwrite.places _).trans hi
    · intro hpath
      exact hv.draft_apart ((hwrite.places _).symm.trans hpath) hi

end Volume

end Depsolve
