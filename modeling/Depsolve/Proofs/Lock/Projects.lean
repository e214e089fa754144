import Depsolve.Lock.Basic

/-!
# Entries of locks

`Lock.ofProjects` sorts entries by root, and succeeds just if no two of them have one root.
-/

namespace Depsolve

namespace Lock

theorem nodup_of_repeated?_eq_none {seen roots : List String} (h : repeated? seen roots = none) :
    roots.Nodup ∧ ∀ root ∈ roots, ¬ root ∈ seen := by
  -- with the roots seen so far carried along
  induction roots generalizing seen with
  | nil => simp
  | cons root rest ih =>
    rw [repeated?] at h
    split at h
    · simp at h
    · rename_i hseen
      obtain ⟨hnodup, hrest⟩ := ih h
      have hroot : ¬ root ∈ seen := by simpa using hseen
      refine ⟨List.nodup_cons.2 ⟨fun hmem => ?_, hnodup⟩, ?_⟩
      · exact hrest root hmem List.mem_cons_self
      · refine List.forall_mem_cons.2 ⟨hroot, fun x hx hs => ?_⟩
        exact hrest x hx (List.mem_cons_of_mem _ hs)

theorem roots_sortByRoot_perm (projects : List LockedProject) :
    ((sortByRoot projects).map (·.project.root)).Perm (projects.map (·.project.root)) :=
  (List.mergeSort_perm _ _).map _

/-- Entries with different roots ascend in them once they are sorted. -/
theorem ascending_sortByRoot {projects : List LockedProject}
    (h : (projects.map (·.project.root)).Nodup) :
    (sortByRoot projects).Pairwise fun a b => a.project.root < b.project.root := by
  have hsorted := pairwise_mergeSort_key (fun p : LockedProject => p.project.root) projects
  have hnodup := List.pairwise_map.1 ((roots_sortByRoot_perm projects).nodup_iff.2 h)
  refine (hsorted.and hnodup).imp fun ⟨hle, hne⟩ => ?_
  grind

/-- A lock that was made of some entries has these entries, by ascending root. -/
theorem ofProjects_ok {projects : List LockedProject} {lock : Lock}
    (h : ofProjects projects = .ok lock) :
    lock.projects.Pairwise (fun a b => a.project.root < b.project.root) ∧
      ∀ entry, entry ∈ lock.projects ↔ entry ∈ projects := by
  unfold ofProjects validate at h
  simp only at h
  split at h
  · simp [bind, Except.bind] at h
  · rename_i hrep
    obtain rfl : (⟨sortByRoot projects, none⟩ : Lock) = lock := by
      simpa [bind, Except.bind, pure, Except.pure] using h
    exact ⟨ascending_sortByRoot
      ((roots_sortByRoot_perm projects).nodup_iff.1 (nodup_of_repeated?_eq_none hrep).1),
      fun entry => List.mem_mergeSort⟩

/-- The entries of a lock are those that it was made of, in another order. -/
theorem ofProjects_perm {projects : List LockedProject} {lock : Lock}
    (h : ofProjects projects = .ok lock) : projects.Perm lock.projects := by
  unfold ofProjects validate at h
  simp only at h
  split at h
  · simp [bind, Except.bind] at h
  · obtain rfl : (⟨sortByRoot projects, none⟩ : Lock) = lock := by
      simpa [bind, Except.bind, pure, Except.pure] using h
    exact (List.mergeSort_perm _ _).symm

theorem repeated?_of_nodup {seen roots : List String} (h : roots.Nodup)
    (hseen : ∀ root ∈ roots, ¬ root ∈ seen) : repeated? seen roots = none := by
  induction roots generalizing seen with
  | nil => rfl
  | cons root rest ih =>
    obtain ⟨hroot, hrest⟩ := List.nodup_cons.1 h
    rw [repeated?, if_neg (by simpa using hseen root List.mem_cons_self)]
    refine ih hrest fun x hx hmem => ?_
    rcases List.mem_cons.1 hmem with rfl | hmem
    · exact hroot hx
    · exact hseen x (List.mem_cons_of_mem _ hx) hmem

theorem exists_ofProjects {projects : List LockedProject}
    (h : (projects.map (·.project.root)).Nodup) : ∃ lock, ofProjects projects = .ok lock := by
  have hrep : repeated? [] ((sortByRoot projects).map (·.project.root)) = none :=
    repeated?_of_nodup ((roots_sortByRoot_perm projects).nodup_iff.2 h) (by simp)
  refine ⟨⟨sortByRoot projects, none⟩, ?_⟩
  simp [ofProjects, validate, hrep, bind, Except.bind, pure, Except.pure]

theorem nodup_of_ascending {projects : List LockedProject}
    (h : projects.Pairwise fun a b => a.project.root < b.project.root) :
    (projects.map (·.project.root)).Nodup :=
  List.pairwise_map.2 <| h.imp fun hab heq => by
    rw [heq] at hab
    exact Std.lt_irrefl hab

/-- Entries that ascend in their roots are what sorting makes of them in any other order. -/
theorem sortByRoot_of_perm {projects sorted : List LockedProject} (hperm : projects.Perm sorted)
    (h : sorted.Pairwise fun a b => a.project.root < b.project.root) :
    sortByRoot projects = sorted := by
  have hnodup := (hperm.map (·.project.root)).nodup_iff.2 (nodup_of_ascending h)
  exact List.Perm.eq_of_pairwise (fun _ _ _ _ hab hba => absurd hba (Std.not_gt_of_lt hab))
    (ascending_sortByRoot hnodup) h ((List.mergeSort_perm _ _).trans hperm)

/-- Entries that ascend in their roots are left in their order. -/
theorem sortByRoot_of_ascending {projects : List LockedProject}
    (h : projects.Pairwise fun a b => a.project.root < b.project.root) :
    sortByRoot projects = projects :=
  sortByRoot_of_perm (.refl _) h

theorem validate_of_nodup {lock : Lock} (h : (lock.projects.map (·.project.root)).Nodup) :
    lock.validate = .ok () := by
  unfold validate
  rw [repeated?_of_nodup h fun _ _ => List.not_mem_nil]

theorem validate_of_ascending {lock : Lock}
    (h : lock.projects.Pairwise fun a b => a.project.root < b.project.root) :
    lock.validate = .ok () :=
  validate_of_nodup (nodup_of_ascending h)

/-- The lock of some entries has them in the order in which their roots ascend. -/
theorem ofProjects_of_perm {projects sorted : List LockedProject} (hperm : projects.Perm sorted)
    (h : sorted.Pairwise fun a b => a.project.root < b.project.root) :
    ofProjects projects = .ok ⟨sorted, none⟩ := by
  unfold ofProjects
  dsimp only
  rw [sortByRoot_of_perm hperm h, validate_of_ascending h]
  rfl

end Lock

end Depsolve
