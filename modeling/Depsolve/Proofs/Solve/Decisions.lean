import Depsolve.Proofs.Solve.Assignment
import Depsolve.Solve.Expansion

/-!
# Decisions and requirements

How the project selected for a root, the requirements in force and the packages required change when
a decision is added or taken back, and what an assignment of versions a partial solution stands for.
-/

namespace Depsolve

theorem mem_packagesOf {requirements : List Requirement} {q : String} :
    q ∈ packagesOf requirements ↔ ∃ r ∈ requirements, q ∈ r.packages := by
  have hfold : ∀ (l : List Requirement) (s : SortedSet String),
      q ∈ l.foldl (fun found r => found.union r.packages) s ↔
        q ∈ s ∨ ∃ r ∈ l, q ∈ r.packages := by
    intro l
    induction l with
    | nil => simp
    | cons r l ih =>
      intro s
      rw [List.foldl_cons, ih, SortedSet.mem_union, or_assoc]
      simp
  rw [packagesOf, hfold]
  simp [SortedSet.not_mem_empty]

theorem mem_culprits {r : Requirement} {i : Nat} :
    i ∈ r.culprits ↔ r.owner = some i ∨ r.depender = some i := by
  rw [Requirement.culprits, SortedSet.mem_ofList, List.mem_append]
  simp

theorem mem_culpritsOf {requirements : List Requirement} {i : Nat} :
    i ∈ culpritsOf requirements ↔ ∃ r ∈ requirements, i ∈ r.culprits := by
  have hfold : ∀ (l : List Requirement) (s : SortedSet Nat),
      i ∈ l.foldl (fun found r => found.union r.culprits) s ↔ i ∈ s ∨ ∃ r ∈ l, i ∈ r.culprits := by
    intro l
    induction l with
    | nil => simp
    | cons r l ih =>
      intro s
      rw [List.foldl_cons, ih, SortedSet.mem_union, or_assoc]
      simp
  rw [culpritsOf, hfold]
  simp [SortedSet.not_mem_empty]

theorem admittedBy_iff {requirements : List Requirement} {v : Version} :
    admittedBy requirements v = true ↔ ∀ r ∈ requirements, r.constraint.admits v = true := by
  rw [admittedBy, List.all_eq_true]

namespace PartialSolution

variable {p : PartialSolution} {d : Decision} {root : String} {sel : Selected} {i n : Nat}

/-! ## Decisions and their numbers -/

theorem decision?_lt (h : p.decision? i = some d) : i < p.size :=
  (List.getElem?_eq_some_iff.1 h).1

theorem exists_decision? (h : i < p.size) : ∃ d, p.decision? i = some d :=
  ⟨_, List.getElem?_eq_getElem h⟩

theorem mem_of_decision? (h : p.decision? i = some d) : d ∈ p.decisions :=
  List.mem_of_getElem? h

theorem decision?_take (h : i < n) : (p.take n).decision? i = p.decision? i :=
  List.getElem?_take_of_lt h

theorem size_take_le : (p.take n).size ≤ n := by
  simp only [size, take, List.length_take]
  omega

theorem size_take (h : n ≤ p.size) : (p.take n).size = n := by
  simp only [size, take, List.length_take] at *
  omega

theorem take_take (h : i ≤ n) : (p.take n).take i = p.take i := by
  simp only [take, List.take_take]
  rw [Nat.min_eq_left h]

theorem take_size : p.take p.size = p := by
  simp [take, size]

theorem size_push : (p.push d).size = p.size + 1 := by
  simp [size, push]

theorem take_push (h : n ≤ p.size) : (p.push d).take n = p.take n := by
  simp only [take, push]
  rw [List.take_append_of_le_length h]

theorem decision?_push_of_lt (h : i < p.size) : (p.push d).decision? i = p.decision? i :=
  List.getElem?_append_left h

theorem decision?_push_size : (p.push d).decision? p.size = some d := by
  simp [decision?, push, size]

theorem decision?_push_eq {e : Decision} (h : (p.push d).decision? i = some e) :
    (i < p.size ∧ p.decision? i = some e) ∨ (i = p.size ∧ e = d) := by
  have hi : i < p.size + 1 := size_push (d := d) ▸ decision?_lt h
  by_cases hlt : i < p.size
  · exact .inl ⟨hlt, by rwa [decision?_push_of_lt hlt] at h⟩
  · obtain rfl : i = p.size := by omega
    rw [decision?_push_size] at h
    exact .inr ⟨rfl, (Option.some.inj h).symm⟩

/-! ## What is selected for a root -/

/-- The decision of a number, as what is selected. -/
def selection (i : Nat) (d : Decision) : Selected :=
  ⟨i, d.frame.project, d.version⟩

theorem selected?_eq_some (h : p.selected? root = some sel) :
    ∃ d, p.decision? sel.index = some d ∧ d.root = root ∧ sel = selection sel.index d := by
  simp only [selected?, Option.bind_eq_bind, Option.bind_eq_some_iff, Option.pure_def,
    Option.some.injEq] at h
  obtain ⟨j, hj, d, hd, rfl⟩ := h
  obtain ⟨hlt, hroot, -⟩ := List.findIdx?_eq_some_iff_getElem.1 hj
  have hd' : p.decisions[j] = d := (List.getElem?_eq_some_iff.1 hd).2
  exact ⟨d, hd, by simpa [hd'] using hroot, rfl⟩

theorem selected?_root (h : p.selected? root = some sel) : sel.project.root = root := by
  obtain ⟨d, -, hroot, hsel⟩ := selected?_eq_some h
  rw [hsel]
  exact hroot

theorem selected?_lt (h : p.selected? root = some sel) : sel.index < p.size := by
  obtain ⟨d, hd, -⟩ := selected?_eq_some h
  exact decision?_lt hd

theorem index?_of_selected? (h : p.selected? root = some sel) : p.index? root = some sel.index := by
  simp only [selected?, Option.bind_eq_bind, Option.bind_eq_some_iff, Option.pure_def,
    Option.some.injEq] at h
  obtain ⟨j, hj, d, -, rfl⟩ := h
  exact hj

theorem selected?_of_index? (h : p.index? root = some i) :
    ∃ d, p.decision? i = some d ∧ p.selected? root = some (selection i d) := by
  obtain ⟨hlt, -⟩ := List.findIdx?_eq_some_iff_getElem.1 h
  have hd : p.decision? i = some p.decisions[i] := List.getElem?_eq_getElem hlt
  exact ⟨_, hd, by simp [selected?, h, hd, selection]⟩

theorem index?_eq_none_iff : p.index? root = none ↔ p.selected? root = none := by
  constructor
  · intro h
    simp [selected?, h]
  · intro h
    cases hi : p.index? root with
    | none => rfl
    | some i =>
      obtain ⟨d, -, hsel⟩ := selected?_of_index? hi
      rw [hsel] at h
      simp at h

theorem selected?_eq_none_iff : p.selected? root = none ↔ ∀ d ∈ p.decisions, d.root ≠ root := by
  rw [← index?_eq_none_iff, index?, List.findIdx?_eq_none_iff]
  simp

theorem exists_selected?_of_mem (h : d ∈ p.decisions) : ∃ sel, p.selected? d.root = some sel := by
  cases hs : p.selected? d.root with
  | some sel => exact ⟨sel, rfl⟩
  | none => exact absurd rfl (selected?_eq_none_iff.1 hs d h)

theorem version?_eq : p.version? root = (p.selected? root).map Selected.version := by
  have hfind : ∀ l : List Decision, l.find? (fun d => decide (d.root = root)) =
      (l.findIdx? fun d => decide (d.root = root)).bind fun i => l[i]? := by
    intro l
    induction l with
    | nil => rfl
    | cons e l ih =>
      rw [List.find?_cons, List.findIdx?_cons]
      by_cases he : e.root = root
      · simp [he]
      · simp only [he, decide_false]
        rw [ih]
        cases List.findIdx? (fun x => decide (x.root = root)) l <;> simp
  rw [version?, find?, hfind, selected?, index?]
  cases List.findIdx? (fun x => decide (x.root = root)) p.decisions with
  | none => rfl
  | some i =>
    simp only [Option.bind_some, Option.bind_eq_bind, decision?]
    cases p.decisions[i]? <;> rfl

theorem selected?_push_of_some (h : p.selected? root = some sel) :
    (p.push d).selected? root = some sel := by
  have hi := index?_of_selected? h
  have hlt := selected?_lt h
  have hi' : (p.push d).index? root = some sel.index := by
    simp only [index?, push, List.findIdx?_append] at hi ⊢
    simp [hi]
  obtain ⟨e, he, hsel⟩ := selected?_of_index? hi'
  rw [decision?_push_of_lt hlt] at he
  obtain ⟨e', he', -, hsel'⟩ := selected?_eq_some h
  obtain rfl : e = e' := Option.some.inj (he.symm.trans he')
  rw [hsel]
  exact congrArg some hsel'.symm

theorem selected?_push_of_ne (h : d.root ≠ root) :
    (p.push d).selected? root = p.selected? root := by
  cases hs : p.selected? root with
  | some sel => exact selected?_push_of_some hs
  | none =>
    rw [selected?_eq_none_iff] at hs ⊢
    intro e he
    rcases List.mem_append.1 he with he | he
    · exact hs e he
    · rw [List.mem_singleton.1 he]
      exact h

theorem selected?_push_self (h : p.selected? d.root = none) :
    (p.push d).selected? d.root = some (selection p.size d) := by
  have hmem : d ∈ (p.push d).decisions := List.mem_append_right _ (List.mem_singleton.2 rfl)
  obtain ⟨sel, hsel⟩ := exists_selected?_of_mem hmem
  obtain ⟨e, he, hroot, heq⟩ := selected?_eq_some hsel
  rcases decision?_push_eq he with ⟨-, he'⟩ | ⟨hi, rfl⟩
  · exact absurd hroot (selected?_eq_none_iff.1 h e (mem_of_decision? he'))
  · rw [hsel, heq, hi]

/-! ## Requirements -/

theorem requirements_push : (p.push d).requirements = p.requirements ++ d.added := by
  simp [requirements, push]

theorem mem_requirements_push {r : Requirement} (h : r ∈ p.requirements) :
    r ∈ (p.push d).requirements := by
  rw [requirements_push]
  exact List.mem_append_left _ h

theorem mem_requirementsOn {r : Requirement} :
    r ∈ p.requirementsOn root ↔ r ∈ p.requirements ∧ r.project.root = root := by
  simp [requirementsOn]

theorem mem_requirements_of_take {r : Requirement} (h : r ∈ (p.take n).requirements) :
    r ∈ p.requirements := by
  simp only [requirements, take, List.mem_append, List.mem_flatMap] at h ⊢
  rcases h with h | ⟨d, hd, hr⟩
  · exact .inl h
  · exact .inr ⟨d, List.mem_of_mem_take hd, hr⟩

/-- A project that waits comes with the requirements on it, one of which says where it is from. -/
theorem of_mem_waiting {project : Project} {requirements : List Requirement}
    (h : (project, requirements) ∈ p.waiting) :
    p.selected? project.root = none ∧ requirements = p.requirementsOn project.root ∧
      ∃ r ∈ requirements, r.project = project := by
  obtain ⟨root, hroot, h⟩ := List.mem_filterMap.1 h
  obtain ⟨r, hr, heq⟩ := Option.map_eq_some_iff.1 h
  have hmem : r ∈ p.requirementsOn root := List.mem_of_mem_head? hr
  obtain ⟨rfl, rfl⟩ := Prod.mk.inj heq
  obtain rfl := (mem_requirementsOn.1 hmem).2
  have hwait := (List.mem_filter.1 (SortedSet.mem_ofList.1 (SortedSet.mem_toList.1 hroot))).2
  rw [Option.isNone_iff_eq_none, index?_eq_none_iff] at hwait
  exact ⟨hwait, rfl, r, hmem, rfl⟩

/-- A project that is required and not decided on waits. -/
theorem exists_mem_waiting {r : Requirement} (hr : r ∈ p.requirements)
    (hs : p.selected? r.project.root = none) : p.waiting ≠ [] := by
  have hon : r ∈ p.requirementsOn r.project.root := mem_requirementsOn.2 ⟨hr, rfl⟩
  obtain ⟨r', hr'⟩ : ∃ r', (p.requirementsOn r.project.root).head? = some r' := by
    cases hl : p.requirementsOn r.project.root with
    | nil => simp [hl] at hon
    | cons r' l => exact ⟨r', rfl⟩
  have hroot : r.project.root ∈ p.waitingRoots.toList := by
    refine SortedSet.mem_toList.2 (SortedSet.mem_ofList.2 (List.mem_filter.2 ⟨?_, ?_⟩))
    · exact List.mem_map.2 ⟨r, hr, rfl⟩
    · rw [Option.isNone_iff_eq_none, index?_eq_none_iff]
      exact hs
  have hmem : (r'.project, p.requirementsOn r.project.root) ∈ p.waiting :=
    List.mem_filterMap.2 ⟨_, hroot, by simp [hr']⟩
  exact List.ne_nil_of_mem hmem

/-! ## The assignment that a partial solution stands for -/

/-- The versions chosen, as an assignment. -/
def picks (p : PartialSolution) : Picks :=
  fun root => (p.selected? root).map fun sel => (sel.project, sel.version)

theorem picks_eq_some {project : Project} {version : Version}
    (h : p.picks root = some (project, version)) :
    ∃ sel, p.selected? root = some sel ∧ sel.project = project ∧ sel.version = version := by
  simp only [picks, Option.map_eq_some_iff, Prod.mk.injEq] at h
  exact h

theorem picks_of_selected? (h : p.selected? root = some sel) :
    p.picks root = some (sel.project, sel.version) := by
  simp [picks, h]

end PartialSolution

namespace Trial

variable {t : Trial} {root : String} {r : Requirement}

/-- All requirements of a trial: those in force, and those that the version has brought. -/
def requirements (t : Trial) : List Requirement :=
  t.chosen.requirements ++ t.pending

theorem requirementsOn_eq : t.requirementsOn root =
    t.requirements.filter fun r => r.project.root = root := by
  simp [requirementsOn, requirements, PartialSolution.requirementsOn]

theorem mem_requirementsOn :
    r ∈ t.requirementsOn root ↔ r ∈ t.requirements ∧ r.project.root = root := by
  rw [requirementsOn_eq, List.mem_filter]
  simp

theorem mem_packagesOf {q : String} :
    q ∈ t.packagesOf root ↔ ∃ r ∈ t.requirements, r.project.root = root ∧ q ∈ r.packages := by
  simp only [packagesOf, Depsolve.mem_packagesOf, mem_requirementsOn, and_assoc]

theorem mem_requirements_require {r' : Requirement} :
    r' ∈ (t.require r).requirements ↔ r' ∈ t.requirements ∨ r' = r := by
  simp [requirements, require, or_assoc]

theorem mem_pending_require {r' : Requirement} :
    r' ∈ (t.require r).pending ↔ r' ∈ t.pending ∨ r' = r := by
  simp [require]

theorem mem_packagesOf_require {q : String} :
    q ∈ (t.require r).packagesOf root ↔
      q ∈ t.packagesOf root ∨ r.project.root = root ∧ q ∈ r.packages := by
  simp only [mem_packagesOf, mem_requirements_require]
  constructor
  · rintro ⟨r', hr | rfl, hroot, hq⟩
    · exact .inl ⟨r', hr, hroot, hq⟩
    · exact .inr ⟨hroot, hq⟩
  · rintro (⟨r', hr, hroot, hq⟩ | ⟨hroot, hq⟩)
    · exact ⟨r', .inl hr, hroot, hq⟩
    · exact ⟨r, .inr rfl, hroot, hq⟩

end Trial

end Depsolve
