import Mathlib.Data.List.Induction
import Depsolve.Solve.Nogood

/-!
# What the failure memo remembers

A memo is told failures and asked about them, in whatever order. `FailureMemo.mem_nogoods_after`
says which failures it has then: of those about the same candidate whose assignments read alike, the
first (`MemoCall.Keeps`). So a failure that it finds was recorded, and repeats itself; a failure
that repeats itself is found unless one was recorded before it that reads alike
(`FailureMemo.consult_after`).

Assignments that read alike need not be the same: a branch and a plain tag may have one text.
-/

namespace Depsolve

/-! ## Failures that read alike -/

theorem Version.same_iff {v w : Version} : v.same w = true ↔ v.canonical = w.canonical :=
  decide_eq_true_iff

namespace Version

/-- The text of the revision, which is empty if there is none. -/
def revisionText (v : Version) : String :=
  (v.revision?.map Revision.text).getD ""

/-- Two versions have the same text and the same text of their revisions. -/
def ReadsAs (v w : Version) : Prop :=
  v.toText = w.toText ∧ v.revisionText = w.revisionText

end Version

namespace Nogood

/-- Two failures are of one candidate, and their assignments have the same texts. -/
structure Alike (m n : Nogood) : Prop where
  project : m.project = n.project
  version : m.version.same n.version = true
  packages : m.packages = n.packages
  fields : fields m.assignment = fields n.assignment

theorem alike_iff {m n : Nogood} : m.Alike n ↔ (m.concerns n.project n.version n.packages &&
    fields m.assignment = fields n.assignment) = true := by
  simp only [concerns, Bool.and_eq_true, decide_eq_true_eq]
  exact ⟨fun h => ⟨⟨⟨h.project, h.version⟩, h.packages⟩, h.fields⟩,
    fun ⟨⟨⟨hproject, hversion⟩, hpackages⟩, hfields⟩ => ⟨hproject, hversion, hpackages, hfields⟩⟩

theorem Alike.refl (n : Nogood) : n.Alike n :=
  ⟨rfl, Version.same_iff.2 rfl, rfl, rfl⟩

theorem Alike.trans {k m n : Nogood} (h : k.Alike m) (h' : m.Alike n) : k.Alike n where
  project := h.project.trans h'.project
  version := Version.same_iff.2
    ((Version.same_iff.1 h.version).trans (Version.same_iff.1 h'.version))
  packages := h.packages.trans h'.packages
  fields := h.fields.trans h'.fields

/-- A failure repeats itself for a candidate: it is about it, and all versions of its
assignment are selected. -/
structure Recurs (project : String) (version : Version) (packages : SortedSet String)
    (selected : String → Option Version) (n : Nogood) : Prop where
  project : n.project = project
  version : n.version.same version = true
  packages : n.packages = packages
  selected : ∀ root v, n.assignment.get? root = some v → ∃ w, selected root = some w ∧
    w.same v = true

theorem recurs_iff {project : String} {version : Version} {packages : SortedSet String}
    {selected : String → Option Version} {n : Nogood} : n.Recurs project version packages selected ↔
      (n.concerns project version packages && n.holds selected) = true := by
  simp only [concerns, holds, Bool.and_eq_true, decide_eq_true_eq, List.all_eq_true,
    Option.any_eq_true]
  constructor
  · intro h
    exact ⟨⟨⟨h.project, h.version⟩, h.packages⟩,
      fun x hx => h.selected x.1 x.2 (SortedMap.get?_eq_some_iff.2 hx)⟩
  · rintro ⟨⟨⟨hproject, hversion⟩, hpackages⟩, hselected⟩
    exact ⟨hproject, hversion, hpackages, fun root v hv =>
      hselected (root, v) (SortedMap.get?_eq_some_iff.1 hv)⟩

/-- Assignments with the same texts give versions that read alike to the same projects. -/
theorem exists_readsAs_of_fields {a b : Assignment} (h : fields a = fields b)
    {root : String} {v : Version} (hv : a.get? root = some v) :
    ∃ w, b.get? root = some w ∧ v.ReadsAs w := by
  -- the texts come in threes, one for each entry
  have hlists : ∀ l l' : List (String × Version),
      l.flatMap (fun x => [x.1, x.2.toText, x.2.revisionText]) =
        l'.flatMap (fun x => [x.1, x.2.toText, x.2.revisionText]) →
      ∀ x ∈ l, ∃ y ∈ l', x.1 = y.1 ∧ x.2.ReadsAs y.2 := by
    intro l
    induction l with
    | nil => exact fun l' _ x hx => nomatch hx
    | cons x l ih =>
      intro l' heq
      cases l' with
      | nil => simp at heq
      | cons y l' =>
        simp only [List.flatMap_cons, List.cons_append, List.nil_append, List.cons.injEq] at heq
        obtain ⟨hroot, htext, hrevision, heq⟩ := heq
        refine List.forall_mem_cons.2 ⟨⟨y, List.mem_cons_self, hroot, htext, hrevision⟩,
          fun z hz => ?_⟩
        obtain ⟨z', hz', hreads⟩ := ih l' heq z hz
        exact ⟨z', List.mem_cons_of_mem _ hz', hreads⟩
  obtain ⟨⟨_, w⟩, hw, rfl, hreads⟩ := hlists _ _ h (root, v) (SortedMap.get?_eq_some_iff.1 hv)
  exact ⟨w, SortedMap.get?_eq_some_iff.2 hw, hreads⟩

end Nogood

/-! ## Calls -/

/-- A call to a memo. -/
inductive MemoCall
  | record (n : Nogood)
  | find (project : String) (version : Version) (packages : SortedSet String)
      (selected : String → Option Version)

namespace MemoCall

/-- The failures that some calls record. -/
def recorded (calls : List MemoCall) : List Nogood :=
  calls.filterMap fun
    | record n => some n
    | find .. => none

/-- Some calls record a failure, and none that reads alike before it. -/
def Keeps (calls : List MemoCall) (n : Nogood) : Prop :=
  ∃ before after, calls = before ++ record n :: after ∧ ∀ m ∈ recorded before, ¬ m.Alike n

/-- No two failures of one candidate are recorded with different versions of a project
that read alike. -/
def Distinct (calls : List MemoCall) : Prop :=
  ∀ m ∈ recorded calls, ∀ n ∈ recorded calls, m.project = n.project →
    m.version.same n.version = true →
    m.packages = n.packages → ∀ root v w, m.assignment.get? root = some v →
    n.assignment.get? root = some w →
      v.ReadsAs w → v.same w = true

variable {calls : List MemoCall} {n : Nogood}

theorem mem_recorded_append_record {m : Nogood} :
    m ∈ recorded (calls ++ [record n]) ↔ m ∈ recorded calls ∨ m = n := by
  simp [recorded, List.filterMap_append]

theorem recorded_append_find {project : String} {version : Version} {packages : SortedSet String}
    {selected : String → Option Version} :
    recorded (calls ++ [find project version packages selected]) = recorded calls := by
  simp [recorded, List.filterMap_append]

theorem Keeps.mem_recorded (h : Keeps calls n) : n ∈ recorded calls := by
  obtain ⟨before, after, rfl, -⟩ := h
  simp [recorded, List.filterMap_append]

theorem keeps_append_singleton {call : MemoCall} : Keeps (calls ++ [call]) n ↔
    Keeps calls n ∨ (call = record n ∧ ∀ m ∈ recorded calls, ¬ m.Alike n) := by
  constructor
  · rintro ⟨before, after, heq, hfirst⟩
    rcases List.eq_nil_or_concat after with rfl | ⟨after, last, rfl⟩
    · obtain ⟨rfl, hcall⟩ := List.append_inj' heq rfl
      exact .inr ⟨List.singleton_inj.1 hcall, hfirst⟩
    · rw [List.concat_eq_append, ← List.cons_append, ← List.append_assoc] at heq
      obtain ⟨rfl, -⟩ := List.append_inj' heq rfl
      exact .inl ⟨before, after, rfl, hfirst⟩
  · rintro (⟨before, after, rfl, hfirst⟩ | ⟨rfl, hfirst⟩)
    · exact ⟨before, after ++ [call], by simp, hfirst⟩
    · exact ⟨calls, [], rfl, hfirst⟩

/-- If no failure that is kept reads like another, none that was recorded does. -/
theorem forall_recorded_iff :
    (∀ m ∈ recorded calls, ¬ m.Alike n) ↔ ∀ m, Keeps calls m → ¬ m.Alike n := by
  refine ⟨fun h m hm => h m hm.mem_recorded, fun h => ?_⟩
  induction calls using List.reverseRecOn with
  | nil => exact fun m hm => nomatch hm
  | append_singleton calls call ih =>
    have hrecorded := ih fun m hm => h m (keeps_append_singleton.2 (.inl hm))
    cases call with
    | find => rwa [recorded_append_find]
    | record k =>
      intro m hm halike
      rcases mem_recorded_append_record.1 hm with hm | rfl
      · exact hrecorded m hm halike
      · -- the last one is kept, since one like it would be like `n` as well
        exact h m (keeps_append_singleton.2
          (.inr ⟨rfl, fun k hk hk' => hrecorded k hk (hk'.trans halike)⟩)) halike

/-- Of the failures that read alike, one is kept. -/
theorem exists_keeps (h : n ∈ recorded calls) : ∃ m, Keeps calls m ∧ m.Alike n := by
  by_contra hnone
  exact forall_recorded_iff.2 (fun m hm halike => hnone ⟨m, hm, halike⟩) n h (.refl n)

/-- A failure that repeats itself is kept, or another that repeats itself, if different versions of
a project always read differently. -/
theorem Distinct.exists_keeps (hdistinct : Distinct calls) {project : String} {version : Version}
    {packages : SortedSet String} {selected : String → Option Version} (h : n ∈ recorded calls)
    (hrecurs : n.Recurs project version packages selected) :
    ∃ m, Keeps calls m ∧ m.Recurs project version packages selected := by
  obtain ⟨m, hm, halike⟩ := MemoCall.exists_keeps h
  refine ⟨m, hm, halike.project.trans hrecurs.project, ?_, halike.packages.trans hrecurs.packages,
    fun root v hv => ?_⟩
  · exact Version.same_iff.2
      ((Version.same_iff.1 halike.version).trans (Version.same_iff.1 hrecurs.version))
  · obtain ⟨w, hw, hreads⟩ := Nogood.exists_readsAs_of_fields halike.fields hv
    have hsame :=
      hdistinct m hm.mem_recorded n h halike.project halike.version halike.packages root v w hv hw
      hreads
    obtain ⟨current, hcurrent, hsame'⟩ := hrecurs.selected root w hw
    exact ⟨current, hcurrent,
      Version.same_iff.2 ((Version.same_iff.1 hsame').trans (Version.same_iff.1 hsame).symm)⟩

end MemoCall

namespace FailureMemo

variable {memo : FailureMemo} {n : Nogood}

/-- What a memo answers to a call, and the memo after it. -/
def answer (memo : FailureMemo) : MemoCall → Option (List String) × FailureMemo
  | .record n => (none, memo.record n)
  | .find project version packages selected => memo.consult project version packages selected

/-- The memo after some calls. -/
def after (calls : List MemoCall) : FailureMemo :=
  calls.foldl (fun memo call => (memo.answer call).2) empty

theorem after_append_singleton (calls : List MemoCall) (call : MemoCall) :
    after (calls ++ [call]) = ((after calls).answer call).2 := by
  rw [after, List.foldl_append]
  rfl

/-! ## What a call does -/

/-- A failure is added unless one that reads alike is there. -/
theorem mem_nogoods_record {m : Nogood} : m ∈ (memo.record n).nogoods ↔
    m ∈ memo.nogoods ∨ (m = n ∧ ∀ k ∈ memo.nogoods, ¬ k.Alike n) := by
  unfold record
  dsimp only
  split
  · rename_i hknown
    obtain ⟨k, hk, hlike⟩ := List.any_eq_true.1 hknown
    exact ⟨.inl,
      fun h => h.elim id fun ⟨_, hnone⟩ => absurd (Nogood.alike_iff.2 hlike) (hnone k hk)⟩
  · rename_i hunknown
    have hnone : ∀ k ∈ memo.nogoods, ¬ k.Alike n := fun k hk hlike =>
      hunknown (List.any_eq_true.2 ⟨k, hk, Nogood.alike_iff.1 hlike⟩)
    rw [List.mem_append, List.mem_singleton, and_iff_left hnone]

/-- Remembering a failure adds at most that one. -/
theorem mem_record {m : Nogood} (h : n ∈ (memo.record m).nogoods) : n ∈ memo.nogoods ∨ n = m :=
  (mem_nogoods_record.1 h).imp_right And.left

section Consult

variable {memo' : FailureMemo} {root : String} {v : Version} {packages : SortedSet String}
  {selected : String → Option Version}

/-- A failure that is found again is one that was remembered, of the same version with the same
packages, under versions that are selected. -/
theorem consult_eq_some {roots : List String}
    (h : memo.consult root v packages selected = (some roots, memo')) :
    ∃ n ∈ memo.nogoods, roots = n.assignment.keys ∧ n.project = root ∧ n.version.same v = true ∧
      n.packages = packages ∧
        ∀ x ∈ n.assignment.entries, ∃ w, selected x.1 = some w ∧ w.same x.2 = true := by
  unfold consult at h
  split at h
  · rename_i n hn
    have hfound := List.find?_some hn
    have hrecurs := Nogood.recurs_iff.2 hfound
    exact ⟨n, List.mem_of_find?_eq_some hn, (Option.some.inj (Prod.mk.inj h).1).symm,
      hrecurs.project, hrecurs.version, hrecurs.packages,
      fun x hx => hrecurs.selected x.1 x.2 (SortedMap.get?_eq_some_iff.2 hx)⟩
  · simp at h

/-- Looking for a failure forgets none and adds none. -/
theorem nogoods_consult {roots : Option (List String)}
    (h : memo.consult root v packages selected = (roots, memo')) :
    memo'.nogoods = memo.nogoods := by
  unfold consult at h
  split at h
  · rw [← (Prod.mk.inj h).2]
  · rw [← (Prod.mk.inj h).2]

/-- A failure is found just if a remembered one repeats itself. -/
theorem isSome_consult_iff : (memo.consult root v packages selected).1.isSome = true ↔
    ∃ n ∈ memo.nogoods, n.Recurs root v packages selected := by
  unfold consult find?
  constructor
  · intro h
    split at h
    · rename_i n hn
      have hfound := List.find?_some hn
      exact ⟨n, List.mem_of_find?_eq_some hn, Nogood.recurs_iff.2 hfound⟩
    · exact nomatch h
  · rintro ⟨n, hn, hrecurs⟩
    split
    · rfl
    · rename_i hnone
      exact absurd (Nogood.recurs_iff.1 hrecurs) (List.find?_eq_none.1 hnone n hn)

end Consult

/-! ## What calls do -/

open MemoCall in
/-- After some calls, a memo has the failures that they keep. -/
theorem mem_nogoods_after {calls : List MemoCall} : n ∈ (after calls).nogoods ↔ Keeps calls n := by
  induction calls using List.reverseRecOn generalizing n with
  | nil =>
    constructor
    · exact fun h => nomatch h
    · rintro ⟨before, after, heq, -⟩
      simp at heq
  | append_singleton calls call ih =>
    rw [after_append_singleton, keeps_append_singleton]
    cases call with
    | record m =>
      have hnone : (∀ k ∈ (after calls).nogoods, ¬ k.Alike m) ↔
          ∀ k ∈ recorded calls, ¬ k.Alike m := by
        rw [forall_recorded_iff]
        exact forall_congr' fun k => imp_congr ih Iff.rfl
      rw [answer, mem_nogoods_record, ih, hnone, MemoCall.record.injEq]
      exact or_congr_right ⟨fun ⟨he, h⟩ => ⟨he.symm, he ▸ h⟩, fun ⟨he, h⟩ => ⟨he.symm, he ▸ h⟩⟩
    | find project version packages selected =>
      have hnogoods : ((after calls).answer (.find project version packages selected)).2.nogoods =
          (after calls).nogoods := nogoods_consult (Prod.eta _).symm
      rw [hnogoods, ih]
      exact ⟨.inl, fun h => h.elim id fun ⟨he, _⟩ => nomatch he⟩

open MemoCall in
/-- What a memo finds after some calls was recorded and repeats itself, and the roots are those
of its assignment in ascending order. It finds something just if a failure that it keeps
repeats itself; and just if any recorded one does, if different versions of a project always
read differently. -/
theorem consult_after (calls : List MemoCall) (project : String) (version : Version)
    (packages : SortedSet String) (selected : String → Option Version) :
    (∀ roots, ((after calls).consult project version packages selected).1 = some roots →
      ∃ n ∈ recorded calls, n.Recurs project version packages selected ∧ roots = n.assignment.keys ∧
        roots.Pairwise (· < ·)) ∧
    (((after calls).consult project version packages selected).1.isSome = true ↔
      ∃ n, Keeps calls n ∧ n.Recurs project version packages selected) ∧
    (Distinct calls → (((after calls).consult project version packages selected).1.isSome = true ↔
      ∃ n ∈ recorded calls, n.Recurs project version packages selected)) := by
  have hkeeps : ((after calls).consult project version packages selected).1.isSome = true ↔
      ∃ n, Keeps calls n ∧ n.Recurs project version packages selected := by
    rw [isSome_consult_iff]
    exact exists_congr fun n => and_congr_left' mem_nogoods_after
  refine ⟨fun roots h => ?_, hkeeps, fun hdistinct => hkeeps.trans ⟨?_, ?_⟩⟩
  · obtain ⟨n, hn, rfl, hproject, hversion, hpackages, hselected⟩ :=
      consult_eq_some (Prod.ext h rfl : _ = (some roots, _))
    exact ⟨n, (mem_nogoods_after.1 hn).mem_recorded,
      ⟨hproject, hversion, hpackages, fun root v hv =>
      hselected (root, v) (SortedMap.get?_eq_some_iff.1 hv)⟩, rfl,
      List.pairwise_map.2 n.assignment.ascending⟩
  · rintro ⟨n, hn, hrecurs⟩
    exact ⟨n, hn.mem_recorded, hrecurs⟩
  · rintro ⟨n, hn, hrecurs⟩
    exact hdistinct.exists_keeps hn hrecurs

end FailureMemo

/-- The selection of one version of a library. -/
def selectingLibrary (library : Named) (root : String) : Option Version :=
  if root = "example.com/lib" then some (.bound ⟨library, ⟨"b1"⟩⟩) else none

theorem eq_of_selectingLibrary {library : Named} {root : String} {v : Version}
    (h : selectingLibrary library root = some v) : v = .bound ⟨library, ⟨"b1"⟩⟩ := by
  unfold selectingLibrary at h
  split at h
  · exact (Option.some.inj h).symm
  · exact nomatch h

/-- The failure of a tool under a version of the library. -/
def Nogood.ofTool (library : Named) : Nogood :=
  ⟨"example.com/tool", .revision ⟨"a1"⟩, .empty,
    .ofList [("example.com/lib", .bound ⟨library, ⟨"b1"⟩⟩)]⟩

theorem Nogood.get?_ofTool (library : Named) (root : String) :
    (ofTool library).assignment.get? root = selectingLibrary library root :=
  SortedMap.get?_insert _ _ _ _

theorem Nogood.recurs_ofTool (library : Named) :
    (ofTool library).Recurs "example.com/tool" (.revision ⟨"a1"⟩) .empty
      (selectingLibrary library) :=
  ⟨rfl, Version.same_iff.2 rfl, rfl, fun root v hv => ⟨v, get?_ofTool library root ▸ hv,
    Version.same_iff.2 rfl⟩⟩

/-- The tool fails under two branches of the library, which differ in their texts: both
failures are found. -/
theorem FailureMemo.consult_after_of_branches :
    MemoCall.Distinct [.record (.ofTool (.branch "main" true)),
      .record (.ofTool (.branch "dev" false))] ∧
    ((after [.record (.ofTool (.branch "main" true)),
      .record (.ofTool (.branch "dev" false))]).consult
      "example.com/tool" (.revision ⟨"a1"⟩) .empty
        (selectingLibrary (.branch "dev" false))).1.isSome = true := by
  have hdistinct : MemoCall.Distinct
      [.record (.ofTool (.branch "main" true)), .record (.ofTool (.branch "dev" false))] := by
    have hrecorded : ∀ n ∈ MemoCall.recorded
        [.record (.ofTool (.branch "main" true)), .record (.ofTool (.branch "dev" false))],
        n = .ofTool (.branch "main" true) ∨ n = .ofTool (.branch "dev" false) := by
      simp [MemoCall.recorded]
    intro m hm n hn _ _ _ root v w hv hw hreads
    rcases hrecorded m hm with rfl | rfl <;> rcases hrecorded n hn with rfl | rfl <;>
      rw [Nogood.get?_ofTool] at hv hw <;>
      obtain rfl := eq_of_selectingLibrary hv <;> obtain rfl := eq_of_selectingLibrary hw
    · exact Version.same_iff.2 rfl
    · exact absurd hreads.1 (by decide)
    · exact absurd hreads.1 (by decide)
    · exact Version.same_iff.2 rfl
  exact ⟨hdistinct, ((consult_after _ _ _ _ _).2.2 hdistinct).2
    ⟨.ofTool (.branch "dev" false), by simp [MemoCall.recorded], Nogood.recurs_ofTool _⟩⟩

/-- The tool fails under a branch of the library and under a tag with the same text: the latter
failure is not found when the tag is selected again. -/
theorem FailureMemo.consult_after_of_twins :
    (∃ n ∈ MemoCall.recorded [.record (.ofTool (.branch "main" true)),
      .record (.ofTool (.plain "main"))], n.Recurs "example.com/tool" (.revision ⟨"a1"⟩) .empty
        (selectingLibrary (.plain "main"))) ∧
    ((after [.record (.ofTool (.branch "main" true)), .record (.ofTool (.plain "main"))]).consult
      "example.com/tool" (.revision ⟨"a1"⟩) .empty (selectingLibrary (.plain "main"))).1 = none :=
  ⟨⟨_, by simp [MemoCall.recorded], Nogood.recurs_ofTool (.plain "main")⟩, by decide +kernel⟩

end Depsolve
