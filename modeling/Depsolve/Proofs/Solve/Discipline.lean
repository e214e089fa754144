import Depsolve.Proofs.Solve.Course

/-!
# The stack discipline of searches

The frames of a search are its decisions and, above them, the project at hand. `Search.Disciplined`
says how frames and requirements go together in a state of a search; a requirement knows the
decision that brought it, so that going back to a decision leaves the requirements of the earlier
ones, in their order (`PartialSolution.Ordered.requirements_take`).

While a frame is there, nothing changes below it (`Solver.Moves.take_eq`). A jump back to a frame
therefore finds everything as it was when the frame was pushed.
-/

namespace Depsolve

/-! ## Who brought a requirement -/

/-- Each requirement names the decision that brought it, and as its depender a decision
that is not later. -/
structure PartialSolution.Ordered (p : PartialSolution) : Prop where
  base : ∀ r ∈ p.base, r.owner = none ∧ r.depender = none
  added : ∀ i d, p.decision? i = some d → ∀ r ∈ d.added, r.owner = some i ∧
    ∃ j ≤ i, r.depender = some j

namespace PartialSolution

variable {u : Universe} {problem : Problem} {options : SolveOptions} {limits : Limits}
  {p : PartialSolution}

theorem mem_requirements {r : Requirement} :
    r ∈ p.requirements ↔ r ∈ p.base ∨ ∃ i d, p.decision? i = some d ∧ r ∈ d.added := by
  rw [requirements, List.mem_append, List.mem_flatMap]
  constructor
  · rintro (h | ⟨d, hd, hr⟩)
    · exact .inl h
    · obtain ⟨i, hi⟩ := List.mem_iff_getElem?.1 hd
      exact .inr ⟨i, d, hi, hr⟩
  · rintro (h | ⟨i, d, hi, hr⟩)
    · exact .inl h
    · exact .inr ⟨d, mem_of_decision? hi, hr⟩

theorem ordered_of_reached (h : (u.solver problem options limits).Reached p) : p.Ordered := by
  induction h with
  | @base base hb =>
    refine ⟨fun r hr => ?_, fun i d hd => ?_⟩
    · obtain ⟨howner, hdepender, -⟩ := (Solver.baseRequirements_ok hb).2 r hr
      exact ⟨howner, hdepender⟩
    · simp [decision?] at hd
  | @push p f v added hp ho ha ih =>
    obtain ⟨-, -, -, -, hbrings⟩ := exists_trial_of_accepts ho ha
    refine ⟨ih.base, fun i d hd r hr => ?_⟩
    rcases decision?_push_eq hd with ⟨-, hd⟩ | ⟨rfl, rfl⟩
    · exact ih.added i d hd r hr
    · obtain ⟨sel, hs, hdepender⟩ := (hbrings r hr).depender
      have hlt : sel.index < (p.push ⟨f, v, []⟩).size := selected?_lt hs
      rw [size_push] at hlt
      exact ⟨by rw [(hbrings r hr).owner, trial_owner], sel.index, by omega, hdepender⟩

namespace Ordered

/-- A requirement is one of the project being solved, or goes back to decisions that were made. -/
theorem owner_depender (h : p.Ordered) {r : Requirement} (hr : r ∈ p.requirements) :
    (r.owner = none ∧ r.depender = none) ∨
      ∃ o d, r.owner = some o ∧ r.depender = some d ∧ d ≤ o ∧ o < p.size := by
  rcases mem_requirements.1 hr with hr | ⟨i, d, hd, hr⟩
  · exact .inl (h.base r hr)
  · obtain ⟨howner, j, hj, hdepender⟩ := h.added i d hd r hr
    exact .inr ⟨i, j, howner, hdepender, hj, decision?_lt hd⟩

theorem owner_lt (h : p.Ordered) {r : Requirement} (hr : r ∈ p.requirements) {o : Nat}
    (ho : r.owner = some o) : o < p.size := by
  rcases h.owner_depender hr with ⟨hnone, -⟩ | ⟨o', d, ho', -, -, hlt⟩
  · rw [hnone] at ho
    simp at ho
  · obtain rfl : o = o' := Option.some.inj (ho.symm.trans ho')
    exact hlt

/-- The requirements of the first decisions are those that none of the others owns. -/
theorem requirements_take (h : p.Ordered) (t : Nat) :
    (p.take t).requirements = p.requirements.filter fun r => r.owner.all (· < t) := by
  have hsplit : p.requirements =
      (p.take t).requirements ++ (p.decisions.drop t).flatMap Decision.added := by
    simp only [requirements, take, List.append_assoc, ← List.flatMap_append, List.take_append_drop]
  have hkept : ∀ r ∈ (p.take t).requirements, r.owner.all (· < t) = true := by
    intro r hr
    rcases mem_requirements.1 hr with hr | ⟨i, d, hd, hr⟩
    · have hbase : r ∈ p.base := hr
      rw [(h.base r hbase).1]
      rfl
    · have hi : i < t := Nat.lt_of_lt_of_le (decision?_lt hd) size_take_le
      rw [decision?_take hi] at hd
      rw [(h.added i d hd r hr).1]
      simpa using hi
  have hdropped : ∀ r ∈ (p.decisions.drop t).flatMap Decision.added,
      ¬ r.owner.all (· < t) = true := by
    intro r hr
    obtain ⟨d, hd, hr⟩ := List.mem_flatMap.1 hr
    obtain ⟨i, hi⟩ := List.mem_iff_getElem?.1 hd
    rw [List.getElem?_drop] at hi
    rw [(h.added (t + i) d hi r hr).1]
    simp
  rw [hsplit, List.filter_append, List.filter_eq_self.2 hkept, List.filter_eq_nil_iff.2 hdropped,
    List.append_nil]

end Ordered

end PartialSolution

/-! ## Frames -/

namespace Search

/-- The frames of a search from the bottom, with the version chosen in each; the project at
hand has none yet. -/
def frames (s : Search) : List (Frame × Option Version) :=
  (s.chosen.decisions.map fun d => (d.frame, some d.version)) ++
    match s.phase with
    | .deciding => []
    | .trying f => [(f, none)]

/-- What holds of frames and requirements in every state of a search. -/
structure Disciplined (s : Search) : Prop where
  /-- There is one frame for a root. -/
  distinct : (s.frames.map fun f => f.1.project.root).Nodup
  /-- Below the top, each frame has a version. -/
  versioned : ∀ i f v, s.frames[i]? = some (f, v) → i + 1 < s.frames.length → v ≠ none
  /-- A requirement is one of the project being solved, or goes back to frames that are there. -/
  framed : ∀ r ∈ s.chosen.requirements, (r.owner = none ∧ r.depender = none) ∨
    ∃ o d, r.owner = some o ∧ r.depender = some d ∧ d ≤ o ∧ o < s.frames.length
  /-- Each frame is for a root that was required before. -/
  named : ∀ i f v, s.frames[i]? = some (f, v) → ∃ r ∈ s.chosen.requirements,
    r.project.root = f.project.root ∧ ∀ o, r.owner = some o → o < i

variable {s : Search} {f : Frame}

theorem frames_of_deciding (h : s.phase = .deciding) :
    s.frames = s.chosen.decisions.map fun d => (d.frame, some d.version) := by
  rw [frames, h, List.append_nil]

theorem frames_of_trying (h : s.phase = .trying f) :
    s.frames = (s.chosen.decisions.map fun d => (d.frame, some d.version)) ++ [(f, none)] := by
  rw [frames, h]

theorem length_frames_of_deciding (h : s.phase = .deciding) : s.frames.length = s.chosen.size := by
  rw [frames_of_deciding h, List.length_map, PartialSolution.size]

theorem length_frames_of_trying (h : s.phase = .trying f) :
    s.frames.length = s.chosen.size + 1 := by
  rw [frames_of_trying h, List.length_append, List.length_map, PartialSolution.size]
  rfl

theorem size_le_length_frames : s.chosen.size ≤ s.frames.length := by
  cases h : s.phase with
  | deciding => exact Nat.le_of_eq (length_frames_of_deciding h).symm
  | trying f =>
    rw [length_frames_of_trying h]
    exact Nat.le_succ _

theorem frames_getElem? {i : Nat} {v : Option Version} (h : s.frames[i]? = some (f, v)) :
    (∃ d, s.chosen.decision? i = some d ∧ f = d.frame ∧ v = some d.version) ∨
      (i = s.chosen.size ∧ s.phase = .trying f ∧ v = none) := by
  unfold frames at h
  by_cases hi : i < s.chosen.size
  · obtain ⟨d, hd⟩ := PartialSolution.exists_decision? hi
    have hd' : s.chosen.decisions[i]? = some d := hd
    rw [List.getElem?_append_left (by simpa [PartialSolution.size] using hi),
      List.getElem?_map, hd'] at h
    obtain ⟨rfl, rfl⟩ := Prod.mk.inj (Option.some.inj h)
    exact .inl ⟨d, hd, rfl, rfl⟩
  · rw [List.getElem?_append_right (by simpa [PartialSolution.size] using hi), List.length_map] at h
    cases hphase : s.phase with
    | deciding => simp [hphase] at h
    | trying g =>
      simp only [hphase, List.getElem?_singleton] at h
      split at h
      · rename_i hzero
        obtain ⟨rfl, rfl⟩ := Prod.mk.inj (Option.some.inj h)
        have hsize : s.chosen.size = s.chosen.decisions.length := rfl
        exact .inr ⟨by omega, rfl, rfl⟩
      · simp at h

end Search

namespace Solver

variable {u : Universe} {problem : Problem} {options : SolveOptions} {limits : Limits}

theorem Grounded.distinct_frames {search : Search}
    (h : (u.solver problem options limits).Grounded search) :
    (search.frames.map fun f => f.1.project.root).Nodup := by
  have hsound := PartialSolution.sound_of_reached h.reached
  have hroots : (search.chosen.decisions.map fun d => (d.frame, some d.version)).map
      (fun f => f.1.project.root) = search.chosen.decisions.map Decision.root := by
    rw [List.map_map]
    rfl
  cases hphase : search.phase with
  | deciding =>
    rw [Search.frames_of_deciding hphase, hroots]
    exact hsound.distinct
  | trying f =>
    rw [Search.frames_of_trying hphase, List.map_append, hroots]
    refine List.nodup_append.2 ⟨hsound.distinct, List.pairwise_singleton _ _, fun a ha b hb => ?_⟩
    obtain ⟨d, hd, rfl⟩ := List.mem_map.1 ha
    have hne := PartialSolution.selected?_eq_none_iff.1 (h.opens f hphase).selected? d hd
    rw [List.mem_singleton.1 hb]
    exact hne

/-- Each frame was pushed for a project that was required by then. -/
theorem Grounded.named_frames {search : Search}
    (h : (u.solver problem options limits).Grounded search) {i : Nat} {f : Frame}
    {v : Option Version} (hf : search.frames[i]? = some (f, v)) :
    ∃ r ∈ search.chosen.requirements, r.project.root = f.project.root ∧
      ∀ o, r.owner = some o → o < i := by
  rcases Search.frames_getElem? hf with ⟨d, hd, rfl, -⟩ | ⟨rfl, hphase, -⟩
  · obtain ⟨hreached, hopens, -⟩ := h.reached.decision hd
    obtain ⟨r, hr, -, hproject⟩ :=
      (PartialSolution.sound_of_reached hreached).required_of_opens hopens
    have hordered := PartialSolution.ordered_of_reached hreached
    refine ⟨r, ?_, by rw [hproject], fun o ho => ?_⟩
    · rw [(PartialSolution.ordered_of_reached h.reached).requirements_take] at hr
      exact (List.mem_filter.1 hr).1
    · exact Nat.lt_of_lt_of_le (hordered.owner_lt hr ho) PartialSolution.size_take_le
  · obtain ⟨r, hr, -, hproject⟩ :=
      (PartialSolution.sound_of_reached h.reached).required_of_opens (h.opens f hphase)
    exact ⟨r, hr, by rw [hproject], fun o ho =>
      (PartialSolution.ordered_of_reached h.reached).owner_lt hr ho⟩

theorem Grounded.disciplined {search : Search}
    (h : (u.solver problem options limits).Grounded search) : search.Disciplined := by
  refine ⟨h.distinct_frames, fun i f v hf hlt => ?_, fun r hr => ?_,
    fun i f v hf => h.named_frames hf⟩
  · rcases Search.frames_getElem? hf with ⟨d, -, -, rfl⟩ | ⟨rfl, hphase, -⟩
    · exact Option.some_ne_none _
    · rw [Search.length_frames_of_trying hphase] at hlt
      exact absurd hlt (Nat.lt_irrefl _)
  · rcases (PartialSolution.ordered_of_reached h.reached).owner_depender hr with
      hnone | ⟨o, d, ho, hd, hle, hlt⟩
    · exact .inl hnone
    · exact .inr ⟨o, d, ho, hd, hle, Nat.lt_of_lt_of_le hlt Search.size_le_length_frames⟩

/-! ## What moves leave alone -/

variable {search next : Search}

/-- A move pushes at most one frame, and only when the next project is picked. -/
theorem Moves.length_frames (h : (u.solver problem options limits).Moves search next) :
    next.frames.length ≤ search.frames.length ∨
      (search.phase = .deciding ∧ next.chosen = search.chosen ∧
        next.frames.length = search.frames.length + 1) := by
  cases h with
  | select hphase hc hchosen hnext =>
    refine .inr ⟨hphase, hchosen, ?_⟩
    rw [Search.length_frames_of_deciding hphase, Search.length_frames_of_trying hnext, hchosen]
  | accept hphase hcand ha hchosen hnext =>
    refine .inl (Nat.le_of_eq ?_)
    rw [Search.length_frames_of_trying hphase, Search.length_frames_of_deciding hnext, hchosen,
      PartialSolution.size_push]
  | drop hphase hcand hchosen hnext hproject hleft =>
    refine .inl (Nat.le_of_eq ?_)
    rw [Search.length_frames_of_trying hphase, Search.length_frames_of_trying hnext, hchosen]
  | jump hphase hd hchosen hnext hproject hleft =>
    have hlt := PartialSolution.decision?_lt hd
    have hle := Search.size_le_length_frames (s := search)
    refine .inl ?_
    rw [Search.length_frames_of_trying hnext, hchosen, PartialSolution.size_take (Nat.le_of_lt hlt)]
    omega

/-- As long as a frame is there, the decisions below it stay as they are. -/
theorem Moves.take_eq (h : (u.solver problem options limits).Moves search next) {t : Nat}
    (ht : t < search.frames.length) (ht' : t < next.frames.length) :
    next.chosen.take t = search.chosen.take t := by
  cases h with
  | select hphase hc hchosen hnext => rw [hchosen]
  | accept hphase hcand ha hchosen hnext =>
    have hle : t ≤ search.chosen.size := by
      rw [Search.length_frames_of_trying hphase] at ht
      omega
    rw [hchosen, PartialSolution.take_push hle]
  | drop hphase hcand hchosen hnext hproject hleft => rw [hchosen]
  | @jump i d f' hphase hd hchosen hnext hproject hleft =>
    have hle : t ≤ i := by
      rw [Search.length_frames_of_trying hnext, hchosen,
        PartialSolution.size_take (Nat.le_of_lt (PartialSolution.decision?_lt hd))] at ht'
      omega
    rw [hchosen, PartialSolution.take_take hle]

/-- A step that is counted as a jump goes back to the frame of a decision. -/
theorem Steps.jump_of_backtracks {s : Solver Unit} {res : Except Stop Progress}
    (h : s.Steps search res) (hres : res = .ok (.ongoing next))
    (hcount : next.backtracks ≠ search.backtracks) :
    ∃ i d f, search.chosen.decision? i = some d ∧ next.chosen = search.chosen.take i ∧
      next.phase = .trying f := by
  cases h with
  | unanswered => simp at hres
  | complete => simp at hres
  | halt => simp at hres
  | stuck =>
    obtain ⟨i, d, hd, -, -, hchosen, hphase, -⟩ :=
      Search.backjump_ok (Progress.ofJump_eq_ongoing hres)
    exact ⟨i, d, _, hd, hchosen, hphase⟩
  | spent =>
    obtain ⟨i, d, hd, -, -, hchosen, hphase, -⟩ :=
      Search.backjump_ok (Progress.ofJump_eq_ongoing hres)
    exact ⟨i, d, _, hd, hchosen, hphase⟩
  | select =>
    obtain rfl : _ = next := by simpa using hres
    exact absurd rfl hcount
  | prune =>
    obtain rfl : _ = next := by simpa using hres
    exact absurd rfl hcount
  | accept =>
    obtain rfl : _ = next := by simpa using hres
    exact absurd rfl hcount
  | reject =>
    obtain rfl : _ = next := by simpa using hres
    exact absurd rfl hcount

end Solver

/-! ## Jumps restore -/

namespace Provider

variable {p : Provider} {problem : Problem} {options : SolveOptions} {n t : Nat}

/-- The frame of a number, from the bottom, that is there after `n` steps was pushed by the step
after `m`, and was there ever since. -/
structure Pushed (p : Provider) (problem : Problem) (options : SolveOptions) (t m n : Nat)
    (before : Search) : Prop where
  at_push : p.searchAt problem options m = some before
  length_before : before.frames.length = t
  lt : m < n
  stays : ∀ k search, m < k → k ≤ n → p.searchAt problem options k = some search →
    t < search.frames.length

/-- Each frame was pushed at some time, and the decisions below it are those of that time. -/
theorem exists_pushed {search : Search} (h : p.searchAt problem options n = some search)
    (ht : t < search.frames.length) :
    ∃ m before, p.Pushed problem options t m n before ∧ search.chosen.take t = before.chosen := by
  induction n generalizing search with
  | zero =>
    obtain ⟨base, rfl⟩ := searchAt_zero h
    exact absurd ht (Nat.not_lt_zero t)
  | succ n ih =>
    obtain ⟨last, hlast, hstep⟩ := searchAt_succ h
    have hmoves := Solver.walks_step.moves hstep
    by_cases hlt : t < last.frames.length
    -- the frame was there before the last step
    · obtain ⟨m, before, hpushed, htake⟩ := ih hlast hlt
      refine ⟨m, before, ⟨hpushed.at_push, hpushed.length_before, Nat.lt_succ_of_lt hpushed.lt, ?_⟩,
        ?_⟩
      · intro k other hmk hk hother
        by_cases hkn : k ≤ n
        · exact hpushed.stays k other hmk hkn hother
        · obtain rfl : k = n + 1 := by omega
          obtain rfl : search = other := Option.some.inj (h.symm.trans hother)
          exact ht
      · rw [hmoves.take_eq hlt ht, htake]
    -- the last step pushed it
    · obtain ⟨hphase, hchosen, hlength⟩ := hmoves.length_frames.resolve_left (by omega)
      have hsize := Search.length_frames_of_deciding hphase
      refine ⟨n, last, ⟨hlast, by omega, Nat.lt_succ_self n, ?_⟩, ?_⟩
      · intro k other hnk hk hother
        obtain rfl : k = n + 1 := by omega
        obtain rfl : search = other := Option.some.inj (h.symm.trans hother)
        exact ht
      · obtain rfl : t = last.chosen.size := by omega
        rw [hchosen, PartialSolution.take_size]

/-- After a jump back to a frame, the requirements are those in force when the frame was pushed, and
the frames below are as they were then. -/
structure Restored (before search next : Search) (t : Nat) : Prop where
  requirements : next.chosen.requirements = before.chosen.requirements
  /-- These are the requirements that no later decision owns. -/
  retained : next.chosen.requirements =
    search.chosen.requirements.filter fun r => r.owner.all (· < t)
  frames : next.frames.take t = before.frames

/-- A search keeps the stack discipline in every state, and restores what was there at every
jump. -/
theorem searchAt_disciplined (p : Provider) (problem : Problem) (options : SolveOptions) :
    (∀ n search, p.searchAt problem options n = some search → search.Disciplined) ∧
      ∀ n t search next, p.searchAt problem options n = some search →
        p.searchAt problem options (n + 1) = some next → next.backtracks = search.backtracks + 1 →
          next.frames.length = t + 1 →
            ∃ m before, p.Pushed problem options t m n before ∧ Restored before search next t := by
  refine ⟨fun n search h => (searchAt_visits h).grounded.disciplined,
    fun n t search next h hnext hcount hlength => ?_⟩
  obtain ⟨search', h', hstep⟩ := searchAt_succ hnext
  obtain rfl : search = search' := Option.some.inj (h.symm.trans h')
  obtain ⟨i, d, f, hd, hchosen, hphase⟩ :=
    (hstep ▸ Solver.steps p.world problem options p.world.limits search).jump_of_backtracks rfl
      (by omega)
  have hlt := PartialSolution.decision?_lt hd
  -- the jump goes back to the frame whose number is the length of what is left
  obtain rfl : t = i := by
    rw [Search.length_frames_of_trying hphase, hchosen,
      PartialSolution.size_take (Nat.le_of_lt hlt)] at hlength
    omega
  obtain ⟨m, before, hpushed, htake⟩ :=
    exists_pushed h (Nat.lt_of_lt_of_le hlt Search.size_le_length_frames)
  have hordered := PartialSolution.ordered_of_reached (searchAt_visits h).grounded.reached
  have hsame : next.chosen = before.chosen := hchosen.trans htake
  refine ⟨m, before, hpushed, by rw [hsame], by rw [hchosen, hordered.requirements_take], ?_⟩
  have hsize : before.chosen.size = t := by
    rw [← htake, PartialSolution.size_take (Nat.le_of_lt hlt)]
  cases hbefore : before.phase with
  | deciding =>
    rw [Search.frames_of_trying hphase, Search.frames_of_deciding hbefore, hsame]
    refine List.take_left' ?_
    rw [List.length_map]
    exact hsize
  | trying g =>
    have hlong := Search.length_frames_of_trying hbefore
    rw [hpushed.length_before] at hlong
    omega

end Provider

/-- A universe with a tool that asks for a revision of a library that is not there. -/
def Universe.withStuckTool : Universe :=
  (Universe.empty.register "example.com/tool"
    [((Snapshot.bare (.tag "v1.0.0") ⟨"a1"⟩).withPackage "."
      (.ofList ["example.com/lib"])).withTerms
      "example.com/lib" ⟨none, .revision ⟨"b2"⟩⟩]).register "example.com/lib"
    [Snapshot.bare (.tag "v1.0.0") ⟨"b1"⟩]

-- the tool is picked and accepted, the library has no candidate, and the search is back at the
-- tool's frame
example : (List.range 4).map (fun n => ((Provider.new .withStuckTool).searchAt
    ((Problem.new "example.com/app" .empty).withImports (.ofList ["example.com/tool"]))
      ⟨.empty, false, false, false⟩ n).map fun search => (search.frames.length,
        search.backtracks)) =
    [some (0, 0), some (1, 0), some (1, 0), some (1, 1)] := by
  decide +kernel

end Depsolve
