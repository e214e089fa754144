import Depsolve.Proofs.Solve.Decisions
import Depsolve.Solve.Run

/-!
# Mirrored sources

One source mirrors another if, asked the same from related states, it gives an answer that is as
good and leaves related states behind; the only other thing it may do is to report that the run was
cancelled. How good an answer has to be is what a solver makes of it: a list of versions is sorted
before it is used, of a manifest only the terms count, and the manifest and packages of a version
are asked for only if its revision is known (`Version.Pinned`).

`Solver.run_mirrors` carries this from the sources to whole runs: a run over a source ends as the
run over the source that it mirrors, or as cancelled. What is proved of a solver over a plain source
therefore holds of a solver over any source that mirrors it.
-/

namespace Depsolve

variable {σ τ α β γ δ : Type}

/-- Two results are alike: the same error, or values that are related. -/
inductive Alike {ε : Type} (Q : α → β → Prop) : Except ε α → Except ε β → Prop
  | error (e : ε) : Alike Q (.error e) (.error e)
  | ok {a : α} {b : β} : Q a b → Alike Q (.ok a) (.ok b)

theorem Alike.eq {ε : Type} {x y : Except ε α} (h : Alike Eq x y) : x = y := by
  cases h with
  | error e => rfl
  | ok h => rw [h]

theorem Alike.of_eq {ε : Type} {x y : Except ε α} (h : x = y) : Alike Eq x y := by
  subst h
  cases x with
  | error e => exact .error e
  | ok a => exact .ok rfl

theorem Alike.mapError {ε ε' : Type} {Q : α → β → Prop} {x : Except ε α} {y : Except ε β}
    (h : Alike Q x y) (f : ε → ε') : Alike Q (x.mapError f) (y.mapError f) := by
  cases h with
  | error e => exact .error (f e)
  | ok h => exact .ok h

theorem Alike.mono {ε : Type} {P Q : α → β → Prop} {x : Except ε α} {y : Except ε β}
    (h : Alike Q x y) (hQ : ∀ a b, Q a b → P a b) : Alike P x y := by
  cases h with
  | error e => exact .error e
  | ok hab => exact .ok (hQ _ _ hab)

theorem Alike.map {ε : Type} {Q : α → β → Prop} {Q' : γ → δ → Prop} {f : α → γ} {g : β → δ}
    {x : Except ε α} {y : Except ε β} (h : Alike Q x y) (hf : ∀ a b, Q a b → Q' (f a) (g b)) :
    Alike Q' (x.map f) (y.map g) := by
  cases h with
  | error e => exact .error e
  | ok hab => exact .ok (hf _ _ hab)

/-- Two values are the same, and have a property. -/
def Same (P : α → Prop) (a b : α) : Prop :=
  a = b ∧ P a

/-- A query answers as another does, from related states, or as cancelled where that `mayCancel`. -/
def Ask.Mirrors (mayCancel : Prop) (R : σ → τ → Prop) (Q : α → β → Prop) (m : Ask σ α)
    (n : Ask τ β) : Prop :=
  ∀ s t, R s t → (mayCancel ∧ (m.run.run s).1 = .error .cancelled) ∨
    (Alike Q (m.run.run s).1 (n.run.run t).1 ∧ R (m.run.run s).2 (n.run.run t).2)

/-- A computation of a solver ends as another does, from related states, or as cancelled where that
`mayCancel`. -/
def Run.Mirrors (mayCancel : Prop) (R : σ → τ → Prop) (Q : α → β → Prop) (m : Run σ α)
    (n : Run τ β) : Prop :=
  ∀ s t, R s t → (mayCancel ∧ (m.run.run s).1 = .error (.fault .cancelled)) ∨
    (Alike Q (m.run.run s).1 (n.run.run t).1 ∧ R (m.run.run s).2 (n.run.run t).2)

/-- An attempt ends as another does; both may end in the same failure. -/
def Attempt.Mirrors (mayCancel : Prop) (R : σ → τ → Prop) (Q : α → β → Prop) (m : Attempt σ α)
    (n : Attempt τ β) : Prop :=
  Run.Mirrors mayCancel R (Alike Q) m.run n.run

/-- It is known which state of the repository a version means. -/
def Version.Pinned (v : Version) : Prop :=
  v.revision? ≠ none

/-- Two lists of versions that come to the same once they are sorted. -/
def SortAlike (a b : List Bound) : Prop :=
  Preference.upgrade.sort a = Preference.upgrade.sort b

/-- Two manifests that set the same terms in a problem. -/
def Problem.SameTerms (problem : Problem) (m n : Manifest) : Prop :=
  ∀ target, problem.termsFor m target = problem.termsFor n target

/-- A source answers as another does, as far as a solver of the problem can tell, from related
states, or as cancelled where that `mayCancel`. -/
structure Source.Mirrors (problem : Problem) (mayCancel : Prop) (R : σ → τ → Prop) (a : Source σ)
    (b : Source τ) : Prop where
  checkpoint : Ask.Mirrors mayCancel R Eq a.checkpoint b.checkpoint
  versions : ∀ p, Ask.Mirrors mayCancel R SortAlike (a.versions p) (b.versions p)
  hasRevision : ∀ p r, Ask.Mirrors mayCancel R Eq (a.hasRevision p r) (b.hasRevision p r)
  rootOf : ∀ path, Ask.Mirrors mayCancel R Eq (a.rootOf path) (b.rootOf path)
  manifestOf : ∀ p v, v.Pinned →
    Ask.Mirrors mayCancel R problem.SameTerms (a.manifestOf p v) (b.manifestOf p v)
  packagesOf : ∀ p v, v.Pinned → Ask.Mirrors mayCancel R Eq (a.packagesOf p v) (b.packagesOf p v)
  /-- Asking ahead of time leaves related states behind. -/
  prefetch : ∀ ps s t, R s t → R ((a.prefetch ps).run s).2 ((b.prefetch ps).run t).2

/-- A computation that may fail runs its first part, and the rest only if that does not fail. -/
theorem run_bind_eq {ε : Type} (m : ExceptT ε (StateM σ) α) (f : α → ExceptT ε (StateM σ) β)
    (s : σ) : (m >>= f).run.run s =
      match m.run.run s with
      | (.ok a, s') => (f a).run.run s'
      | (.error e, s') => (.error e, s') := by
  simp only [ExceptT.run_bind, StateT.run_bind]
  rcases m.run.run s with ⟨_ | _, s'⟩ <;> rfl

theorem Ask.Mirrors.mono {mayCancel : Prop} {R : σ → τ → Prop} {P Q : α → β → Prop} {m : Ask σ α}
    {n : Ask τ β} (h : Ask.Mirrors mayCancel R Q m n) (hQ : ∀ a b, Q a b → P a b) :
    Ask.Mirrors mayCancel R P m n :=
  fun s t hst => (h s t hst).imp_right fun ⟨halike, hR⟩ => ⟨halike.mono hQ, hR⟩

namespace Run.Mirrors

variable {mayCancel : Prop} {R : σ → τ → Prop} {Q : α → β → Prop} {Q' : γ → δ → Prop}

theorem pure {a : α} {b : β} (h : Q a b) :
    Run.Mirrors mayCancel R Q (Pure.pure a) (Pure.pure b) :=
  fun _ _ hst => .inr ⟨.ok h, hst⟩

theorem throw (e : Stop) :
    Run.Mirrors mayCancel R Q (MonadExcept.throw e : Run σ α) (MonadExcept.throw e : Run τ β) :=
  fun _ _ hst => .inr ⟨.error e, hst⟩

theorem mono {P : α → β → Prop} {m : Run σ α} {n : Run τ β} (h : Run.Mirrors mayCancel R Q m n)
    (hQ : ∀ a b, Q a b → P a b) : Run.Mirrors mayCancel R P m n :=
  fun s t hst => (h s t hst).imp_right fun ⟨halike, hR⟩ => ⟨halike.mono hQ, hR⟩

theorem bind {m : Run σ α} {n : Run τ β} {f : α → Run σ γ} {g : β → Run τ δ}
    (h : Run.Mirrors mayCancel R Q m n)
    (hf : ∀ a b, Q a b → Run.Mirrors mayCancel R Q' (f a) (g b)) :
    Run.Mirrors mayCancel R Q' (m >>= f) (n >>= g) := by
  intro s t hst
  rw [run_bind_eq, run_bind_eq]
  rcases hm : m.run.run s with ⟨rm, s'⟩
  rcases hn : n.run.run t with ⟨rn, t'⟩
  -- the first part was cancelled, or both have gone on alike
  rcases h s t hst with ⟨hc, he⟩ | ⟨halike, hR⟩
  · rw [hm] at he
    obtain rfl : rm = .error (.fault .cancelled) := he
    exact .inl ⟨hc, rfl⟩
  · rw [hm, hn] at halike hR
    cases halike with
    | ok hab => exact hf _ _ hab s' t' hR
    | error e => exact .inr ⟨.error e, hR⟩

theorem bind_eq {m : Run σ α} {n : Run τ α} {f : α → Run σ γ} {g : α → Run τ δ}
    (h : Run.Mirrors mayCancel R Eq m n) (hf : ∀ a, Run.Mirrors mayCancel R Q' (f a) (g a)) :
    Run.Mirrors mayCancel R Q' (m >>= f) (n >>= g) := by
  refine bind h fun a b hab => ?_
  subst hab
  exact hf a

/-- The rest may depend on what the first part gives in both, and on what is known of that. -/
theorem bind_same {P : α → Prop} {m : Run σ α} {n : Run τ α} {f : α → Run σ γ} {g : α → Run τ δ}
    (h : Run.Mirrors mayCancel R (Same P) m n)
    (hf : ∀ a, P a → Run.Mirrors mayCancel R Q' (f a) (g a)) :
    Run.Mirrors mayCancel R Q' (m >>= f) (n >>= g) := by
  refine bind h fun a b hab => ?_
  obtain ⟨rfl, ha⟩ := hab
  exact hf a ha

theorem ite {p : Prop} [Decidable p] {m₁ m₂ : Run σ α} {n₁ n₂ : Run τ β}
    (h₁ : Run.Mirrors mayCancel R Q m₁ n₁) (h₂ : Run.Mirrors mayCancel R Q m₂ n₂) :
    Run.Mirrors mayCancel R Q (if p then m₁ else m₂) (if p then n₁ else n₂) := by
  split
  · exact h₁
  · exact h₂

theorem of_ask {q : Ask σ α} {q' : Ask τ β} (h : Ask.Mirrors mayCancel R Q q q') :
    Run.Mirrors mayCancel R Q (Depsolve.ask q) (Depsolve.ask q') := by
  intro s t hst
  have hrun : ∀ {υ ζ : Type} (k : Ask υ ζ) (w : υ), (Depsolve.ask k).run.run w =
      ((k.run.run w).1.mapError Stop.fault, (k.run.run w).2) := fun _ _ => rfl
  rw [hrun, hrun]
  rcases h s t hst with ⟨hc, he⟩ | ⟨halike, hR⟩
  · exact .inl ⟨hc, by rw [he]; rfl⟩
  · exact .inr ⟨halike.mapError Stop.fault, hR⟩

theorem ok {P : α → Prop} {m : Run σ α} {n : Run τ α} (h : Run.Mirrors mayCancel R (Same P) m n)
    {s s' : σ} {t : τ} (hst : R s t) {a : α} (hm : m.run.run s = (.ok a, s')) :
    (n.run.run t).1 = .ok a ∧ P a ∧ R s' (n.run.run t).2 := by
  rcases h s t hst with ⟨-, he⟩ | ⟨halike, hR⟩
  · simp [hm] at he
  · rw [hm] at halike hR
    generalize hx : (n.run.run t).1 = x at halike
    cases halike with
    | ok hab =>
      obtain ⟨rfl, ha⟩ := hab
      exact ⟨rfl, ha, hR⟩

theorem foldlM {f : α → γ → Run σ α} {g : α → γ → Run τ α}
    (h : ∀ a c, Run.Mirrors mayCancel R Eq (f a c) (g a c)) (l : List γ) (a : α) :
    Run.Mirrors mayCancel R Eq (l.foldlM f a) (l.foldlM g a) := by
  induction l generalizing a with
  | nil => exact pure rfl
  | cons c l ih =>
    rw [List.foldlM_cons, List.foldlM_cons]
    exact bind_eq (h a c) fun b => ih b

theorem mapM {f : γ → Run σ α} {g : γ → Run τ α}
    (h : ∀ c, Run.Mirrors mayCancel R Eq (f c) (g c)) (l : List γ) :
    Run.Mirrors mayCancel R Eq (l.mapM f) (l.mapM g) := by
  induction l with
  | nil => exact pure rfl
  | cons c l ih =>
    rw [List.mapM_cons, List.mapM_cons]
    exact bind_eq (h c) fun a => bind_eq ih fun as => pure rfl

end Run.Mirrors

namespace Attempt.Mirrors

variable {mayCancel : Prop} {R : σ → τ → Prop} {Q : α → β → Prop} {Q' : γ → δ → Prop}

theorem pure {a : α} {b : β} (h : Q a b) :
    Attempt.Mirrors mayCancel R Q (Pure.pure a) (Pure.pure b) :=
  Run.Mirrors.pure (.ok h)

theorem throw (e : Failure) : Attempt.Mirrors mayCancel R Q
    (MonadExcept.throw e : Attempt σ α) (MonadExcept.throw e : Attempt τ β) :=
  Run.Mirrors.pure (.error e)

theorem bind {m : Attempt σ α} {n : Attempt τ β} {f : α → Attempt σ γ} {g : β → Attempt τ δ}
    (h : Attempt.Mirrors mayCancel R Q m n)
    (hf : ∀ a b, Q a b → Attempt.Mirrors mayCancel R Q' (f a) (g b)) :
    Attempt.Mirrors mayCancel R Q' (m >>= f) (n >>= g) := by
  unfold Attempt.Mirrors
  rw [ExceptT.run_bind, ExceptT.run_bind]
  refine Run.Mirrors.bind h fun x y hxy => ?_
  cases hxy with
  | ok hab => exact hf _ _ hab
  | error e => exact Run.Mirrors.pure (.error e)

theorem of_inquire {m : Run σ α} {n : Run τ β} (h : Run.Mirrors mayCancel R Q m n) :
    Attempt.Mirrors mayCancel R Q (Depsolve.inquire m) (Depsolve.inquire n) :=
  Run.Mirrors.bind h fun _ _ hab => Run.Mirrors.pure (.ok hab)

theorem tryCatch {m : Attempt σ α} {n : Attempt τ β} {f : Failure → Attempt σ α}
    {g : Failure → Attempt τ β} (h : Attempt.Mirrors mayCancel R Q m n)
    (hf : ∀ e, Attempt.Mirrors mayCancel R Q (f e) (g e)) :
    Attempt.Mirrors mayCancel R Q (MonadExcept.tryCatch m f) (MonadExcept.tryCatch n g) := by
  refine Run.Mirrors.bind h fun x y hxy => ?_
  cases hxy with
  | ok hab => exact Run.Mirrors.pure (.ok hab)
  | error e => exact hf e

/-- A fold whose steps keep what is known of its value. -/
theorem foldlM {P : α → Prop} {f : α → γ → Attempt σ α} {g : α → γ → Attempt τ α}
    (h : ∀ a c, P a → Attempt.Mirrors mayCancel R (Same P) (f a c) (g a c)) (l : List γ) {a : α}
    (ha : P a) : Attempt.Mirrors mayCancel R (Same P) (l.foldlM f a) (l.foldlM g a) := by
  induction l generalizing a with
  | nil => exact pure ⟨rfl, ha⟩
  | cons c l ih =>
    rw [List.foldlM_cons, List.foldlM_cons]
    refine bind (h a c ha) fun b b' hb => ?_
    obtain ⟨rfl, hb⟩ := hb
    exact ih hb

end Attempt.Mirrors

/-! ## Versions that are pinned -/

/-- All versions that some decisions have chosen, or have left to choose from, are pinned. -/
def PartialSolution.Pinned (p : PartialSolution) : Prop :=
  ∀ d ∈ p.decisions, d.version.Pinned ∧ ∀ v ∈ d.frame.candidates, v.Pinned

/-- All versions that a search has chosen, or has left to choose from, are pinned. -/
structure Search.Pinned (s : Search) : Prop where
  chosen : s.chosen.Pinned
  left : ∀ f, s.phase = .trying f → ∀ v ∈ f.candidates, v.Pinned

/-- All versions at the place that a step leads to are pinned. -/
def Progress.Pinned : Progress → Prop
  | .ongoing search => search.Pinned
  | .complete search => search.Pinned

def Choice.Pinned : Choice → Prop
  | .project _ candidates => ∀ v ∈ candidates, v.Pinned
  | _ => True

theorem PartialSolution.Pinned.selected? {p : PartialSolution} (h : p.Pinned) {root : String}
    {sel : Selected} (hs : p.selected? root = some sel) : sel.version.Pinned := by
  obtain ⟨d, hd, -, heq⟩ := selected?_eq_some hs
  rw [heq]
  exact (h d (mem_of_decision? hd)).1

theorem PartialSolution.Pinned.push {p : PartialSolution} {d : Decision} (h : p.Pinned)
    (hv : d.version.Pinned) (hleft : ∀ v ∈ d.frame.candidates, v.Pinned) : (p.push d).Pinned := by
  intro e he
  rcases List.mem_append.1 he with he | he
  · exact h e he
  · rw [List.mem_singleton.1 he]
    exact ⟨hv, hleft⟩

theorem Search.Pinned.start (base : List Requirement) : (Search.start base).Pinned :=
  ⟨fun _ hd => absurd hd List.not_mem_nil, fun _ hf => nomatch hf⟩

theorem Search.Pinned.backjump {s next : Search} (h : s.Pinned) {root : String}
    {culprits : SortedSet Nat} {conflicts : List Conflict}
    (hjump : s.backjump root culprits conflicts = .ok next) : next.Pinned := by
  unfold Search.backjump at hjump
  simp only at hjump
  split at hjump
  · simp at hjump
  · rename_i i d hmax
    obtain rfl := Except.ok.inj hjump
    simp only [Option.bind_eq_some_iff, Option.map_eq_some_iff, Prod.mk.injEq] at hmax
    obtain ⟨i', -, d', hd, rfl, rfl⟩ := hmax
    refine ⟨fun e he => h.chosen e (List.mem_of_mem_take he), fun f hf => ?_⟩
    obtain rfl := Phase.trying.inj hf
    exact (h.chosen d' (PartialSolution.mem_of_decision? hd)).2

namespace Solver

open Run.Mirrors

variable {mayCancel : Prop} {R : σ → τ → Prop} {A : Source σ} {B : Source τ} {problem : Problem}
  (h : A.Mirrors problem mayCancel R B) (options : SolveOptions) (limits : Limits)

include h

theorem bareRevisions_mirrors (project : Project) (listed : List Version)
    (requirements : List Requirement) :
    Run.Mirrors mayCancel R Eq
      ((⟨A, problem, options, limits⟩ : Solver σ).bareRevisions project listed requirements)
      ((⟨B, problem, options, limits⟩ : Solver τ).bareRevisions project listed requirements) := by
  refine foldlM (fun found r => ?_) _ _
  split
  · exact pure rfl
  · refine bind_eq (of_ask (h.hasRevision project r)) fun b => ?_
    cases b
    · exact pure rfl
    · exact pure rfl

theorem lockedVersion_mirrors (project : Project) (requirements : List Requirement)
    {candidates : List Version} (hc : ∀ v ∈ candidates, v.Pinned) :
    Run.Mirrors mayCancel R (Same fun v? => ∀ v, v? = some v → v.Pinned)
      ((⟨A, problem, options, limits⟩ : Solver σ).lockedVersion? project requirements candidates)
      ((⟨B, problem, options, limits⟩ : Solver τ).lockedVersion? project requirements
        candidates) := by
  simp only [lockedVersion?, lockedEntry?]
  split
  · exact pure ⟨rfl, fun _ hv => nomatch hv⟩
  · rename_i entry _
    split
    -- a locked revision says itself what state it means
    · rename_i r hr
      refine bind_eq (of_ask (h.hasRevision project _)) fun b => pure ⟨rfl, fun v hv => ?_⟩
      split at hv
      · obtain rfl := Option.some.inj hv
        simp [Version.Pinned, hr]
      · simp at hv
    -- a locked name stands for one of the candidates
    · exact pure ⟨rfl, fun v hv => hc v (List.mem_of_find?_eq_some hv)⟩

theorem candidates_mirrors (project : Project) (requirements : List Requirement) :
    Run.Mirrors mayCancel R (Same fun candidates => ∀ v ∈ candidates, v.Pinned)
      ((⟨A, problem, options, limits⟩ : Solver σ).candidates project requirements)
      ((⟨B, problem, options, limits⟩ : Solver τ).candidates project requirements) := by
  refine bind (of_ask (h.versions project)) fun versions versions' hversions => ?_
  have hsort : Preference.upgrade.sort versions = Preference.upgrade.sort versions' := hversions
  simp only [hsort]
  refine bind_eq (bareRevisions_mirrors h options limits project _ requirements) fun bare => ?_
  have hviable : ∀ v ∈ ((Preference.upgrade.sort versions').map Version.bound ++
      bare.toList.map fun text => Version.revision ⟨text⟩).filter (admittedBy requirements),
      v.Pinned := by
    intro v hv
    rcases List.mem_append.1 (List.mem_filter.1 hv).1 with hv | hv
    · obtain ⟨b, -, rfl⟩ := List.mem_map.1 hv
      exact Option.some_ne_none _
    · obtain ⟨text, -, rfl⟩ := List.mem_map.1 hv
      exact Option.some_ne_none _
  refine bind_same (lockedVersion_mirrors h options limits project requirements hviable)
    fun locked hlocked => ?_
  cases locked with
  | none => exact pure ⟨rfl, hviable⟩
  | some v =>
    exact pure ⟨rfl, List.forall_mem_cons.2 ⟨hlocked v rfl, fun w hw =>
      hviable w (List.mem_filter.1 hw).1⟩⟩

theorem chooseFrom_mirrors (best : Option (Project × List Version))
    (hbest : ∀ b, best = some b → ∀ v ∈ b.2, v.Pinned)
    (waiting : List (Project × List Requirement)) :
    Run.Mirrors mayCancel R (Same Choice.Pinned)
      ((⟨A, problem, options, limits⟩ : Solver σ).chooseFrom best waiting)
      ((⟨B, problem, options, limits⟩ : Solver τ).chooseFrom best waiting) := by
  induction waiting generalizing best with
  | nil =>
    cases best with
    | none => exact pure ⟨rfl, trivial⟩
    | some b => exact pure ⟨rfl, hbest b rfl⟩
  | cons entry rest ih =>
    refine bind_same (candidates_mirrors h options limits entry.1 entry.2) fun found hfound => ?_
    have hsome : ∀ b, some (entry.1, found) = some b → ∀ v ∈ b.2, v.Pinned := by
      intro b hb
      obtain rfl := Option.some.inj hb
      exact hfound
    split
    · exact pure ⟨rfl, trivial⟩
    · cases best with
      | none => exact ih _ hsome
      | some b => exact ite (ih _ hsome) (ih _ hbest)

theorem ownersOf_mirrors (paths : List String) :
    Run.Mirrors mayCancel R Eq ((⟨A, problem, options, limits⟩ : Solver σ).ownersOf paths)
      ((⟨B, problem, options, limits⟩ : Solver τ).ownersOf paths) :=
  mapM (fun path => bind_eq (of_ask (h.rootOf path)) fun _ => pure rfl) paths

omit h in
theorem require_mirrors
    {expandA : Selected → SortedSet String → SortedSet String → Trial → Attempt σ Trial}
    {expandB : Selected → SortedSet String → SortedSet String → Trial → Attempt τ Trial}
    (hexpand : ∀ site packages known t, site.version.Pinned → t.chosen.Pinned →
      Attempt.Mirrors mayCancel R (Same fun t' => t'.chosen.Pinned) (expandA site packages known t)
        (expandB site packages known t))
    (site : Selected) (r : Requirement) {t : Trial} (ht : t.chosen.Pinned) :
    Attempt.Mirrors mayCancel R (Same fun t' => t'.chosen.Pinned)
      ((⟨A, problem, options, limits⟩ : Solver σ).require expandA site r t)
      ((⟨B, problem, options, limits⟩ : Solver τ).require expandB site r t) := by
  simp only [require]
  cases hs : t.chosen.selected? r.project.root with
  | none =>
    cases waitingFailure? problem t site r with
    | none => exact Attempt.Mirrors.pure ⟨rfl, ht⟩
    | some failure => exact Attempt.Mirrors.throw failure
  | some sel =>
    simp only
    split
    · exact Attempt.Mirrors.throw _
    · split
      · exact Attempt.Mirrors.pure ⟨rfl, ht⟩
      · refine Attempt.Mirrors.tryCatch (hexpand _ _ _ _ (ht.selected? hs) ht) fun failure => ?_
        exact Attempt.Mirrors.throw _

theorem expand_mirrors (depth : Nat) (site : Selected) (packages known : SortedSet String)
    (t : Trial) (hsite : site.version.Pinned) (ht : t.chosen.Pinned) :
    Attempt.Mirrors mayCancel R (Same fun t' => t'.chosen.Pinned)
      ((⟨A, problem, options, limits⟩ : Solver σ).expand depth site packages known t)
      ((⟨B, problem, options, limits⟩ : Solver τ).expand depth site packages known t) := by
  induction depth generalizing site packages known t with
  | zero => exact Attempt.Mirrors.of_inquire (throw _)
  | succ depth ih =>
    refine Attempt.Mirrors.bind (Attempt.Mirrors.of_inquire (of_ask (h.packagesOf _ _ hsite)))
      fun tree tree' htree => ?_
    subst htree
    refine Attempt.Mirrors.bind (Attempt.Mirrors.of_inquire (of_ask (h.manifestOf _ _ hsite)))
      fun manifest manifest' hmanifest => ?_
    dsimp only
    split
    · exact Attempt.Mirrors.throw _
    · rename_i footprint _
      refine Attempt.Mirrors.bind (Attempt.Mirrors.of_inquire (ownersOf_mirrors h options limits _))
        fun owned owned' howned => ?_
      subst howned
      -- only the terms of the manifest are looked at
      have hterms : problem.termsFor manifest = problem.termsFor manifest' := funext hmanifest
      simp only [hterms]
      refine Attempt.Mirrors.foldlM (fun t group ht => ?_) _ ?_
      · exact require_mirrors options limits ih site _ ht
      · split
        · exact ht
        · exact ht

theorem attempt_mirrors {chosen : PartialSolution} (hchosen : chosen.Pinned) {frame : Frame}
    (hleft : ∀ v ∈ frame.candidates, v.Pinned) {version : Version} (hv : version.Pinned) :
    Attempt.Mirrors mayCancel R Eq
      ((⟨A, problem, options, limits⟩ : Solver σ).attempt chosen frame version)
      ((⟨B, problem, options, limits⟩ : Solver τ).attempt chosen frame version) :=
  Attempt.Mirrors.bind (expand_mirrors h options limits _ _ _ _ _ hv (hchosen.push hv hleft))
    fun _ _ ht => Attempt.Mirrors.pure (congrArg Trial.pending ht.1)

theorem prefetch_mirrors (chosen : PartialSolution) :
    Run.Mirrors mayCancel R Eq ((⟨A, problem, options, limits⟩ : Solver σ).prefetch chosen)
      ((⟨B, problem, options, limits⟩ : Solver τ).prefetch chosen) :=
  ite (fun s t hst => .inr ⟨.ok rfl, h.prefetch _ s t hst⟩) (pure rfl)

theorem proceed_mirrors {search : Search} (hs : search.Pinned) :
    Run.Mirrors mayCancel R (Same Progress.Pinned)
      ((⟨A, problem, options, limits⟩ : Solver σ).proceed search)
      ((⟨B, problem, options, limits⟩ : Solver τ).proceed search) :=
  bind_eq (of_ask h.checkpoint) fun _ => pure ⟨rfl, hs⟩

omit h in
theorem orStop_mirrors {P : α → Prop} {result : Except Fault α} (hP : ∀ a, result = .ok a → P a) :
    Run.Mirrors mayCancel R (Same P) (orStop result : Run σ α) (orStop result : Run τ α) := by
  cases result with
  | error e => exact throw _
  | ok a => exact pure ⟨rfl, hP a rfl⟩

theorem choose_mirrors (chosen : PartialSolution) :
    Run.Mirrors mayCancel R (Same Choice.Pinned)
      ((⟨A, problem, options, limits⟩ : Solver σ).choose chosen)
      ((⟨B, problem, options, limits⟩ : Solver τ).choose chosen) :=
  chooseFrom_mirrors h options limits none (fun _ hb => nomatch hb) chosen.waiting

theorem decide_mirrors {search : Search} (hs : search.Pinned) :
    Run.Mirrors mayCancel R (Same Progress.Pinned)
      ((⟨A, problem, options, limits⟩ : Solver σ).decide search)
      ((⟨B, problem, options, limits⟩ : Solver τ).decide search) := by
  refine bind_eq (of_ask h.checkpoint) fun _ => ?_
  refine bind_eq (prefetch_mirrors h options limits _) fun _ => ?_
  refine bind_same (choose_mirrors h options limits _) fun choice hchoice => ?_
  cases choice with
  | complete => exact pure ⟨rfl, hs⟩
  | project project candidates =>
    refine proceed_mirrors h options limits ⟨hs.chosen, fun f hf => ?_⟩
    obtain rfl := Phase.trying.inj hf
    exact hchoice
  | stuck root requirements =>
    refine bind_same (orStop_mirrors (P := Search.Pinned) fun next hnext => hs.backjump hnext)
      fun next hnext => ?_
    exact proceed_mirrors h options limits hnext

theorem tryCandidate_mirrors {search : Search} (hs : search.Pinned) {frame : Frame}
    (hleft : ∀ v ∈ frame.candidates, v.Pinned) {version : Version} (hv : version.Pinned) :
    Run.Mirrors mayCancel R (Same Search.Pinned)
      ((⟨A, problem, options, limits⟩ : Solver σ).tryCandidate search frame version)
      ((⟨B, problem, options, limits⟩ : Solver τ).tryCandidate search frame version) := by
  have htrying : ∀ {next : Search} {f : Frame}, next.chosen = search.chosen →
      next.phase = .trying f → f.candidates = frame.candidates → next.Pinned := by
    intro next f hchosen hphase hcand
    refine ⟨by rw [hchosen]; exact hs.chosen, fun f' hf' => ?_⟩
    obtain rfl : f = f' := by simpa [hphase] using hf'
    rw [hcand]
    exact hleft
  simp only [tryCandidate]
  split
  · exact pure ⟨rfl, htrying rfl rfl rfl⟩
  · refine bind (attempt_mirrors h options limits hs.chosen hleft hv) fun x y hxy => ?_
    obtain rfl := hxy.eq
    cases x with
    | ok added =>
      exact pure ⟨rfl, hs.chosen.push hv hleft, fun f hf => nomatch hf⟩
    | error failure => exact pure ⟨rfl, htrying rfl rfl rfl⟩

theorem step_mirrors {search : Search} (hs : search.Pinned) :
    Run.Mirrors mayCancel R (Same Progress.Pinned)
      ((⟨A, problem, options, limits⟩ : Solver σ).step search)
      ((⟨B, problem, options, limits⟩ : Solver τ).step search) := by
  simp only [step]
  cases hphase : search.phase with
  | deciding => exact decide_mirrors h options limits hs
  | trying frame =>
    have hleft := hs.left frame hphase
    cases hcand : frame.candidates with
    | nil =>
      simp only [hcand]
      refine bind_same (orStop_mirrors (P := Search.Pinned) fun next hnext => hs.backjump hnext)
        fun next hnext => ?_
      exact proceed_mirrors h options limits hnext
    | cons version rest =>
      rw [hcand] at hleft
      obtain ⟨hv, hrest⟩ := List.forall_mem_cons.1 hleft
      simp only [hcand]
      exact bind_same (tryCandidate_mirrors h options limits hs hrest hv)
        fun next hnext => pure ⟨rfl, hnext⟩

theorem iterate_mirrors (n : Nat) {search : Search} (hs : search.Pinned) :
    Run.Mirrors mayCancel R Eq ((⟨A, problem, options, limits⟩ : Solver σ).iterate n search)
      ((⟨B, problem, options, limits⟩ : Solver τ).iterate n search) := by
  induction n generalizing search with
  | zero => exact throw _
  | succ n ih =>
    refine bind_same (step_mirrors h options limits hs) fun progress hp => ?_
    cases progress with
    | complete search => exact pure rfl
    | ongoing search => exact ih hp

theorem baseRequirements_mirrors :
    Run.Mirrors mayCancel R Eq (⟨A, problem, options, limits⟩ : Solver σ).baseRequirements
      (⟨B, problem, options, limits⟩ : Solver τ).baseRequirements :=
  bind_eq (ownersOf_mirrors h options limits _) fun _ => pure rfl

/-- A run over a source ends as the run over the source that it mirrors, or as cancelled. -/
theorem run_mirrors :
    Run.Mirrors mayCancel R Eq (⟨A, problem, options, limits⟩ : Solver σ).run
      (⟨B, problem, options, limits⟩ : Solver τ).run :=
  bind_eq (baseRequirements_mirrors h options limits) fun base =>
    bind_eq (iterate_mirrors h options limits _ (.start base)) fun _ =>
      mono (orStop_mirrors fun _ _ => trivial) fun _ _ hab => hab.1

end Solver

end Depsolve
