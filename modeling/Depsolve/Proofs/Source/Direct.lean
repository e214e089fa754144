import Depsolve.Proofs.Solve.Resemblance
import Depsolve.Proofs.Source.Faithful

/-!
# Asking the provider directly

A problem could be solved without a session, by sending each query to the provider
(`Provider.solveDirectly`). As long as nobody plans to cancel the run, this ends as it does in a
session, which answers from its cache what it has asked before (`Session.source_mirrors_directly`);
and a provider that is asked directly has no use for being asked ahead of time
(`Solver.run_prefetching`). So neither the cache nor prefetches show in the outcome of a run.
-/

namespace Depsolve

variable {α : Type} {u : Universe}

/-- Solves a problem by sending every query to the provider. -/
def Provider.solveDirectly (p : Provider) (problem : Problem) (options : SolveOptions) :
    Except Stop Solution × Provider :=
  let solver : Solver Provider := ⟨Provider.source, problem, options, p.world.limits⟩
  solver.run.run.run p

namespace Session

/-- A session stands for a provider: it serves the same universe, both are cancelled or neither is,
and nobody plans to cancel. -/
structure StandsFor (u : Universe) (s : Session) (p : Provider) : Prop where
  serves : s.Serves u False
  world : p.world = u
  isCancelled : s.provider.isCancelled = p.isCancelled
  patience : s.provider.patience = none
  patience' : p.patience = none

theorem checkpoint_source_run (p : Provider) :
    Provider.source.checkpoint.run.run p =
      if p.isCancelled then (.error .cancelled, p) else (.ok (), p) := by
  have hget : (get : Ask Provider Provider).run.run p = (.ok p, p) := rfl
  unfold Provider.source
  rw [run_bind_eq, hget]
  dsimp only
  split <;> rfl

theorem guarded_run (query : StateM Provider (Except SourceFault α)) (p : Provider) :
    (Provider.guarded query).run.run p =
      if p.isCancelled then (.error .cancelled, p)
      else ((query.run p).1.mapError Fault.lookup, (query.run p).2) := by
  have hget : (get : Ask Provider Provider).run.run p = (.ok p, p) := rfl
  have hlift : (liftM query : Ask Provider (Except SourceFault α)).run.run p =
      (.ok (query.run p).1, (query.run p).2) := rfl
  rw [Provider.guarded, run_bind_eq, hget]
  cases hc : p.isCancelled with
  | true =>
    simp only [hc]
    rfl
  | false =>
    simp only [hc, Bool.false_eq_true, if_false]
    rw [run_bind_eq, hlift]
    rcases query.run p with ⟨_ | _, p'⟩ <;> rfl

/-- A query that is answered from the cache, or else by the provider, mirrors one that is sent
to the provider. -/
theorem mirrors_guarded {query : StateM (Cache × Provider) (Except SourceFault α)}
    (kind : QueryKind) {f : Universe → Except SourceFault α} (hq : Answers u query (f u)) :
    Ask.Mirrors False (StandsFor u) Eq (ask query) (Provider.guarded (Provider.ask kind f)) := by
  intro s p hst
  have hrun : (Provider.ask kind f).run p = (f (p.begin kind).world, p.begin kind) := rfl
  rw [ask_run, guarded_run, hst.isCancelled, hrun, world_begin, hst.world]
  refine .inr ?_
  cases hc : p.isCancelled with
  | true => exact ⟨.error _, hst⟩
  | false =>
    simp only [Bool.false_eq_true, if_false]
    obtain ⟨hanswer, htells, hworld, hcalm⟩ :=
      hq s.cache s.provider hst.serves.tells hst.serves.world
    obtain ⟨hcancelled, hpatience⟩ := hcalm ⟨hst.isCancelled.trans hc, hst.patience⟩
    obtain ⟨hcancelled', hpatience'⟩ := calm_begin kind ⟨hc, hst.patience'⟩
    rw [hanswer]
    exact ⟨.of_eq rfl, ⟨hworld, htells, False.elim⟩, (world_begin kind p).trans hst.world,
      hcancelled.trans hcancelled'.symm, hpatience, hpatience'⟩

theorem mirrors_checkpoint_directly :
    Ask.Mirrors False (StandsFor u) Eq checkpoint Provider.source.checkpoint := by
  intro s p hst
  rw [checkpoint_run, checkpoint_source_run, hst.isCancelled]
  refine .inr ?_
  split
  · exact ⟨.error _, hst⟩
  · exact ⟨.ok rfl, hst⟩

theorem prefetch_of_cancelled {s : Session} (h : s.provider.isCancelled = true)
    (projects : List Project) : ((prefetch projects).run s).2 = s := by
  refine prefetch_preserves (P := (· = s)) (fun p s' hs => ?_) projects rfl
  rw [hs, versions, ask_run, if_pos h]

theorem StandsFor.prefetch {s : Session} {p : Provider} (h : s.StandsFor u p)
    (projects : List Project) : ((prefetch projects).run s).2.StandsFor u p := by
  cases hc : s.provider.isCancelled with
  | true =>
    rw [prefetch_of_cancelled hc]
    exact h
  | false =>
    have hserves : s.Serves u True := ⟨h.serves.world, h.serves.tells, fun _ => ⟨hc, h.patience⟩⟩
    obtain ⟨hworld, htells, hcalm⟩ := serves_prefetch projects hserves
    obtain ⟨hcancelled, hpatience⟩ := hcalm trivial
    refine ⟨⟨hworld, htells, False.elim⟩, h.world, ?_, hpatience, h.patience'⟩
    rw [hcancelled, ← h.isCancelled, hc]

theorem mirrors_versions_directly (p : Project) : Ask.Mirrors False (StandsFor u) Eq (versions p)
    (Provider.guarded (Provider.versions p)) :=
  mirrors_guarded (f := fun u => u.versions p) .versions (answers_versions p)

theorem mirrors_hasRevision_directly (p : Project) (r : Revision) :
    Ask.Mirrors False (StandsFor u) Eq (hasRevision p r)
      (Provider.guarded (Provider.hasRevision p r)) :=
  mirrors_guarded (f := fun u => u.hasRevision p r) .revision (answers_hasRevision p r)

theorem mirrors_rootOf_directly (path : String) : Ask.Mirrors False (StandsFor u) Eq (rootOf path)
    (Provider.guarded (Provider.rootOf path)) :=
  mirrors_guarded (f := fun u => u.rootOf path) .root (answers_rootOf path)

theorem mirrors_manifestOf_directly (p : Project) (v : Version) :
    Ask.Mirrors False (StandsFor u) Eq (manifestOf p v)
      (Provider.guarded (Provider.manifestOf p v)) :=
  mirrors_guarded (f := fun u => u.manifestOf p v) .manifest (answers_manifestOf p v)

theorem mirrors_packagesOf_directly (p : Project) (v : Version) :
    Ask.Mirrors False (StandsFor u) Eq (packagesOf p v)
      (Provider.guarded (Provider.packagesOf p v)) :=
  mirrors_guarded (f := fun u => u.packagesOf p v) .packages (answers_packagesOf p v)

theorem source_mirrors_directly (u : Universe) (problem : Problem) :
    Source.Mirrors problem False (StandsFor u) source Provider.source where
  checkpoint := mirrors_checkpoint_directly
  versions p := (mirrors_versions_directly p).mono fun _ _ h => congrArg _ h
  hasRevision := mirrors_hasRevision_directly
  rootOf := mirrors_rootOf_directly
  manifestOf p v _ := (mirrors_manifestOf_directly p v).mono fun _ _ h _ => by rw [h]
  packagesOf p v _ := mirrors_packagesOf_directly p v
  prefetch ps _ _ hst := hst.prefetch ps

end Session

/-- A problem is solved in a session as by asking the provider directly, if nobody plans to
cancel. -/
theorem Provider.solve_eq_directly {p : Provider} (hplan : p.patience = none) (problem : Problem)
    (options : SolveOptions) :
    (p.solve problem options).1 = (p.solveDirectly problem options).1 := by
  have hmirrors := Solver.run_mirrors (Session.source_mirrors_directly p.world problem) options
    p.world.limits
  have hstart : (Session.start p).StandsFor p.world p :=
    ⟨⟨rfl, Cache.tells_empty _, False.elim⟩, rfl, rfl, hplan, hplan⟩
  rcases hmirrors _ _ hstart with ⟨hf, -⟩ | ⟨halike, -⟩
  · exact hf.elim
  · exact halike.eq

/-! ## Asking ahead of time -/

namespace Solver

variable {σ : Type} {s : Solver σ} {prefetch : Bool}

/-- The solver that asks for versions ahead of time, or does not. -/
def prefetching (s : Solver σ) (prefetch : Bool) : Solver σ :=
  { s with options := { s.options with prefetch } }

/-- Over a source that has no use for it, asking ahead of time changes nothing. -/
theorem run_prefetching (h : ∀ projects, s.source.prefetch projects = pure ()) :
    (s.prefetching prefetch).run = s.run := by
  have hidle : ∀ b chosen, (s.prefetching b).prefetch chosen = pure () := by
    intro b chosen
    have hsource : (s.prefetching b).source.prefetch = s.source.prefetch := rfl
    unfold Solver.prefetch
    rw [hsource, h]
    split
    · rfl
    · rfl
  refine Resembles.run ⟨rfl, rfl, rfl, rfl, rfl, rfl, fun _ _ => rfl, fun chosen => ?_⟩
  exact (hidle prefetch chosen).trans (hidle s.options.prefetch chosen).symm

end Solver

namespace Provider

theorem solveDirectly_prefetch (p : Provider) (problem : Problem) (options : SolveOptions)
    (prefetch : Bool) :
    p.solveDirectly problem { options with prefetch } = p.solveDirectly problem options := by
  let solver : Solver Provider := ⟨Provider.source, problem, options, p.world.limits⟩
  have hrun : (solver.prefetching prefetch).run = solver.run := Solver.run_prefetching fun _ => rfl
  exact congrArg (fun m : Run Provider Solution => m.run.run p) hrun

/-- Asking ahead of time does not change how a problem is solved, if nobody plans to cancel. -/
theorem solve_prefetch {p : Provider} (hplan : p.patience = none) (problem : Problem)
    (options : SolveOptions) (prefetch : Bool) :
    (p.solve problem { options with prefetch }).1 = (p.solve problem options).1 := by
  rw [solve_eq_directly hplan, solveDirectly_prefetch, ← solve_eq_directly hplan]

end Provider

end Depsolve
