import Depsolve.Proofs.Solve.Outcome
import Depsolve.Proofs.Source.Kinds
import Depsolve.Proofs.Source.Mirror

/-!
# Sessions are faithful

A session answers from its cache what the universe behind its provider would answer, or reports that
the run was cancelled. `Universe.source` is the universe as a source without memory;
`source_mirrors` says that a session mirrors it.

`Provider.solve_eq` is what the theory of the solver rests on: solving in a session ends as solving
over the plain universe does, or as cancelled, and only the former if nobody cancels.
-/

namespace Depsolve

variable {α : Type}

/-- All answers in a cache are those of the universe. -/
structure Cache.Tells (u : Universe) (c : Cache) : Prop where
  versions : ∀ e ∈ c.versions, e.2 = u.versions e.1
  revisions : ∀ e ∈ c.revisions, e.2 = u.hasRevision e.1.1 e.1.2
  roots : ∀ e ∈ c.roots, e.2 = u.rootOf e.1
  manifests : ∀ e ∈ c.manifests, e.2 = u.manifestOf e.1.1 e.1.2
  packages : ∀ e ∈ c.packages, e.2 = u.packagesOf e.1.1 e.1.2

theorem Cache.tells_empty (u : Universe) : Cache.empty.Tells u := by
  constructor <;> simp [Cache.empty]

namespace Session

variable {u : Universe} {steady : Prop}

/-- A session over a universe whose cache is right. In a steady one nobody cancels. -/
structure Serves (u : Universe) (steady : Prop) (s : Session) : Prop where
  world : s.provider.world = u
  tells : s.cache.Tells u
  /-- Nobody has cancelled or plans to. -/
  calm : steady → s.provider.isCancelled = false ∧ s.provider.patience = none

/-- What a query to the cache and the provider behind it has to do: give the universe's answer, and
keep both right. -/
def Answers (u : Universe) (query : StateM (Cache × Provider) (Except SourceFault α))
    (result : Except SourceFault α) : Prop :=
  ∀ c p, c.Tells u → p.world = u → (query.run (c, p)).1 = result ∧
    (query.run (c, p)).2.1.Tells u ∧ (query.run (c, p)).2.2.world = u ∧
      (p.isCancelled = false ∧ p.patience = none →
        (query.run (c, p)).2.2.isCancelled = false ∧ (query.run (c, p)).2.2.patience = none)

theorem checkpoint_run (s : Session) :
    checkpoint.run.run s =
      if s.provider.isCancelled then (.error .cancelled, s) else (.ok (), s) := by
  have hget : (get : Ask Session Session).run.run s = (.ok s, s) := rfl
  rw [checkpoint, run_bind_eq, hget]
  dsimp only
  split <;> rfl

theorem ask_run (query : StateM (Cache × Provider) (Except SourceFault α)) (s : Session) :
    (ask query).run.run s =
      if s.provider.isCancelled then (.error .cancelled, s)
      else
        ((query.run (s.cache, s.provider)).1.mapError Fault.lookup,
          { s with
            cache := (query.run (s.cache, s.provider)).2.1
            provider := (query.run (s.cache, s.provider)).2.2 }) := by
  have hget : (get : Ask Session Session).run.run s = (.ok s, s) := rfl
  rw [ask, run_bind_eq, checkpoint_run]
  cases s.provider.isCancelled with
  | true => rfl
  | false =>
    simp only [Bool.false_eq_true, if_false]
    rw [run_bind_eq, hget]
    dsimp only
    rcases query.run (s.cache, s.provider) with ⟨_ | _, c, p⟩ <;> rfl

theorem serves_ask {query : StateM (Cache × Provider) (Except SourceFault α)}
    {result : Except SourceFault α} (hq : Answers u query result) {s : Session}
    (hs : s.Serves u steady) : ((ask query).run.run s).2.Serves u steady := by
  rw [ask_run]
  split
  · exact hs
  · obtain ⟨-, htells, hworld, hcalm⟩ := hq s.cache s.provider hs.tells hs.world
    exact ⟨hworld, htells, fun h => hcalm (hs.calm h)⟩

theorem mirrors_ask {query : StateM (Cache × Provider) (Except SourceFault α)}
    {result : Except SourceFault α} (hq : Answers u query result) :
    Ask.Mirrors (¬ steady) (fun s _ => Serves u steady s) Eq (ask query) (answer result) := by
  intro s t hs
  have hserves := serves_ask hq hs
  rw [ask_run] at hserves ⊢
  split at hserves
  · rename_i hc
    have hnot : ¬ steady := fun h => by simp [(hs.calm h).1] at hc
    exact .inl ⟨hnot, by simp [hc]⟩
  · rename_i hc
    refine .inr ⟨.of_eq ?_, by simpa [hc] using hserves⟩
    have hres := (hq s.cache s.provider hs.tells hs.world).1
    simp only [hc, Bool.false_eq_true, if_false, hres]
    cases result <;> rfl

/-- A table of a cache that is right as long as its own entries are. -/
structure TableTells {κ : Type} (u : Universe) (table : CacheTable κ α)
    (truth : κ → Except SourceFault α) : Prop where
  sound : ∀ c, Cache.Tells u c → ∀ e ∈ table.get c, e.2 = truth e.1
  store : ∀ c, Cache.Tells u c → ∀ k, Cache.Tells u (Cache.store table k (truth k) c)

theorem world_begin (kind : QueryKind) (p : Provider) : (p.begin kind).world = p.world := by
  unfold Provider.begin
  dsimp only
  split
  · rfl
  · split <;> rfl

theorem calm_begin (kind : QueryKind) {p : Provider}
    (h : p.isCancelled = false ∧ p.patience = none) :
    (p.begin kind).isCancelled = false ∧ (p.begin kind).patience = none := by
  simp [Provider.begin, h.1, h.2]

section Remember

variable {κ : Type} [DecidableEq κ] {table : CacheTable κ α} {key : κ} {kind : QueryKind}
  {f : Universe → Except SourceFault α} {c : Cache} {p : Provider}

theorem run_remember_of_some {a : Except SourceFault α} (h : (table.get c).lookup key = some a) :
    (Cache.remember table key (fetch (Provider.ask kind f))).run (c, p) =
      (a, { c with hits := c.hits + 1 }, p) :=
  Cache.remember_run_of_some h _ p

theorem run_remember_of_none (h : (table.get c).lookup key = none) :
    (Cache.remember table key (fetch (Provider.ask kind f))).run (c, p) =
      (f (p.begin kind).world, Cache.store table key (f (p.begin kind).world) c, p.begin kind) :=
  Cache.remember_run_of_none h _ p

end Remember

/-- A query that is remembered in a table gives the universe's answer. -/
theorem answers_remember {κ : Type} [DecidableEq κ] {table : CacheTable κ α}
    {truth : κ → Except SourceFault α} (ht : TableTells u table truth) (key : κ) (kind : QueryKind)
    {f : Universe → Except SourceFault α} (hf : f u = truth key) :
    Answers u (Cache.remember table key (fetch (Provider.ask kind f))) (truth key) := by
  intro c p hc hp
  cases hl : (table.get c).lookup key with
  -- what is remembered was right when it was stored, and the universe does not change
  | some a =>
    rw [run_remember_of_some hl]
    have hmem : (key, a) ∈ table.get c := by
      obtain ⟨l₁, l₂, hl, -⟩ := List.lookup_eq_some_iff.1 hl
      rw [hl]
      simp
    exact ⟨ht.sound c hc _ hmem, ⟨hc.1, hc.2, hc.3, hc.4, hc.5⟩, hp, id⟩
  | none =>
    rw [run_remember_of_none hl, world_begin, hp, hf]
    exact ⟨rfl, ht.store c hc key, rfl, calm_begin kind⟩

theorem tells_versions : TableTells u Cache.versionsTable u.versions :=
  ⟨fun _ hc => hc.versions, fun _ hc _ =>
    ⟨List.forall_mem_cons.2 ⟨rfl, hc.versions⟩, hc.2, hc.3, hc.4, hc.5⟩⟩

theorem tells_revisions : TableTells u Cache.revisionsTable fun k => u.hasRevision k.1 k.2 :=
  ⟨fun _ hc => hc.revisions, fun _ hc _ =>
    ⟨hc.1, List.forall_mem_cons.2 ⟨rfl, hc.revisions⟩, hc.3, hc.4, hc.5⟩⟩

theorem tells_roots : TableTells u Cache.rootsTable u.rootOf :=
  ⟨fun _ hc => hc.roots, fun _ hc _ =>
    ⟨hc.1, hc.2, List.forall_mem_cons.2 ⟨rfl, hc.roots⟩, hc.4, hc.5⟩⟩

theorem tells_manifests : TableTells u Cache.manifestsTable fun k => u.manifestOf k.1 k.2 :=
  ⟨fun _ hc => hc.manifests, fun _ hc _ =>
    ⟨hc.1, hc.2, hc.3, List.forall_mem_cons.2 ⟨rfl, hc.manifests⟩, hc.5⟩⟩

theorem tells_packages : TableTells u Cache.packagesTable fun k => u.packagesOf k.1 k.2 :=
  ⟨fun _ hc => hc.packages, fun _ hc _ =>
    ⟨hc.1, hc.2, hc.3, hc.4, List.forall_mem_cons.2 ⟨rfl, hc.packages⟩⟩⟩

theorem answers_versions (p : Project) :
    Answers u (Cache.remember Cache.versionsTable p (fetch (Provider.versions p))) (u.versions p) :=
  answers_remember (f := fun u => u.versions p) tells_versions p .versions rfl

theorem answers_hasRevision (p : Project) (r : Revision) :
    Answers u (Cache.remember Cache.revisionsTable (p, r) (fetch (Provider.hasRevision p r)))
      (u.hasRevision p r) :=
  answers_remember (f := fun u => u.hasRevision p r) tells_revisions (p, r) .revision rfl

theorem answers_rootOf (path : String) :
    Answers u (Cache.remember Cache.rootsTable path (fetch (Provider.rootOf path)))
      (u.rootOf path) :=
  answers_remember (f := fun u => u.rootOf path) tells_roots path .root rfl

theorem answers_manifestOf (p : Project) (v : Version) :
    Answers u (Cache.remember Cache.manifestsTable (Cache.versionKey p v)
      (fetch (Provider.manifestOf p v))) (u.manifestOf p v) := by
  have h := answers_remember (u := u) tells_manifests (Cache.versionKey p v) .manifest
    (f := fun u => u.manifestOf p v) (Universe.manifestOf_canonical u p v).symm
  have hkey : u.manifestOf (Cache.versionKey p v).1 (Cache.versionKey p v).2 = u.manifestOf p v :=
    Universe.manifestOf_canonical u p v
  rwa [hkey] at h

theorem answers_packagesOf (p : Project) (v : Version) :
    Answers u (Cache.remember Cache.packagesTable (Cache.versionKey p v)
      (fetch (Provider.packagesOf p v))) (u.packagesOf p v) := by
  have h := answers_remember (u := u) tells_packages (Cache.versionKey p v) .packages
    (f := fun u => u.packagesOf p v) (Universe.packagesOf_canonical u p v).symm
  have hkey : u.packagesOf (Cache.versionKey p v).1 (Cache.versionKey p v).2 = u.packagesOf p v :=
    Universe.packagesOf_canonical u p v
  rwa [hkey] at h

/-- What every query for versions preserves, a prefetch preserves. -/
theorem prefetch_preserves {P : Session → Prop} (h : ∀ p s, P s → P ((versions p).run.run s).2)
    (projects : List Project) {s : Session} (hs : P s) : P ((prefetch projects).run s).2 := by
  have hfor : ∀ (l : List Project) {s : Session}, P s →
      P ((l.forM fun p => discard (versions p).run : StateM Session Unit).run s).2 := by
    intro l
    induction l with
    | nil => exact id
    | cons p l ih => exact fun hs => ih (h p _ hs)
  have hrun : (prefetch projects).run s =
      (if 2 ≤ (projects.filter fun p => ! s.cache.hasVersions p).length ∧ ! s.provider.isCancelled
        then ((projects.filter fun p => ! s.cache.hasVersions p).forM fun p =>
          discard (versions p).run : StateM Session Unit)
        else pure ()).run s := rfl
  rw [hrun]
  split
  · exact hfor _ hs
  · exact hs

theorem serves_prefetch (projects : List Project) {s : Session} (hs : s.Serves u steady) :
    ((prefetch projects).run s).2.Serves u steady :=
  prefetch_preserves (fun p _ hs => serves_ask (answers_versions p) hs) projects hs

theorem mirrors_checkpoint :
    Ask.Mirrors (¬ steady) (fun s (_ : Unit) => Serves u steady s) Eq checkpoint (pure ()) := by
  intro s t hs
  rw [checkpoint_run]
  split
  · rename_i hc
    exact .inl ⟨fun h => by simp [(hs.calm h).1] at hc, rfl⟩
  · exact .inr ⟨.ok rfl, hs⟩

theorem mirrors_versions (p : Project) :
    Ask.Mirrors (¬ steady) (fun s (_ : Unit) => Serves u steady s) Eq (versions p)
      (answer (u.versions p)) :=
  mirrors_ask (answers_versions p)

theorem mirrors_hasRevision (p : Project) (r : Revision) :
    Ask.Mirrors (¬ steady) (fun s (_ : Unit) => Serves u steady s) Eq (hasRevision p r)
      (answer (u.hasRevision p r)) :=
  mirrors_ask (answers_hasRevision p r)

theorem mirrors_rootOf (path : String) :
    Ask.Mirrors (¬ steady) (fun s (_ : Unit) => Serves u steady s) Eq (rootOf path)
      (answer (u.rootOf path)) :=
  mirrors_ask (answers_rootOf path)

theorem mirrors_manifestOf (p : Project) (v : Version) :
    Ask.Mirrors (¬ steady) (fun s (_ : Unit) => Serves u steady s) Eq (manifestOf p v)
      (answer (u.manifestOf p v)) :=
  mirrors_ask (answers_manifestOf p v)

theorem mirrors_packagesOf (p : Project) (v : Version) :
    Ask.Mirrors (¬ steady) (fun s (_ : Unit) => Serves u steady s) Eq (packagesOf p v)
      (answer (u.packagesOf p v)) :=
  mirrors_ask (answers_packagesOf p v)

theorem source_mirrors (u : Universe) (problem : Problem) (steady : Prop) :
    Source.Mirrors problem (¬ steady) (fun s (_ : Unit) => Serves u steady s) source u.source where
  checkpoint := mirrors_checkpoint
  versions p := (mirrors_versions p).mono fun _ _ h => congrArg _ h
  hasRevision := mirrors_hasRevision
  rootOf := mirrors_rootOf
  manifestOf p v _ := (mirrors_manifestOf p v).mono fun _ _ h _ => by rw [h]
  packagesOf p v _ := mirrors_packagesOf p v
  prefetch ps _ _ hs := serves_prefetch ps hs

/-- A session for a provider serves the provider's universe. -/
theorem serves_start {p : Provider} (hp : p.world = u)
    (hcalm : steady → p.isCancelled = false ∧ p.patience = none) :
    (Session.start p).Serves u steady :=
  ⟨hp, Cache.tells_empty u, hcalm⟩

variable {m : Run Session α} {n : Run Unit α}

/-- In a session, a computation that mirrors one over the plain universe ends as that one does,
or as cancelled. -/
theorem run_start_eq (p : Provider)
    (h : Run.Mirrors (¬ False) (fun s (_ : Unit) => Serves p.world False s) Eq m n) :
    (m.run.run (.start p)).1 = .error (.fault .cancelled) ∨
      (m.run.run (.start p)).1 = n.outcome := by
  rcases h (.start p) () (serves_start rfl False.elim) with ⟨-, he⟩ | ⟨he, -⟩
  · exact .inl he
  · exact .inr he.eq

/-- If nobody cancels, it ends as the one over the plain universe. -/
theorem run_start_eq_of_calm {p : Provider} (hcancel : p.isCancelled = false)
    (hplan : p.patience = none)
    (h : Run.Mirrors (¬ True) (fun s (_ : Unit) => Serves p.world True s) Eq m n) :
    (m.run.run (.start p)).1 = n.outcome := by
  rcases h (.start p) () (serves_start rfl fun _ => ⟨hcancel, hplan⟩) with ⟨hf, -⟩ | ⟨he, -⟩
  · exact absurd trivial hf
  · exact he.eq

end Session

namespace Provider

/-- A problem is solved in a session as over the plain universe, unless the run is cancelled. -/
theorem solve_eq (p : Provider) (problem : Problem) (options : SolveOptions) :
    (p.solve problem options).1 = .error (.fault .cancelled) ∨
      (p.solve problem options).1 =
        (p.world.solver problem options p.world.limits).run.outcome :=
  Session.run_start_eq p (Solver.run_mirrors (Session.source_mirrors p.world problem False) _ _)

theorem solve_eq_of_calm {p : Provider} (hcancel : p.isCancelled = false)
    (hplan : p.patience = none) (problem : Problem) (options : SolveOptions) :
    (p.solve problem options).1 =
      (p.world.solver problem options p.world.limits).run.outcome :=
  Session.run_start_eq_of_calm hcancel hplan
    (Solver.run_mirrors (Session.source_mirrors p.world problem True) _ _)

end Provider

end Depsolve
