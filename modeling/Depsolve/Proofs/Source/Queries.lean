import Mathlib.Data.List.Nodup
import Depsolve.Proofs.Solve.Soundness
import Depsolve.Proofs.Source.Direct

/-!
# What a provider is asked

`Provider.queries` are the queries that reach the provider while a problem is solved in a
session. A session that notes them (`Session.notedSource`) is otherwise the same, and what it
notes is in its cache from then on (`Session.Notes`); so no query is noted, and none reaches the
provider, a second time.
-/

namespace Depsolve

/-- What a provider may be asked. The flag of a branch does not count in a version. -/
inductive Query
  | versions (p : Project)
  | revision (p : Project) (r : Revision)
  | root (path : String)
  | manifest (p : Project) (v : Version)
  | packages (p : Project) (v : Version)
deriving DecidableEq

/-- Whether a cache has an answer in a table. -/
def Cache.knows {κ α : Type} [DecidableEq κ] (c : Cache) (table : CacheTable κ α)
    (key : κ) : Bool :=
  ((table.get c).lookup key).isSome

namespace Query

/-- What a query counts as. -/
def kind : Query → QueryKind
  | .versions _ => .versions
  | .revision _ _ => .revision
  | .root _ => .root
  | .manifest _ _ => .manifest
  | .packages _ _ => .packages

/-- Whether a cache has the answer to a query. -/
def isKnown (c : Cache) : Query → Bool
  | .versions p => c.knows Cache.versionsTable p
  | .revision p r => c.knows Cache.revisionsTable (p, r)
  | .root path => c.knows Cache.rootsTable path
  | .manifest p v => c.knows Cache.manifestsTable (p, v)
  | .packages p v => c.knows Cache.packagesTable (p, v)

end Query

/-- Some counts, and on top of them so many queries. -/
def QueryCounts.add (c : QueryCounts) (queries : List Query) : QueryCounts :=
  queries.foldr (fun q c => c.bump q.kind) c

namespace Session

variable {α : Type}

/-- A query to a session, which is noted if it reaches the provider: the provider counts it then. -/
def noting (q : Query) (query : Ask Session α) : Ask (Session × List Query) α :=
  ExceptT.mk fun (s, log) =>
    let (answer, next) := query.run.run s
    (answer, next, if next.provider.counts = s.provider.counts then log else q :: log)

/-- The session as a source that notes which queries reach the provider, the latest first. -/
def notedSource : Source (Session × List Query) where
  checkpoint := do
    if (← get).1.provider.isCancelled then
      throw .cancelled
  versions p := noting (.versions p) (versions p)
  hasRevision p r := noting (.revision p r) (hasRevision p r)
  rootOf path := noting (.root path) (rootOf path)
  manifestOf p v := noting (.manifest p v.canonical) (manifestOf p v)
  packagesOf p v := noting (.packages p v.canonical) (packagesOf p v)
  prefetch projects := do
    let (s, _) ← get
    let pending := projects.filter fun p => ! s.cache.hasVersions p
    if 2 ≤ pending.length ∧ ! s.provider.isCancelled then
      pending.forM fun p => discard (noting (.versions p) (versions p)).run

/-- What a session in use has noted since the provider had some counts: different queries, each of
which the cache can answer now and the provider has counted. -/
structure Notes (c : QueryCounts) (s : Session) (log : List Query) : Prop where
  isReleased : s.isReleased = false
  nodup : log.Nodup
  known : ∀ q ∈ log, q.isKnown s.cache = true
  counts : s.provider.counts = c.add log

/-- A session that notes queries, and one that does not. -/
def NotedAs (c : QueryCounts) (x : Session × List Query) (s : Session) : Prop :=
  x.1 = s ∧ s.Notes c x.2

theorem noting_run (q : Query) (query : Ask Session α) (s : Session) (log : List Query) :
    (noting q query).run.run (s, log) =
      ((query.run.run s).1, (query.run.run s).2,
        if (query.run.run s).2.provider.counts = s.provider.counts then log else q :: log) :=
  rfl

theorem counts_begin (kind : QueryKind) (p : Provider) :
    (p.begin kind).counts = p.counts.bump kind := by
  unfold Provider.begin
  dsimp only
  split
  · rfl
  · split <;> rfl

theorem bump_ne (c : QueryCounts) (kind : QueryKind) : c.bump kind ≠ c := by
  cases c
  cases kind <;> simp [QueryCounts.bump]

/-- A query is answered from the entry of a key in a table, and storing that entry
forgets no other. -/
structure Keeps {κ : Type} [DecidableEq κ] (table : CacheTable κ α) (key : κ)
    (q : Query) : Prop where
  isKnown : ∀ c, q.isKnown c = c.knows table key
  store : ∀ c answer q', q' = q ∨ q'.isKnown c = true →
    q'.isKnown (Cache.store table key answer c) = true

theorem knows_of_store {κ : Type} [DecidableEq κ] {table : CacheTable κ α} {c c' : Cache}
    {key key' : κ} {answer : Except SourceFault α}
    (hget : table.get c' = (key, answer) :: table.get c)
    (h : key' = key ∨ c.knows table key' = true) : c'.knows table key' = true := by
  unfold Cache.knows
  rw [hget, List.lookup_cons]
  by_cases hk : key' = key
  · simp [hk]
  · rw [beq_eq_false_iff_ne.2 hk]
    exact h.resolve_left hk

theorem keeps_versions (p : Project) : Keeps Cache.versionsTable p (.versions p) where
  isKnown _ := rfl
  store c answer q' h := by
    cases q' with
    | versions p' => exact knows_of_store (c := c) rfl (h.imp_left Query.versions.inj)
    | _ => exact h.resolve_left (by simp)

theorem keeps_revisions (p : Project) (r : Revision) :
    Keeps Cache.revisionsTable (p, r) (.revision p r) where
  isKnown _ := rfl
  store c answer q' h := by
    cases q' with
    | revision p' r' =>
      exact knows_of_store (c := c) rfl
        (h.imp_left fun he => Prod.ext_iff.2 (Query.revision.inj he))
    | _ => exact h.resolve_left (by simp)

theorem keeps_roots (path : String) : Keeps Cache.rootsTable path (.root path) where
  isKnown _ := rfl
  store c answer q' h := by
    cases q' with
    | root path' => exact knows_of_store (c := c) rfl (h.imp_left Query.root.inj)
    | _ => exact h.resolve_left (by simp)

theorem keeps_manifests (p : Project) (v : Version) :
    Keeps Cache.manifestsTable (Cache.versionKey p v) (.manifest p v.canonical) where
  isKnown _ := rfl
  store c answer q' h := by
    cases q' with
    | manifest p' v' =>
      exact knows_of_store (c := c) rfl
        (h.imp_left fun he => Prod.ext_iff.2 (Query.manifest.inj he))
    | _ => exact h.resolve_left (by simp)

theorem keeps_packages (p : Project) (v : Version) :
    Keeps Cache.packagesTable (Cache.versionKey p v) (.packages p v.canonical) where
  isKnown _ := rfl
  store c answer q' h := by
    cases q' with
    | packages p' v' =>
      exact knows_of_store (c := c) rfl
        (h.imp_left fun he => Prod.ext_iff.2 (Query.packages.inj he))
    | _ => exact h.resolve_left (by simp)

section Remember

variable {κ : Type} [DecidableEq κ] {table : CacheTable κ α} {key : κ} {q : Query}
  {f : Universe → Except SourceFault α} {c : QueryCounts}

/-- A query that reaches the provider was not asked before. -/
theorem Notes.fetched {s : Session} {log : List Query} (h : s.Notes c log)
    (hkeeps : Keeps table key q) (hnone : (table.get s.cache).lookup key = none)
    (answer : Except SourceFault α) :
    Notes c { s with
      cache := Cache.store table key answer s.cache
      provider := s.provider.begin q.kind } (q :: log) where
  isReleased := h.isReleased
  nodup := by
    refine List.nodup_cons.2 ⟨fun hq => ?_, h.nodup⟩
    have hknown := h.known q hq
    rw [hkeeps.isKnown, Cache.knows, hnone] at hknown
    simp at hknown
  known := List.forall_mem_cons.2 ⟨hkeeps.store _ _ _ (.inl rfl), fun q' hq' =>
    hkeeps.store _ _ _ (.inr (h.known q' hq'))⟩
  counts := by
    rw [counts_begin, h.counts]
    rfl

/-- Noting a query that is remembered in a table does not change its answer. -/
theorem noting_mirrors (hkeeps : Keeps table key q) :
    Ask.Mirrors False (NotedAs c) Eq
      (noting q (ask (Cache.remember table key (fetch (Provider.ask q.kind f)))))
      (ask (Cache.remember table key (fetch (Provider.ask q.kind f)))) := by
  rintro ⟨s, log⟩ _ ⟨rfl, hnotes⟩
  rw [noting_run]
  refine .inr ⟨.of_eq rfl, rfl, ?_⟩
  dsimp only
  rw [ask_run]
  split
  · rw [if_pos rfl]
    exact hnotes
  · cases hl : (table.get s.cache).lookup key with
    | some answer =>
      rw [run_remember_of_some hl, if_pos rfl]
      refine ⟨hnotes.isReleased, hnotes.nodup, fun q' hq' => ?_, hnotes.counts⟩
      have hknown := hnotes.known q' hq'
      cases q' <;> exact hknown
    | none =>
      rw [run_remember_of_none hl, if_neg]
      · exact hnotes.fetched hkeeps hl _
      · dsimp only
        rw [counts_begin]
        exact bump_ne _ _

end Remember

variable {c : QueryCounts}

theorem noting_versions (p : Project) :
    Ask.Mirrors False (NotedAs c) Eq (noting (.versions p) (versions p)) (versions p) :=
  noting_mirrors (keeps_versions p)

theorem noting_prefetch (projects : List Project) {x : Session × List Query} {s : Session}
    (h : NotedAs c x s) :
    NotedAs c ((notedSource.prefetch projects).run x).2 ((prefetch projects).run s).2 := by
  have hfor : ∀ (l : List Project) {x : Session × List Query} {s : Session}, NotedAs c x s →
      NotedAs c ((l.forM fun p => discard (noting (.versions p) (versions p)).run :
          StateM (Session × List Query) Unit).run x).2
        ((l.forM fun p => discard (versions p).run : StateM Session Unit).run s).2 := by
    intro l
    induction l with
    | nil => exact id
    | cons p l ih =>
      intro x s hx
      rcases noting_versions p x s hx with ⟨hf, -⟩ | ⟨-, hnext⟩
      · exact hf.elim
      · exact ih hnext
  obtain ⟨s', log⟩ := x
  obtain ⟨rfl, hnotes⟩ := h
  have hrun : (prefetch projects).run s' =
      (if 2 ≤ (projects.filter fun p => ! s'.cache.hasVersions p).length ∧ ! s'.provider.isCancelled
        then ((projects.filter fun p => ! s'.cache.hasVersions p).forM fun p =>
          discard (versions p).run : StateM Session Unit)
        else pure ()).run s' := rfl
  have hrun' : (notedSource.prefetch projects).run (s', log) =
      (if 2 ≤ (projects.filter fun p => ! s'.cache.hasVersions p).length ∧ ! s'.provider.isCancelled
        then ((projects.filter fun p => ! s'.cache.hasVersions p).forM fun p =>
          discard (noting (.versions p) (versions p)).run : StateM (Session × List Query) Unit)
        else pure ()).run (s', log) := rfl
  rw [hrun, hrun']
  split
  · exact hfor _ ⟨rfl, hnotes⟩
  · exact ⟨rfl, hnotes⟩

theorem noting_checkpoint : Ask.Mirrors False (NotedAs c) Eq notedSource.checkpoint checkpoint := by
  rintro ⟨s, log⟩ _ ⟨rfl, hnotes⟩
  have hget : (get : Ask (Session × List Query) (Session × List Query)).run.run (s, log) =
      (.ok (s, log), s, log) := rfl
  have hrun : notedSource.checkpoint.run.run (s, log) =
      if s.provider.isCancelled then (.error .cancelled, s, log) else (.ok (), s, log) := by
    unfold notedSource
    rw [run_bind_eq, hget]
    dsimp only
    split <;> rfl
  rw [hrun, checkpoint_run]
  refine .inr ?_
  split
  · exact ⟨.error _, rfl, hnotes⟩
  · exact ⟨.ok rfl, rfl, hnotes⟩

theorem noting_hasRevision (p : Project) (r : Revision) :
    Ask.Mirrors False (NotedAs c) Eq (noting (.revision p r) (hasRevision p r)) (hasRevision p r) :=
  noting_mirrors (keeps_revisions p r)

theorem noting_rootOf (path : String) :
    Ask.Mirrors False (NotedAs c) Eq (noting (.root path) (rootOf path)) (rootOf path) :=
  noting_mirrors (keeps_roots path)

theorem noting_manifestOf (p : Project) (v : Version) : Ask.Mirrors False (NotedAs c) Eq
    (noting (.manifest p v.canonical) (manifestOf p v)) (manifestOf p v) :=
  noting_mirrors (keeps_manifests p v)

theorem noting_packagesOf (p : Project) (v : Version) : Ask.Mirrors False (NotedAs c) Eq
    (noting (.packages p v.canonical) (packagesOf p v)) (packagesOf p v) :=
  noting_mirrors (keeps_packages p v)

theorem notedSource_mirrors (problem : Problem) :
    Source.Mirrors problem False (NotedAs c) notedSource source where
  checkpoint := noting_checkpoint
  versions p := (noting_versions p).mono fun _ _ h => congrArg _ h
  hasRevision p r := noting_hasRevision p r
  rootOf path := noting_rootOf path
  manifestOf p v _ := (noting_manifestOf p v).mono fun _ _ h _ => by rw [h]
  packagesOf p v _ := noting_packagesOf p v
  prefetch ps _ _ h := noting_prefetch ps h

end Session

namespace Provider

/-- The solver of a problem in a session that notes what reaches the provider. -/
def notingSolver (p : Provider) (problem : Problem) (options : SolveOptions) :
    Solver (Session × List Query) :=
  ⟨Session.notedSource, problem, options, p.world.limits⟩

/-- The queries that reach the provider when a problem is solved in a session, the latest first. -/
def queries (p : Provider) (problem : Problem) (options : SolveOptions) : List Query :=
  ((p.notingSolver problem options).run.run.run (.start p, [])).2.2

/-- No query reaches the provider twice while a problem is solved in a session. -/
structure AsksOnce (p : Provider) (problem : Problem) (options : SolveOptions) : Prop where
  /-- The problem is solved in the same way if queries are noted. -/
  noted : ((p.notingSolver problem options).run.run.run (.start p, [])).1 =
    (p.solve problem options).1 ∧
    ((p.notingSolver problem options).run.run.run (.start p, [])).2.1.close =
    (p.solve problem options).2
  nodup : (p.queries problem options).Nodup
  /-- The provider has counted each of the queries once, nothing else, and one release. -/
  counts : (p.solve problem options).2.counts =
    { p.counts.add (p.queries problem options) with
      release := (p.counts.add (p.queries problem options)).release + 1 }

/-- Neither the cache nor prefetches show in how a problem is solved. -/
structure IsTransparent (p : Provider) (problem : Problem) (options : SolveOptions) : Prop where
  prefetch : ∀ prefetch,
    (p.solve problem { options with prefetch }).1 = (p.solve problem options).1
  direct : (p.solveDirectly problem options).1 = (p.solve problem options).1

theorem asksOnce (p : Provider) (problem : Problem) (options : SolveOptions) :
    p.AsksOnce problem options := by
  have hmirrors := Solver.run_mirrors (Session.notedSource_mirrors (c := p.counts) problem) options
    p.world.limits
  have hstart : Session.NotedAs p.counts (.start p, []) (.start p) :=
    ⟨rfl, rfl, List.nodup_nil, fun _ hq => absurd hq List.not_mem_nil, rfl⟩
  rcases hmirrors _ _ hstart with ⟨hf, -⟩ | ⟨halike, hsession, hnotes⟩
  · exact hf.elim
  · let solver : Solver Session := ⟨Session.source, problem, options, p.world.limits⟩
    let session := (solver.run.run.run (.start p)).2
    have hcounts : session.provider.counts = p.counts.add (p.queries problem options) :=
      hnotes.counts
    have hreleased : session.isReleased = false := hnotes.isReleased
    have hclose : (p.solve problem options).2 = session.close := rfl
    refine ⟨⟨halike.eq, congrArg Session.close hsession⟩, hnotes.nodup, ?_⟩
    rw [hclose, ← hcounts, Session.close, Session.release, hreleased]
    rfl

/-- However a problem is solved, with prefetches or without, no query reaches the provider twice.
Unless the caller cancels in the course of the run, the outcome is the same with prefetches,
without, and without the cache. -/
theorem solve_transparent (p : Provider) (problem : Problem) (options : SolveOptions) :
    p.AsksOnce problem options ∧ (p.patience = none → p.IsTransparent problem options) :=
  ⟨p.asksOnce problem options, fun hplan =>
    ⟨solve_prefetch hplan problem options, (solve_eq_directly hplan problem options).symm⟩⟩

end Provider

/-- A universe with a tool of two packages, one of which imports the other. -/
def Universe.withTool : Universe :=
  Universe.empty.register "example.com/tool"
    [((Snapshot.bare (.tag "v1.0.0") ⟨"a1"⟩).withPackage "." (.ofList ["example.com/tool/sub"])
      ).withPackage "sub" (.ofList ["fmt"])]

/-- Four queries solve the problem that imports the tool, in whatever way they are asked. -/
theorem Provider.solve_transparent_of_tool :
    (Provider.new .withTool).patience = none ∧
      ((Provider.new .withTool).queries .importingTool .keep).map Query.kind =
          [.manifest, .packages, .versions, .root] ∧
        (Provider.new .withTool).AsksOnce .importingTool .keep ∧
          (Provider.new .withTool).IsTransparent .importingTool .keep := by
  obtain ⟨honce, htransparent⟩ := solve_transparent (.new .withTool) .importingTool .keep
  exact ⟨rfl, by decide +kernel, honce, htransparent rfl⟩

end Depsolve
