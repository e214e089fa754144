import Mathlib.Data.List.Nodup
import Depsolve.Proofs.Source.Faithful
import Depsolve.Proofs.Universe.Listing

/-!
# Sessions over two universes

Two sessions that are asked the same queries keep the same keys in their caches, each with the
answers of its own universe, and meet a plan to cancel at the same query (`Session.Pairs`). If the
universes answer alike (`Universe.AnswersAs`), the one session mirrors the other, so that a problem
is solved in the same way in both.

Universes that list the same in another order answer alike (`Universe.Relists`): the order in which
the versions of a project are listed does not matter to a solver.
-/

namespace Depsolve

variable {α : Type} {u u' : Universe}

/-- Two tables of answers with the same keys, each right by its own truth. -/
def Answers.Pairs {κ : Type} (truth truth' : κ → Except SourceFault α)
    (l l' : Answers κ α) : Prop :=
  List.Forall₂ (fun e e' => e.1 = e'.1 ∧ e.2 = truth e.1 ∧ e'.2 = truth' e'.1) l l'

theorem Answers.Pairs.lookup {κ : Type} [DecidableEq κ] {truth truth' : κ → Except SourceFault α}
    {l l' : Answers κ α} (h : Answers.Pairs truth truth' l l') (key : κ) :
    (l.lookup key = none ∧ l'.lookup key = none) ∨
      (l.lookup key = some (truth key) ∧ l'.lookup key = some (truth' key)) := by
  induction h with
  | nil => exact .inl ⟨rfl, rfl⟩
  | @cons a b l l' hab _ ih =>
    obtain ⟨k, answer⟩ := a
    obtain ⟨k', answer'⟩ := b
    obtain ⟨rfl, rfl, rfl⟩ : k = k' ∧ answer = truth k ∧ answer' = truth' k' := hab
    rw [List.lookup_cons, List.lookup_cons]
    by_cases hk : key = k
    · subst hk
      rw [beq_self_eq_true]
      exact .inr ⟨rfl, rfl⟩
    · rw [beq_eq_false_iff_ne.2 hk]
      exact ih

/-- Two caches with the same keys, each with the answers of its universe. -/
structure Cache.Pairs (u u' : Universe) (c c' : Cache) : Prop where
  versions : Answers.Pairs u.versions u'.versions c.versions c'.versions
  revisions : Answers.Pairs (fun k => u.hasRevision k.1 k.2) (fun k => u'.hasRevision k.1 k.2)
    c.revisions c'.revisions
  roots : Answers.Pairs u.rootOf u'.rootOf c.roots c'.roots
  manifests : Answers.Pairs (fun k => u.manifestOf k.1 k.2) (fun k => u'.manifestOf k.1 k.2)
    c.manifests c'.manifests
  packages : Answers.Pairs (fun k => u.packagesOf k.1 k.2) (fun k => u'.packagesOf k.1 k.2)
    c.packages c'.packages

namespace Session

/-- Two sessions over two universes that have been asked the same. -/
structure Pairs (u u' : Universe) (s s' : Session) : Prop where
  world : s.provider.world = u
  world' : s'.provider.world = u'
  isCancelled : s.provider.isCancelled = s'.provider.isCancelled
  patience : s.provider.patience = s'.provider.patience
  cache : s.cache.Pairs u u' s'.cache

/-- A table that stays paired as long as its caches do. -/
structure TablePairs {κ : Type} (u u' : Universe) (table : CacheTable κ α)
    (truth truth' : κ → Except SourceFault α) : Prop where
  pairs : ∀ c c', Cache.Pairs u u' c c' → Answers.Pairs truth truth' (table.get c) (table.get c')
  store : ∀ c c', Cache.Pairs u u' c c' → ∀ k,
    Cache.Pairs u u' (Cache.store table k (truth k) c) (Cache.store table k (truth' k) c')

/-- Providers with the same plan to cancel begin a query alike. -/
theorem begin_congr (kind : QueryKind) {p p' : Provider} (hcancel : p.isCancelled = p'.isCancelled)
    (hpatience : p.patience = p'.patience) :
    (p.begin kind).isCancelled = (p'.begin kind).isCancelled ∧
      (p.begin kind).patience = (p'.begin kind).patience := by
  unfold Provider.begin
  dsimp only
  rw [hpatience]
  cases p'.patience with
  | none => exact ⟨hcancel, rfl⟩
  | some n =>
    dsimp only
    split
    · exact ⟨rfl, rfl⟩
    · exact ⟨hcancel, rfl⟩

/-- A query that is remembered mirrors itself, if the universes answer alike. -/
theorem pairs_remember {κ : Type} [DecidableEq κ] {table : CacheTable κ α}
    {truth truth' : κ → Except SourceFault α} (ht : TablePairs u u' table truth truth') (key : κ)
    (kind : QueryKind) {f : Universe → Except SourceFault α} (hf : f u = truth key)
    (hf' : f u' = truth' key) {Q : α → α → Prop} (hQ : Alike Q (f u) (f u')) :
    Ask.Mirrors False (Pairs u u') Q (ask (Cache.remember table key (fetch (Provider.ask kind f))))
      (ask (Cache.remember table key (fetch (Provider.ask kind f)))) := by
  intro s t hst
  rw [ask_run, ask_run, hst.isCancelled]
  refine .inr ?_
  split
  · exact ⟨.error _, hst⟩
  · rcases (ht.pairs _ _ hst.cache).lookup key with ⟨hnone, hnone'⟩ | ⟨hsome, hsome'⟩
    -- both fetch the answer
    · rw [run_remember_of_none hnone, run_remember_of_none hnone']
      dsimp only
      rw [world_begin, world_begin, hst.world, hst.world']
      refine ⟨hQ.mapError _, ?_⟩
      obtain ⟨hcancel, hpatience⟩ := begin_congr kind hst.isCancelled hst.patience
      rw [hf, hf']
      refine ⟨?_, ?_, hcancel, hpatience, ht.store _ _ hst.cache key⟩
      · rw [world_begin, hst.world]
      · rw [world_begin, hst.world']
    -- both know it
    · rw [run_remember_of_some hsome, run_remember_of_some hsome', ← hf, ← hf']
      have hcache := hst.cache
      exact ⟨hQ.mapError _, hst.world, hst.world', hst.isCancelled, hst.patience,
        ⟨hcache.versions, hcache.revisions, hcache.roots, hcache.manifests, hcache.packages⟩⟩

theorem pairs_versionsTable : TablePairs u u' Cache.versionsTable u.versions u'.versions :=
  ⟨fun _ _ h => h.versions, fun _ _ h _ =>
    ⟨.cons ⟨rfl, rfl, rfl⟩ h.versions, h.revisions, h.roots, h.manifests, h.packages⟩⟩

theorem pairs_revisionsTable : TablePairs u u' Cache.revisionsTable
    (fun k => u.hasRevision k.1 k.2) (fun k => u'.hasRevision k.1 k.2) :=
  ⟨fun _ _ h => h.revisions, fun _ _ h _ =>
    ⟨h.versions, .cons ⟨rfl, rfl, rfl⟩ h.revisions, h.roots, h.manifests, h.packages⟩⟩

theorem pairs_rootsTable : TablePairs u u' Cache.rootsTable u.rootOf u'.rootOf :=
  ⟨fun _ _ h => h.roots, fun _ _ h _ =>
    ⟨h.versions, h.revisions, .cons ⟨rfl, rfl, rfl⟩ h.roots, h.manifests, h.packages⟩⟩

theorem pairs_manifestsTable : TablePairs u u' Cache.manifestsTable
    (fun k => u.manifestOf k.1 k.2) (fun k => u'.manifestOf k.1 k.2) :=
  ⟨fun _ _ h => h.manifests, fun _ _ h _ =>
    ⟨h.versions, h.revisions, h.roots, .cons ⟨rfl, rfl, rfl⟩ h.manifests, h.packages⟩⟩

theorem pairs_packagesTable : TablePairs u u' Cache.packagesTable
    (fun k => u.packagesOf k.1 k.2) (fun k => u'.packagesOf k.1 k.2) :=
  ⟨fun _ _ h => h.packages, fun _ _ h _ =>
    ⟨h.versions, h.revisions, h.roots, h.manifests, .cons ⟨rfl, rfl, rfl⟩ h.packages⟩⟩

theorem pairs_checkpoint : Ask.Mirrors False (Pairs u u') Eq checkpoint checkpoint := by
  intro s t hst
  rw [checkpoint_run, checkpoint_run, hst.isCancelled]
  refine .inr ?_
  split
  · exact ⟨.error _, hst⟩
  · exact ⟨.ok rfl, hst⟩

end Session

/-- A universe answers whatever a solver of the problem may ask as another does, as far as the
solver can tell. -/
structure Universe.AnswersAs (problem : Problem) (u u' : Universe) : Prop where
  versions : ∀ p, Alike SortAlike (u.versions p) (u'.versions p)
  hasRevision : ∀ p r, Alike Eq (u.hasRevision p r) (u'.hasRevision p r)
  rootOf : ∀ path, u.rootOf path = u'.rootOf path
  manifestOf : ∀ p v, v.Pinned → Alike problem.SameTerms (u.manifestOf p v) (u'.manifestOf p v)
  packagesOf : ∀ p v, v.Pinned → Alike Eq (u.packagesOf p v) (u'.packagesOf p v)

namespace Session

section AnswersAs

variable {problem : Problem} (h : u.AnswersAs problem u')

include h

theorem pairs_versions (p : Project) :
    Ask.Mirrors False (Pairs u u') SortAlike (versions p) (versions p) :=
  pairs_remember pairs_versionsTable p .versions rfl rfl (h.versions p)

theorem pairs_prefetch (projects : List Project) {s t : Session} (hst : s.Pairs u u' t) :
    ((prefetch projects).run s).2.Pairs u u' ((prefetch projects).run t).2 := by
  have hfor : ∀ (l : List Project) {s t : Session}, s.Pairs u u' t →
      ((l.forM fun p => discard (versions p).run : StateM Session Unit).run s).2.Pairs u u'
        ((l.forM fun p => discard (versions p).run : StateM Session Unit).run t).2 := by
    intro l
    induction l with
    | nil => exact id
    | cons p l ih =>
      intro s t hst
      rcases pairs_versions h p s t hst with ⟨hf, -⟩ | ⟨-, hnext⟩
      · exact hf.elim
      · exact ih hnext
  have hrun : ∀ s : Session, (prefetch projects).run s =
      (if 2 ≤ (projects.filter fun p => ! s.cache.hasVersions p).length ∧ ! s.provider.isCancelled
        then ((projects.filter fun p => ! s.cache.hasVersions p).forM fun p =>
          discard (versions p).run : StateM Session Unit)
        else pure ()).run s := fun _ => rfl
  have hknown : ∀ p, s.cache.hasVersions p = t.cache.hasVersions p := by
    intro p
    unfold Cache.hasVersions
    rcases hst.cache.versions.lookup p with ⟨hnone, hnone'⟩ | ⟨hsome, hsome'⟩
    · rw [hnone, hnone']
    · rw [hsome, hsome']
      rfl
  rw [hrun s, hrun t]
  simp only [hknown, hst.isCancelled]
  split
  · exact hfor _ hst
  · exact hst

/-- Sessions over universes that answer alike mirror one another. -/
theorem source_mirrors_of_answersAs : Source.Mirrors problem False (Pairs u u') source source where
  checkpoint := pairs_checkpoint
  versions := pairs_versions h
  hasRevision p r := pairs_remember pairs_revisionsTable (p, r) .revision rfl rfl
    (h.hasRevision p r)
  rootOf path := pairs_remember pairs_rootsTable path .root rfl rfl (.of_eq (h.rootOf path))
  manifestOf p v hv := pairs_remember (f := fun u => u.manifestOf p v) pairs_manifestsTable
    (Cache.versionKey p v) .manifest (u.manifestOf_canonical p v).symm
    (u'.manifestOf_canonical p v).symm (h.manifestOf p v hv)
  packagesOf p v hv := pairs_remember (f := fun u => u.packagesOf p v) pairs_packagesTable
    (Cache.versionKey p v) .packages (u.packagesOf_canonical p v).symm
    (u'.packagesOf_canonical p v).symm (h.packagesOf p v hv)
  prefetch ps _ _ hst := pairs_prefetch h ps hst

end AnswersAs

end Session

/-- Over universes that answer alike, a problem has the same outcome. -/
theorem Provider.solve_eq_of_answersAs {p p' : Provider} {problem : Problem}
    (h : p.world.AnswersAs problem p'.world) (hlimits : p.world.limits = p'.world.limits)
    (hcancel : p.isCancelled = p'.isCancelled) (hpatience : p.patience = p'.patience)
    (options : SolveOptions) : (p.solve problem options).1 = (p'.solve problem options).1 := by
  have hmirrors := Solver.run_mirrors (Session.source_mirrors_of_answersAs h) options p.world.limits
  have hstart : (Session.start p).Pairs p.world p'.world (.start p') :=
    ⟨rfl, rfl, hcancel, hpatience, ⟨.nil, .nil, .nil, .nil, .nil⟩⟩
  rcases hmirrors _ _ hstart with ⟨hf, -⟩ | ⟨halike, -⟩
  · exact hf.elim
  · have heq := halike.eq
    unfold solve
    rw [← hlimits]
    exact heq

/-! ## Universes that list the same in another order -/

/-- Universes that list the same answer alike, if revisions are hashes. -/
theorem Universe.Relists.answersAs (h : u.Relists u') (hhashes : u.Hashes) (problem : Problem) :
    u.AnswersAs problem u' where
  versions := h.versions
  hasRevision := h.hasRevision
  rootOf := h.rootOf
  manifestOf p _ hv := (h.manifestOf hhashes p hv).mono fun _ _ heq _ => by rw [heq]
  packagesOf p _ hv := h.packagesOf hhashes p hv

/-- Sessions over universes that list in different orders mirror one another, if
revisions are hashes. -/
theorem Session.source_mirrors_of_relists (h : u.Relists u') (hhashes : u.Hashes)
    (problem : Problem) : Source.Mirrors problem False (Pairs u u') source source :=
  source_mirrors_of_answersAs (h.answersAs hhashes problem)

/-- The order in which projects list their versions does not matter: over universes that differ in
nothing else, a problem has the same outcome, if revisions are hashes. -/
theorem Provider.solve_eq_of_relists {p p' : Provider} (h : p.world.Relists p'.world)
    (hhashes : p.world.Hashes) (hcancel : p.isCancelled = p'.isCancelled)
    (hpatience : p.patience = p'.patience) (problem : Problem) (options : SolveOptions) :
    (p.solve problem options).1 = (p'.solve problem options).1 := by
  have hmirrors := Solver.run_mirrors (Session.source_mirrors_of_relists h hhashes problem) options
    p.world.limits
  have hstart : (Session.start p).Pairs p.world p'.world (.start p') :=
    ⟨rfl, rfl, hcancel, hpatience, ⟨.nil, .nil, .nil, .nil, .nil⟩⟩
  rcases hmirrors _ _ hstart with ⟨hf, -⟩ | ⟨halike, -⟩
  · exact hf.elim
  · have heq := halike.eq
    unfold solve
    rw [← h.limits]
    exact heq

/-- A release of a tool. -/
def Snapshot.release : Snapshot :=
  (Snapshot.bare (.tag "v1.0.0") ⟨"a1"⟩).withPackage "." (.ofList ["fmt"])

/-- The branch that the tool is developed on, at another revision. -/
def Snapshot.trunk : Snapshot :=
  Snapshot.bare (.branch "main" true) ⟨"a2"⟩

/-- A universe with the tool, of which some states are published. -/
def Universe.publishing (snapshots : List Snapshot) : Universe :=
  Universe.empty.register "example.com/tool" snapshots

/-- An import of the tool is resolved in the same way, whichever of its states is listed first. -/
theorem Provider.solve_eq_of_swapped :
    (Universe.publishing [.release, .trunk]).Relists (.publishing [.trunk, .release]) ∧
      (Universe.publishing [.release, .trunk]).Hashes ∧
        ((Provider.new (.publishing [.release, .trunk])).solve
            ((Problem.new "example.com/app" .empty).withImports (.ofList ["example.com/tool"]))
            ⟨.empty, false, false, false⟩).1 =
          ((Provider.new (.publishing [.trunk, .release])).solve
            ((Problem.new "example.com/app" .empty).withImports (.ofList ["example.com/tool"]))
            ⟨.empty, false, false, false⟩).1 := by
  have hrelists : (Universe.publishing [.release, .trunk]).Relists
      (.publishing [.trunk, .release]) :=
    ⟨.cons ⟨rfl, .swap _ _ _⟩ .nil, rfl⟩
  have hhashes : (Universe.publishing [.release, .trunk]).Hashes := by
    intro root snapshots hmem s hs t ht hrevision
    have hentries : (Universe.publishing [.release, .trunk]).projects.entries =
        [("example.com/tool", [.release, .trunk])] := rfl
    rw [hentries, List.mem_singleton, Prod.mk.injEq] at hmem
    obtain ⟨-, rfl⟩ := hmem
    -- the two states have different revisions
    have hrevisions : ([Snapshot.release, Snapshot.trunk].map Snapshot.revision).Nodup := by decide
    rw [List.inj_on_of_nodup_map hrevisions hs ht hrevision]
    exact ⟨rfl, rfl⟩
  exact ⟨hrelists, hhashes, @solve_eq_of_relists (.new _) (.new _) hrelists hhashes rfl rfl _ _⟩

end Depsolve
