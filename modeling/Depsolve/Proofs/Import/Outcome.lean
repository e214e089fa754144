import Depsolve.Import.Convert
import Depsolve.Proofs.Source.Faithful

/-!
# Conversions over a plain universe

Over `Universe.source` a query has nothing but its outcome, `Ask.outcome`. In a session a foreign
configuration is converted as over the plain universe behind it, unless the run is cancelled
(`Session.convert_follows`). Converting does not say that it was cancelled: a root that cannot be
asked for is taken for an unknown one.
-/

namespace Depsolve

variable {α β γ : Type}

namespace Ask

/-- How a query over a plain universe ends. -/
def outcome (m : Ask Unit α) : Except Fault α :=
  (m.run.run ()).1

@[simp]
theorem outcome_pure (a : α) : (pure a : Ask Unit α).outcome = .ok a := rfl

@[simp]
theorem outcome_conversionFault (e : ConversionFault) :
    (conversionFault e : Ask Unit α).outcome = .error (.conversion e) := rfl

@[simp]
theorem outcome_answer (result : Except SourceFault α) :
    (answer result).outcome = result.mapError Fault.lookup := by
  cases result <;> rfl

theorem outcome_bind (m : Ask Unit α) (f : α → Ask Unit β) :
    (m >>= f).outcome =
      match m.outcome with
      | .ok a => (f a).outcome
      | .error e => .error e := by
  unfold outcome
  rw [run_bind_eq]
  rcases m.run.run () with ⟨_ | _, u⟩ <;> rfl

theorem outcome_bind_eq_ok_iff {m : Ask Unit α} {f : α → Ask Unit β} {b : β} :
    (m >>= f).outcome = .ok b ↔ ∃ a, m.outcome = .ok a ∧ (f a).outcome = .ok b := by
  rw [outcome_bind]
  cases m.outcome <;> simp

theorem outcome_mapM_eq_ok_iff {f : α → Ask Unit β} {a? : Option α} {b? : Option β} :
    (a?.mapM f).outcome = .ok b? ↔
      (a? = none ∧ b? = none) ∨ ∃ a b, a? = some a ∧ (f a).outcome = .ok b ∧ b? = some b := by
  cases a? with
  | none => simp [eq_comm]
  | some a =>
    have hsome : (some a).mapM f = f a >>= fun b => pure (some b) := rfl
    rw [hsome, outcome_bind_eq_ok_iff]
    simp [eq_comm]

theorem run_tryCatch {σ : Type} (m : Ask σ α) (f : Fault → Ask σ α) (s : σ) :
    (tryCatch m f).run.run s =
      match m.run.run s with
      | (.ok a, s') => (.ok a, s')
      | (.error e, s') => (f e).run.run s' := by
  simp only [ExceptT.run, tryCatch, tryCatchThe, MonadExceptOf.tryCatch,
    ExceptT.tryCatch, ExceptT.mk, StateT.run_bind]
  rcases StateT.run m s with ⟨_ | _, s'⟩ <;> rfl

end Ask

namespace Session

/-- In a session that serves a universe a computation ends as another does over the plain universe;
unless the session is steady, it may also fail because it was cancelled. -/
def Follows (u : Universe) (steady : Prop) (m : Ask Session α) (n : Ask Unit α) : Prop :=
  ∀ s, s.Serves u steady → (¬ steady ∧ ∃ e, (m.run.run s).1 = .error e) ∨
    ((m.run.run s).1 = n.outcome ∧ (m.run.run s).2.Serves u steady)

variable {u : Universe} {steady : Prop}

namespace Follows

theorem of_mirrors {m : Ask Session α} {n : Ask Unit α}
    (h : Ask.Mirrors (¬ steady) (fun s _ => Serves u steady s) Eq m n) : Follows u steady m n := by
  intro s hs
  rcases h s () hs with ⟨hn, he⟩ | ⟨halike, hserves⟩
  · exact .inl ⟨hn, _, he⟩
  · exact .inr ⟨halike.eq, hserves⟩

theorem pure (a : α) : Follows u steady (Pure.pure a) (Pure.pure a) :=
  fun _ hs => .inr ⟨rfl, hs⟩

theorem mk (result : Except Fault α) :
    Follows u steady (ExceptT.mk (Pure.pure result)) (ExceptT.mk (Pure.pure result)) :=
  fun _ hs => .inr ⟨rfl, hs⟩

theorem throw (e : Fault) :
    Follows u steady (MonadExcept.throw e : Ask Session α) (MonadExcept.throw e) :=
  fun _ hs => .inr ⟨rfl, hs⟩

theorem bind {m : Ask Session α} {n : Ask Unit α} {f : α → Ask Session β} {g : α → Ask Unit β}
    (h : Follows u steady m n) (hf : ∀ a, Follows u steady (f a) (g a)) :
    Follows u steady (m >>= f) (n >>= g) := by
  intro s hs
  rw [run_bind_eq, Ask.outcome_bind]
  rcases hm : m.run.run s with ⟨result, s'⟩
  rcases h s hs with ⟨hn, e, he⟩ | ⟨heq, hserves⟩
  · rw [hm] at he
    obtain rfl : result = .error e := he
    exact .inl ⟨hn, e, rfl⟩
  · rw [hm] at heq hserves
    rw [← heq]
    cases result with
    | error e => exact .inr ⟨rfl, hserves⟩
    | ok a => exact hf a s' hserves

/-- A fault is told in other words. -/
theorem adapt {m : Ask Session α} {n : Ask Unit α} (h : Follows u steady m n) (f : Fault → Fault) :
    Follows u steady (tryCatch m fun e => MonadExcept.throw (f e))
      (tryCatch n fun e => MonadExcept.throw (f e)) := by
  intro s hs
  unfold Ask.outcome
  rw [Ask.run_tryCatch, Ask.run_tryCatch]
  rcases hm : m.run.run s with ⟨result, s'⟩
  rcases hn : n.run.run () with ⟨result', t⟩
  rcases h s hs with ⟨hsteady, e, he⟩ | ⟨heq, hserves⟩
  · rw [hm] at he
    obtain rfl : result = .error e := he
    exact .inl ⟨hsteady, f e, rfl⟩
  · rw [hm] at heq hserves
    obtain rfl : result = result' := heq.trans (congrArg Prod.fst hn)
    cases result with
    | error e => exact .inr ⟨rfl, hserves⟩
    | ok a => exact .inr ⟨rfl, hserves⟩

theorem mapM {f : α → Ask Session β} {g : α → Ask Unit β} (h : ∀ a, Follows u steady (f a) (g a))
    (a? : Option α) : Follows u steady (a?.mapM f) (a?.mapM g) := by
  cases a? with
  | none => exact pure none
  | some a => exact bind (h a) fun b => pure (some b)

theorem foldlM {f : α → γ → Ask Session α} {g : α → γ → Ask Unit α}
    (h : ∀ a c, Follows u steady (f a c) (g a c)) (l : List γ) (a : α) :
    Follows u steady (l.foldlM f a) (l.foldlM g a) := by
  induction l generalizing a with
  | nil => exact pure a
  | cons c l ih =>
    rw [List.foldlM_cons, List.foldlM_cons]
    exact bind (h a c) ih

end Follows

theorem constraintOfHint_follows (project : Project) (hint : String) :
    Follows u steady (constraintOfHint source project hint)
      (constraintOfHint u.source project hint) := by
  unfold constraintOfHint
  split
  · exact .pure _
  · split
    · split
      · exact .pure _
      · exact .throw _
    · exact .bind (.of_mirrors (mirrors_versions project)) fun listed => .pure _

theorem importedRoot_follows (name : String) :
    Follows u steady (importedRoot source name) (importedRoot u.source name) :=
  .adapt (.of_mirrors (mirrors_rootOf name)) _

theorem pinOf_follows (root : String) (p : ForeignPackage) :
    Follows u steady (pinOf root p : Ask Session Pin) (pinOf root p) := by
  unfold pinOf
  split
  · exact .throw _
  · exact .pure _

theorem importProject_follows (root relative : String) (pin : Pin) :
    Follows u steady (importProject source root relative pin)
      (importProject u.source root relative pin) := by
  refine .bind (.mapM (constraintOfHint_follows _) _) fun hinted => ?_
  refine .bind (.mapM (fun r => ?_) _) fun version => .pure _
  exact .bind (.of_mirrors (mirrors_versions _)) fun listed => .pure _

theorem importPackage_follows (projects : Imported) (index : Nat) (p : ForeignPackage) :
    Follows u steady (importPackage source projects index p)
      (importPackage u.source projects index p) := by
  unfold importPackage
  dsimp only
  split
  · exact .throw _
  · refine .bind (importedRoot_follows _) fun root => ?_
    refine .bind (pinOf_follows root p) fun pin => ?_
    split
    · split
      · exact .throw _
      · exact .pure _
    · exact .bind (importProject_follows root _ pin) fun imported => .pure _

/-- In a session a configuration is converted as over the universe that the session serves. -/
theorem convert_follows (config : ForeignConfig) :
    Follows u steady (convert source config) (convert u.source config) := by
  refine .bind (.mk (config.ignored.forM checkRule)) fun _ => ?_
  refine .bind (.foldlM (fun projects entry => ?_) config.packages.zipIdx _) fun projects => .pure _
  exact importPackage_follows projects entry.2 entry.1

theorem outcome_of_convert {s : Session} (hs : s.Serves u steady) {config : ForeignConfig}
    {c : Conversion} (h : ((convert source config).run.run s).1 = .ok c) :
    (convert u.source config).outcome = .ok c := by
  rcases convert_follows config s hs with ⟨-, e, he⟩ | ⟨heq, -⟩
  · rw [he] at h
    exact nomatch h
  · exact heq.symm.trans h

end Session

end Depsolve
