import Depsolve.Proofs.Source.Queries

/-!
# What a session may be used for

A session is used by operations: queries, prefetches, cancelling and releasing, in any order and any
number, and it is closed in the end. `Session.operations_safe` is the main statement. Whatever the
operations are, the provider is released once; after cancelling, every query is refused and the
provider is asked nothing; and no reply depends on a prefetch.

For the last part, `Session.expected` are the replies that a universe and a flag determine, without
a cache: a prefetch has no place in them.
-/

namespace Depsolve

/-- What a universe answers to a query. -/
def Universe.answer (u : Universe) : (kind : QueryKind) → kind.Key → Except SourceFault kind.Answer
  | .versions, p => u.versions p
  | .revision, (p, r) => u.hasRevision p r
  | .root, path => u.rootOf path
  | .manifest, (p, v) => u.manifestOf p v
  | .packages, (p, v) => u.packagesOf p v

namespace Session

/-- A query to a session. -/
def query : (kind : QueryKind) → kind.Key → Ask Session kind.Answer
  | .versions, p => versions p
  | .revision, (p, r) => hasRevision p r
  | .root, path => rootOf path
  | .manifest, (p, v) => manifestOf p v
  | .packages, (p, v) => packagesOf p v

/-- What can be done with a session. -/
inductive Operation
  | query (kind : QueryKind) (key : kind.Key)
  | prefetch (projects : List Project)
  | cancel
  | release

/-- The reply to a query. -/
structure Reply where
  kind : QueryKind
  key : kind.Key
  answer : Except Fault kind.Answer

/-- Does an operation: the reply, if it is a query, and the session afterwards. -/
def perform (s : Session) : Operation → Option Reply × Session
  | .query kind key =>
    let (answer, s) := (query kind key).run.run s
    (some ⟨kind, key, answer⟩, s)
  | .prefetch projects => (none, ((prefetch projects).run s).2)
  | .cancel => (none, s.cancel)
  | .release => (none, s.release)

/-- The session after some operations. -/
def after (s : Session) (operations : List Operation) : Session :=
  operations.foldl (fun s operation => (s.perform operation).2) s

/-- The replies to the queries among some operations. -/
def replies (s : Session) : List Operation → List Reply
  | [] => []
  | operation :: operations =>
    (s.perform operation).1.toList ++ (s.perform operation).2.replies operations

/-- The reply to an operation when the run has been cancelled. -/
def Operation.refusal? : Operation → Option Reply
  | .query kind key => some ⟨kind, key, .error .cancelled⟩
  | _ => none

/-- What holds of a session for a provider, used for some operations and then for more. -/
structure IsSafe (p : Provider) (operations more : List Operation) : Prop where
  /-- From its start to its end it releases the provider once. -/
  released : ((start p).after (operations ++ more)).close.counts.release = p.counts.release + 1
  /-- Cancelling cancels for good. -/
  cancelled : .cancel ∈ operations → ((start p).after operations).provider.isCancelled = true
  /-- When the run has been cancelled, every query is refused. -/
  refused : ((start p).after operations).provider.isCancelled = true →
    ((start p).after operations).replies more = more.filterMap Operation.refusal?
  /-- When the run has been cancelled, the provider is asked nothing until the end. -/
  unasked : ((start p).after operations).provider.isCancelled = true →
    ((start p).after (operations ++ more)).close.counts =
      { ((start p).after operations).provider.counts with release := p.counts.release + 1 }
  /-- If nobody plans to cancel, a prefetch changes no reply. -/
  prefetched : p.patience = none → ∀ projects,
    (start p).replies (operations ++ .prefetch projects :: more) =
    (start p).replies (operations ++ more)

variable {u : Universe} {p : Provider} {s : Session}

theorem query_eq (kind : QueryKind) (key : kind.Key) : query kind key =
    ask (Cache.remember kind.table (kind.entry key)
      (fetch (Provider.ask kind fun u => u.answer kind key))) := by
  cases kind <;> rfl

theorem answers_query (kind : QueryKind) (key : kind.Key) :
    Answers u (Cache.remember kind.table (kind.entry key)
      (fetch (Provider.ask kind fun u => u.answer kind key))) (u.answer kind key) := by
  cases kind with
  | versions => exact answers_versions key
  | revision => exact answers_hasRevision key.1 key.2
  | root => exact answers_rootOf key
  | manifest => exact answers_manifestOf key.1 key.2
  | packages => exact answers_packagesOf key.1 key.2

theorem query_of_cancelled (h : s.provider.isCancelled = true) (kind : QueryKind) (key : kind.Key) :
    (query kind key).run.run s = (.error .cancelled, s) := by
  rw [query_eq, ask_run, if_pos h]

@[simp] theorem after_nil : s.after [] = s :=
  rfl

@[simp] theorem after_cons (operation : Operation) (operations : List Operation) :
    s.after (operation :: operations) = (s.perform operation).2.after operations :=
  rfl

theorem after_append (operations more : List Operation) :
    s.after (operations ++ more) = (s.after operations).after more :=
  List.foldl_append

/-- What queries, cancelling and releasing preserve, every operation preserves. -/
theorem perform_preserves {P : Session → Prop}
    (hquery : ∀ kind key s, P s → P ((query kind key).run.run s).2)
    (hcancel : ∀ s, P s → P s.cancel) (hrelease : ∀ s, P s → P s.release) (operation : Operation)
    (hs : P s) : P (s.perform operation).2 := by
  cases operation with
  | query kind key => exact hquery kind key s hs
  | prefetch projects => exact prefetch_preserves (hquery .versions) projects hs
  | cancel => exact hcancel s hs
  | release => exact hrelease s hs

theorem after_preserves {P : Session → Prop}
    (hquery : ∀ kind key s, P s → P ((query kind key).run.run s).2)
    (hcancel : ∀ s, P s → P s.cancel) (hrelease : ∀ s, P s → P s.release)
    (operations : List Operation) (hs : P s) : P (s.after operations) := by
  induction operations generalizing s with
  | nil => exact hs
  | cons operation operations ih =>
    exact ih (perform_preserves hquery hcancel hrelease operation hs)

/-! ## Releasing -/

theorem close_release (s : Session) : s.release.close = s.close := by
  unfold close release
  split <;> simp_all

theorem close_counts (s : Session) :
    s.close.counts = { s.provider.counts with release := s.close.counts.release } := by
  unfold close release
  split <;> rfl

/-- A query may begin at the provider; it releases nothing. -/
theorem query_provider (kind : QueryKind) (key : kind.Key) (s : Session) :
    ((query kind key).run.run s).2.isReleased = s.isReleased ∧
      (((query kind key).run.run s).2.provider = s.provider ∨
        ((query kind key).run.run s).2.provider = s.provider.begin kind) := by
  rw [query_eq, ask_run]
  split
  · exact ⟨rfl, .inl rfl⟩
  · refine ⟨rfl, ?_⟩
    cases hlookup : (kind.table.get s.cache).lookup (kind.entry key) with
    | some answer => exact .inl (by rw [run_remember_of_some hlookup])
    | none => exact .inr (by rw [run_remember_of_none hlookup])

theorem close_counts_release_query (kind : QueryKind) (key : kind.Key) (s : Session) :
    ((query kind key).run.run s).2.close.counts.release = s.close.counts.release := by
  obtain ⟨hreleased, hprovider⟩ := query_provider kind key s
  have hcounts : ((query kind key).run.run s).2.provider.counts.release =
      s.provider.counts.release := by
    rcases hprovider with heq | heq
    · rw [heq]
    · rw [heq, counts_begin]
      cases kind <;> rfl
  unfold close release
  rw [hreleased]
  split
  · exact hcounts
  · exact congrArg (· + 1) hcounts

theorem close_counts_release_cancel (s : Session) :
    s.cancel.close.counts.release = s.close.counts.release := by
  unfold close release cancel
  split <;> rfl

/-- However a session is used, it releases the provider once. -/
theorem released_after (operations : List Operation) :
    ((start p).after operations).close.counts.release = p.counts.release + 1 := by
  refine after_preserves (P := fun s => s.close.counts.release = p.counts.release + 1)
    (fun kind key s hs => ?_) (fun s hs => ?_) (fun s hs => ?_) operations rfl
  · rw [close_counts_release_query, hs]
  · rw [close_counts_release_cancel, hs]
  · rw [close_release, hs]

/-! ## Cancelling -/

/-- In a run that has been cancelled, an operation leaves the session as it was, or
releases the provider. -/
theorem perform_of_cancelled (h : s.provider.isCancelled = true) (operation : Operation) :
    s.perform operation = (operation.refusal?, s) ∨
    s.perform operation = (operation.refusal?, s.release) := by
  cases operation with
  | query kind key => exact .inl (by rw [perform, query_of_cancelled h]; rfl)
  | prefetch projects => exact .inl (by rw [perform, prefetch_of_cancelled h]; rfl)
  | cancel =>
    refine .inl (Prod.ext rfl ?_)
    obtain ⟨cache, ⟨world, counts, isCancelled, patience⟩, isReleased⟩ := s
    cases h
    rfl
  | release => exact .inr rfl

theorem isCancelled_perform (h : s.provider.isCancelled = true) (operation : Operation) :
    (s.perform operation).2.provider.isCancelled = true := by
  rcases perform_of_cancelled h operation with heq | heq
  · rw [heq, h]
  · rw [heq]
    unfold release
    split <;> exact h

theorem isCancelled_after (h : s.provider.isCancelled = true) (operations : List Operation) :
    (s.after operations).provider.isCancelled = true := by
  induction operations generalizing s with
  | nil => exact h
  | cons operation operations ih => exact ih (isCancelled_perform h operation)

theorem isCancelled_of_cancel {operations : List Operation} (h : .cancel ∈ operations) :
    (s.after operations).provider.isCancelled = true := by
  obtain ⟨before, rest, rfl⟩ := List.append_of_mem h
  rw [after_append, after_cons]
  exact isCancelled_after rfl rest

theorem replies_of_cancelled (h : s.provider.isCancelled = true) (operations : List Operation) :
    s.replies operations = operations.filterMap Operation.refusal? := by
  induction operations generalizing s with
  | nil => rfl
  | cons operation operations ih =>
    have hreply : (s.perform operation).1 = operation.refusal? := by
      rcases perform_of_cancelled h operation with heq | heq <;> rw [heq]
    rw [replies, ih (isCancelled_perform h operation), hreply, List.filterMap_cons]
    cases operation.refusal? <;> rfl

/-- In a run that has been cancelled, nothing but a release shows at the provider. -/
theorem close_of_cancelled (h : s.provider.isCancelled = true) (operations : List Operation) :
    (s.after operations).close = s.close := by
  induction operations generalizing s with
  | nil => rfl
  | cons operation operations ih =>
    rw [after_cons, ih (isCancelled_perform h operation)]
    rcases perform_of_cancelled h operation with heq | heq
    · rw [heq]
    · rw [heq, close_release]

/-! ## Asking ahead of time -/

/-- A session over a universe in a run that has been cancelled or not, and that nobody
plans to cancel. -/
structure Steady (u : Universe) (isCancelled : Bool) (s : Session) : Prop where
  serves : s.Serves u False
  isCancelled : s.provider.isCancelled = isCancelled
  patience : s.provider.patience = none

/-- The answer that a universe determines, in a run that has been cancelled or not. -/
def expectedAnswer (u : Universe) (isCancelled : Bool) (kind : QueryKind) (key : kind.Key) :
    Except Fault kind.Answer :=
  if isCancelled then .error .cancelled else (u.answer kind key).mapError .lookup

/-- The replies that a universe determines, in a run that has been cancelled or not. -/
def expected (u : Universe) : Bool → List Operation → List Reply
  | _, [] => []
  | isCancelled, .query kind key :: operations =>
    ⟨kind, key, expectedAnswer u isCancelled kind key⟩ :: expected u isCancelled operations
  | _, .cancel :: operations => expected u true operations
  | isCancelled, _ :: operations => expected u isCancelled operations

theorem expected_prefetch (isCancelled : Bool) (projects : List Project)
    (operations more : List Operation) :
    expected u isCancelled (operations ++ .prefetch projects :: more) =
      expected u isCancelled (operations ++ more) := by
  induction operations generalizing isCancelled with
  | nil => rfl
  | cons operation operations ih =>
    cases operation with
    | query kind key => exact congrArg (List.cons _) (ih isCancelled)
    | prefetch projects => exact ih isCancelled
    | cancel => exact ih true
    | release => exact ih isCancelled

namespace Steady

variable {isCancelled : Bool}

theorem query (hs : s.Steady u isCancelled) (kind : QueryKind) (key : kind.Key) :
    ((query kind key).run.run s).1 = expectedAnswer u isCancelled kind key ∧
      ((query kind key).run.run s).2.Steady u isCancelled := by
  cases isCancelled with
  | true =>
    rw [query_of_cancelled hs.isCancelled]
    exact ⟨rfl, hs⟩
  | false =>
    obtain ⟨hanswer, htells, hworld, hcalm⟩ :=
      answers_query kind key s.cache s.provider hs.serves.tells hs.serves.world
    obtain ⟨hcancelled, hpatience⟩ := hcalm ⟨hs.isCancelled, hs.patience⟩
    rw [query_eq, ask_run, hs.isCancelled]
    exact ⟨congrArg (·.mapError Fault.lookup) hanswer, ⟨hworld, htells, False.elim⟩,
      hcancelled, hpatience⟩

theorem prefetch (hs : s.Steady u isCancelled) (projects : List Project) :
    ((prefetch projects).run s).2.Steady u isCancelled :=
  prefetch_preserves (fun p _ hs => (hs.query .versions p).2) projects hs

theorem cancel (hs : s.Steady u isCancelled) : s.cancel.Steady u true :=
  ⟨⟨hs.serves.world, hs.serves.tells, False.elim⟩, rfl, hs.patience⟩

theorem release (hs : s.Steady u isCancelled) : s.release.Steady u isCancelled := by
  unfold Session.release
  split
  · exact hs
  · exact ⟨⟨hs.serves.world, hs.serves.tells, False.elim⟩, hs.isCancelled, hs.patience⟩

theorem start (hplan : p.patience = none) : (start p).Steady p.world p.isCancelled :=
  ⟨serves_start rfl False.elim, rfl, hplan⟩

/-- The replies are those that the universe determines, whatever the cache knows. -/
theorem replies_eq (hs : s.Steady u isCancelled) (operations : List Operation) :
    s.replies operations = expected u isCancelled operations := by
  induction operations generalizing s isCancelled with
  | nil => rfl
  | cons operation operations ih =>
    cases operation with
    | query kind key =>
      obtain ⟨hanswer, hnext⟩ := hs.query kind key
      have hreply : (s.perform (.query kind key)).1 =
          some ⟨kind, key, expectedAnswer u isCancelled kind key⟩ := by
        rw [← hanswer]
        rfl
      rw [replies, hreply]
      exact congrArg (List.cons _) (ih hnext)
    | prefetch projects => exact ih (hs.prefetch projects)
    | cancel => exact ih hs.cancel
    | release => exact ih hs.release

end Steady

/-- A session is safe to use: it releases its provider once, it asks nothing after it was cancelled,
and no reply depends on a prefetch. -/
theorem operations_safe (p : Provider) (operations more : List Operation) :
    IsSafe p operations more where
  released := released_after (operations ++ more)
  cancelled := isCancelled_of_cancel
  refused h := replies_of_cancelled h more
  unasked h := by
    rw [after_append, close_of_cancelled h, close_counts, released_after operations]
  prefetched hplan projects := by
    rw [(Steady.start hplan).replies_eq, (Steady.start hplan).replies_eq, expected_prefetch]

/-- Two prefetches of the tool and of something unknown, and a query in between, after which the
run is cancelled. -/
def errands : List Operation :=
  let tool : Project := ⟨"example.com/tool", none⟩
  let other : Project := ⟨"example.com/other", none⟩
  [.query .versions tool, .prefetch [tool, other, other], .prefetch [other, tool],
    .query .versions other, .release, .cancel]

theorem operations_safe_of_errands :
    .cancel ∈ errands ∧ (Provider.new .withTool).patience = none ∧
      ((start (.new .withTool)).after errands).close.counts =
        { QueryCounts.zero with versions := 2, release := 1 } ∧
        IsSafe (.new .withTool) errands errands :=
  ⟨by simp [errands], rfl, by decide +kernel, operations_safe _ errands errands⟩

end Session

end Depsolve
