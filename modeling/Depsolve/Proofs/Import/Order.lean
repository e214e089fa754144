import Depsolve.Proofs.Import.Entries

/-!
# The order of entries does not matter

Only the first entry of a project is looked into; those that follow are compared with it. Which one
is the first does not matter all the same: configurations with the same rules and the same entries,
in whatever order and however often, are converted alike (`Session.convert_eq_of_sameEntries`). What
may depend on the order is which fault is found where there are several.
-/

namespace Depsolve

/-- Two configurations have the same rules and the same entries: one is the other with rules and
entries in another order, or repeated. -/
structure ForeignConfig.SameEntries (config config' : ForeignConfig) : Prop where
  ignored : ∀ rule, rule ∈ config.ignored ↔ rule ∈ config'.ignored
  packages : ∀ p, p ∈ config.packages ↔ p ∈ config'.packages

variable {u : Universe} {config config' : ForeignConfig}

theorem ForeignConfig.SameEntries.symm (h : config.SameEntries config') :
    config'.SameEntries config :=
  ⟨fun rule => (h.ignored rule).symm, fun p => (h.packages p).symm⟩

theorem Universe.convert_of_sameEntries (h : config.SameEntries config') {c : Conversion}
    (hc : (convert u.source config).outcome = .ok c) :
    (convert u.source config').outcome = .ok c := by
  obtain ⟨hrules, projects, hsums, rfl⟩ := convert_ok_iff.1 hc
  have hignored : SortedSet.ofList config.ignored = .ofList config'.ignored :=
    SortedSet.ext fun rule => by
    rw [SortedSet.mem_ofList, SortedSet.mem_ofList, h.ignored]
  rw [hignored]
  exact convert_ok_iff.2 ⟨fun rule hrule => hrules rule ((h.ignored rule).2 hrule), projects,
    hsums.congr h.packages, rfl⟩

/-- In a session that nobody cancels, a conversion gives what it gives over the plain universe. -/
theorem Session.convert_run {s : Session} (hs : s.Serves u True) (config : ForeignConfig) :
    ((convert source config).run.run s).1 = (convert u.source config).outcome := by
  rcases convert_follows config s hs with ⟨hn, -⟩ | ⟨heq, -⟩
  · exact absurd trivial hn
  · exact heq

/-- Configurations with the same rules and entries are converted alike, in sessions that nobody
cancels: either both conversions fail, or both give the same manifest and the same lock. -/
theorem Session.convert_eq_of_sameEntries {s s' : Session} (hs : s.Serves u True)
    (hs' : s'.Serves u True) (h : config.SameEntries config') :
    ((convert source config).run.run s).1.toOption =
      ((convert source config').run.run s').1.toOption := by
  rw [convert_run hs, convert_run hs']
  cases hc : (convert u.source config).outcome with
  | ok c => rw [Universe.convert_of_sameEntries h hc]
  | error e =>
    cases hc' : (convert u.source config').outcome with
    | error e' => rfl
    | ok c' =>
      rw [Universe.convert_of_sameEntries h.symm hc'] at hc
      exact nomatch hc

/-- Two projects, one of them with a default branch, and both with a tag. -/
def Universe.withReleases : Universe :=
  (Universe.empty.register "example.com/tool"
    [Snapshot.bare (.tag "v1.2.0") ⟨"a1"⟩, Snapshot.bare (.branch "main" true) ⟨"a2"⟩]).register
    "example.com/lib" [Snapshot.bare (.tag "nightly") ⟨"b1"⟩]

theorem Session.serves_withReleases : (start (.new .withReleases)).Serves .withReleases True :=
  serves_start rfl fun _ => ⟨rfl, rfl⟩

/-- A configuration that pins two packages of one project and one of another. -/
def ForeignConfig.pinned : ForeignConfig :=
  ⟨["example.com/tool/internal/*", "example.com/old"],
    [⟨"example.com/tool", none, some " ", some " a1 "⟩,
      ⟨"example.com/lib", some "example.com/fork", some "main", some "b1"⟩,
      ⟨" example.com/tool/cmd", some "", none, some "a1"⟩]⟩

/-- The same configuration the other way round, with an entry and a rule repeated. -/
def ForeignConfig.shuffled : ForeignConfig :=
  ⟨["example.com/old", "example.com/tool/internal/*", "example.com/old"],
    ForeignConfig.pinned.packages.reverse ++ ForeignConfig.pinned.packages.take 1⟩

theorem Session.convert_eq_of_shuffled :
    ForeignConfig.pinned.SameEntries .shuffled ∧
      ((convert source .pinned).run.run (.start (.new .withReleases))).1.toOption.isSome ∧
      ((convert source .pinned).run.run (.start (.new .withReleases))).1.toOption =
        ((convert source .shuffled).run.run (.start (.new .withReleases))).1.toOption := by
  have hsame : ForeignConfig.pinned.SameEntries .shuffled := by
    constructor
    · simp [ForeignConfig.pinned, ForeignConfig.shuffled, or_comm]
    · intro p
      simp only [ForeignConfig.shuffled, List.mem_append, List.mem_reverse]
      exact ⟨.inl, fun h => h.elim id List.mem_of_mem_take⟩
  exact ⟨hsame,
    by decide +kernel, convert_eq_of_sameEntries serves_withReleases serves_withReleases hsame⟩

end Depsolve
