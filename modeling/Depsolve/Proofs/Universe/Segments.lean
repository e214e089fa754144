import Depsolve.Proofs.Universe.Roots

/-!
# Segments decide how paths relate and who owns them

Although paths are compared and cut as texts, what comes out depends on their segments only.
The import paths are ordered as prefixes of lists of segments are, and a full path and the path
relative to a root give each other (`ImportPath.IsLawful`). So in a universe whose roots are import
paths, the owner of a path is the one root that has the most segments among the roots with the first
segments of the path (`Universe.rootOf_eq_ok_iff`), and no other root makes a difference
(`Universe.rootOf_congr`).

## Main definitions

- `ImportPath.IsLawful`: how a path stands to the other import paths.
- `Universe.IsOwner`: the longest root with the first segments of a path.
- `Universe.FindsOwner`: a universe finds the owner of a path just if there is one.
-/

namespace Depsolve

/-- How a path stands to the other import paths. -/
structure ImportPath.IsLawful (path : String) : Prop where
  /-- A root covers the path just if the segments of the root are the first ones of the path. -/
  covers_iff : ∀ root, isValid root = true →
    (covers root path = true ↔ segments root <+: segments path)
  refl : covers path path = true
  trans : ∀ a b, isValid a = true → isValid b = true → covers a b = true → covers b path = true →
    covers a path = true
  antisymm : ∀ root, isValid root = true → covers root path = true →
    covers path root = true → root = path
  /-- Of two roots above the path one lies above the other. -/
  chain : ∀ a b, isValid a = true → isValid b = true → covers a path = true → covers b path = true →
    covers a b = true ∨ covers b a = true
  /-- The path is put together again from a root above it and the path relative to that root. -/
  join_relative : ∀ root, isValid root = true → covers root path = true →
    ∃ relative, relative? root path = some relative ∧ join root relative = path
  /-- A relative path is read back from the full path below this one. -/
  relative_join : ∀ relative, relative = "." ∨ isValid relative = true →
    relative? path (join path relative) = some relative

namespace Universe

open ImportPath (segments isValid covers_iff_segments)

variable {u u' : Universe} {root owner owner' path : String}

/-- A root is the owner of a path if it has the first segments of the path, and more of them than
any other root. -/
structure IsOwner (u : Universe) (path owner : String) : Prop where
  mem : owner ∈ u.projects.keys ++ u.unreachable.toList
  leads : segments owner <+: segments path
  longest : ∀ root ∈ u.projects.keys ++ u.unreachable.toList, segments root <+: segments path →
    root ≠ owner →
    (segments root).length < (segments owner).length ∧ root.utf8ByteSize < owner.utf8ByteSize

/-- What a universe answers for a path. -/
structure FindsOwner (u : Universe) (path : String) : Prop where
  /-- There is an owner just if some root has the first segments of the path. -/
  exists_iff : (∃ owner, u.rootOf path = .ok owner) ↔
    ∃ root ∈ u.projects.keys ++ u.unreachable.toList, segments root <+: segments path
  owner_iff : ∀ owner, u.rootOf path = .ok owner ↔ u.IsOwner path owner
  /-- Roots that do not have the first segments of the path may come and go. -/
  others : ∀ u' : Universe, (∀ root ∈ u'.projects.keys ++ u'.unreachable.toList,
    isValid root = true) → (∀ root, segments root <+: segments path →
      (root ∈ u'.projects.keys ++ u'.unreachable.toList ↔
        root ∈ u.projects.keys ++ u.unreachable.toList)) →
    u'.rootOf path = u.rootOf path

/-! ## Owners -/

theorem IsOwner.unique (h : u.IsOwner path owner) (h' : u.IsOwner path owner') :
    owner = owner' := by
  by_cases hsame : owner = owner'
  · exact hsame
  · obtain ⟨hlt, -⟩ := h'.longest owner h.mem h.leads hsame
    obtain ⟨hlt', -⟩ := h.longest owner' h'.mem h'.leads (Ne.symm hsame)
    omega

theorem IsOwner.congr (hsame : ∀ root, segments root <+: segments path →
    (root ∈ u'.projects.keys ++ u'.unreachable.toList ↔
      root ∈ u.projects.keys ++ u.unreachable.toList))
    (h : u.IsOwner path owner) : u'.IsOwner path owner where
  mem := (hsame owner h.leads).2 h.mem
  leads := h.leads
  longest root hroot hleads := h.longest root ((hsame root hleads).1 hroot) hleads

section

variable (hroots : ∀ root ∈ u.projects.keys ++ u.unreachable.toList, isValid root = true)
include hroots

/-- A path that has the first segments of some root has an owner, which the root covers. -/
theorem exists_rootOf_of_segments (hroot : root ∈ u.projects.keys ++ u.unreachable.toList)
    (hleads : segments root <+: segments path) :
    ∃ owner, u.rootOf path = .ok owner ∧ segments root <+: segments owner := by
  have hvalid := hroots root hroot
  obtain ⟨owner, howner, hbelow⟩ :=
    exists_rootOf_of_covers hroot ((covers_iff_segments hvalid).2 hleads)
  exact ⟨owner, howner, (covers_iff_segments hvalid).1 hbelow⟩

theorem isOwner_of_rootOf (h : u.rootOf path = .ok owner) : u.IsOwner path owner := by
  have hmem := mem_roots_of_rootOf h
  have hleads := (covers_iff_segments (hroots owner hmem)).1 (covers_of_rootOf h)
  refine ⟨hmem, hleads, fun root hroot hroot' hne => ?_⟩
  obtain ⟨owner', howner', hbelow⟩ := exists_rootOf_of_segments hroots hroot hroot'
  obtain rfl : owner' = owner := Except.ok.inj (howner'.symm.trans h)
  exact ImportPath.shorter_of_segments_prefix hbelow hne

/-- The owner that is found is the longest root with the first segments of the path. -/
theorem rootOf_eq_ok_iff : u.rootOf path = .ok owner ↔ u.IsOwner path owner := by
  refine ⟨isOwner_of_rootOf hroots, fun h => ?_⟩
  obtain ⟨owner', howner', -⟩ := exists_rootOf_of_segments hroots h.mem h.leads
  rw [howner', h.unique (isOwner_of_rootOf hroots howner')]

theorem exists_rootOf_iff : (∃ owner, u.rootOf path = .ok owner) ↔
    ∃ root ∈ u.projects.keys ++ u.unreachable.toList, segments root <+: segments path := by
  constructor
  · rintro ⟨owner, howner⟩
    have h := isOwner_of_rootOf hroots howner
    exact ⟨owner, h.mem, h.leads⟩
  · rintro ⟨root, hroot, hleads⟩
    obtain ⟨owner, howner, -⟩ := exists_rootOf_of_segments hroots hroot hleads
    exact ⟨owner, howner⟩

/-- Universes with the same roots above a path find the same owner, or none for the same reason. -/
theorem rootOf_congr
    (hroots' : ∀ root ∈ u'.projects.keys ++ u'.unreachable.toList, isValid root = true)
    (hsame : ∀ root, segments root <+: segments path →
      (root ∈ u'.projects.keys ++ u'.unreachable.toList ↔
        root ∈ u.projects.keys ++ u.unreachable.toList)) : u'.rootOf path = u.rootOf path := by
  cases h : u.rootOf path with
  | ok owner => exact (rootOf_eq_ok_iff hroots').2 ((isOwner_of_rootOf hroots h).congr hsame)
  | error e =>
    cases h' : u'.rootOf path with
    | error e' => rw [(rootOf_eq_error h).1, (rootOf_eq_error h').1]
    | ok owner =>
      have howner := (isOwner_of_rootOf hroots' h').congr fun root hleads =>
        (hsame root hleads).symm
      rw [(rootOf_eq_ok_iff hroots).2 howner] at h
      exact absurd h (by simp)

theorem findsOwner : u.FindsOwner path where
  exists_iff := exists_rootOf_iff hroots
  owner_iff _ := rootOf_eq_ok_iff hroots
  others _ hroots' hsame := rootOf_congr hroots hroots' hsame

end

end Universe

namespace ImportPath

variable {path : String}

theorem isLawful_of_isValid (h : isValid path = true) : IsLawful path where
  covers_iff _ hroot := covers_iff_segments hroot
  refl := covers_self path
  trans _ _ ha hb hab hbc := covers_trans ha hb hab hbc
  antisymm _ hroot hab hba := covers_antisymm hroot h hab hba
  chain _ _ _ _ ha hb := covers_or_covers ha hb
  join_relative _ hroot hcovers := exists_join_of_covers hroot h hcovers
  relative_join _ hrelative := relative?_join h hrelative

/-- Import paths follow the laws of their segments, and in a universe whose roots are import paths
the longest root above a path owns it. -/
theorem isLawful_and_findsOwner (h : isValid path = true) : IsLawful path ∧
    ∀ u : Universe, (∀ root ∈ u.projects.keys ++ u.unreachable.toList, isValid root = true) →
      u.FindsOwner path :=
  ⟨isLawful_of_isValid h, fun _ hroots => Universe.findsOwner hroots⟩

/-- A universe with roots below each other, one of which cannot be reached, and with a root that
only starts with the same text. -/
def stackedRoots : Universe :=
  (((Universe.empty.register "acme.io" []).register "acme.io/tool" []).register "acme.io/to"
    []).withUnreachable "acme.io/tool/sub"

/-- The root that cannot be reached owns what lies below it. -/
theorem isLawful_and_findsOwner_of_stackedRoots : isValid "acme.io/tool/sub/pkg" = true ∧
    (∀ root ∈ stackedRoots.projects.keys ++ stackedRoots.unreachable.toList, isValid root = true) ∧
    IsLawful "acme.io/tool/sub/pkg" ∧
    stackedRoots.IsOwner "acme.io/tool/sub/pkg" "acme.io/tool/sub" := by
  have hpath : isValid "acme.io/tool/sub/pkg" = true := by decide
  have hroots : ∀ root ∈ stackedRoots.projects.keys ++ stackedRoots.unreachable.toList,
      isValid root = true := by
    decide +kernel
  have howner : stackedRoots.rootOf "acme.io/tool/sub/pkg" = .ok "acme.io/tool/sub" := rfl
  obtain ⟨hlawful, hfinds⟩ := isLawful_and_findsOwner hpath
  exact ⟨hpath, hroots, hlawful, ((hfinds stackedRoots hroots).owner_iff _).1 howner⟩

end ImportPath

end Depsolve
