import Depsolve.Proofs.Import.Lookup

/-!
# The policy for pinned revisions

`PinPolicy` says which version is to be locked for a pinned revision, whatever is listed: the only
version at the revision; among several the one that is lowest in downgrade order among those that
the constraint admits, or else the first; and for a revision that has no name the branch that the
constraint asks for, or else the revision.

`versionAt` keeps to the policy (`versionAt_policy`), and so does a lookup in a session
(`Session.pinnedVersion_policy`), which fails only if the versions cannot be listed. As long as the
constraint admits a version at the revision, the order of listing does not matter
(`versionAt_eq_of_perm`).
-/

namespace Depsolve

open Std

/-! ## The policy -/

/-- The listed versions at a revision, in the order of listing. -/
def listedAt (listed : List Bound) (r : Revision) : List Bound :=
  listed.filter (·.revision = r)

/-- A constraint that may be missing admits a version; a missing one admits none. -/
def Admitted (constraint : Option Constraint) (b : Bound) : Prop :=
  ∃ c, constraint = some c ∧ c.admits (.bound b) = true

/-- Which version is to be locked for a pinned revision. -/
structure PinPolicy (listed : List Bound) (constraint : Option Constraint) (r : Revision)
    (v : Version) : Prop where
  /-- The only version at the revision. -/
  only : ∀ b, listedAt listed r = [b] → v = .bound b
  /-- Among several an admitted one, and none that is admitted comes before it. -/
  lowest : 2 ≤ (listedAt listed r).length → (∃ b ∈ listedAt listed r, Admitted constraint b) →
    ∃ b ∈ listedAt listed r, v = .bound b ∧ Admitted constraint b ∧
      ∀ b' ∈ listedAt listed r, Admitted constraint b' →
      Preference.downgrade.compareNamed b'.named b.named ≠ .lt
  /-- Among several of which none is admitted, the first that is listed. -/
  first : 2 ≤ (listedAt listed r).length → (∀ b ∈ listedAt listed r, ¬ Admitted constraint b) →
    ∃ b, (listedAt listed r).head? = some b ∧ v = .bound b
  /-- For a revision without a name the branch that is asked for, as it is listed first. -/
  branch : listedAt listed r = [] → ∀ name, constraint = some (.branch name) →
    ∀ before b after, listed = before ++ b :: after →
    (∃ isDefault, b.named = .branch name isDefault) →
      (∀ b' ∈ before, ∀ isDefault, b'.named ≠ .branch name isDefault) → v = .named b.named
  /-- The revision itself if no branch is asked for, or none that is listed. -/
  bare : listedAt listed r = [] →
    (∀ name, constraint = some (.branch name) →
      ∀ b ∈ listed, ∀ isDefault, b.named ≠ .branch name isDefault) → v = .revision r
  /-- A revision in the version is the pinned one. -/
  revision : ∀ r', v.revision? = some r' → r' = r
  /-- A name at the revision is never passed over. -/
  named : listedAt listed r ≠ [] → ∃ b ∈ listedAt listed r, v = .bound b

variable {listed listed' : List Bound} {constraint : Option Constraint} {r : Revision}

theorem mem_listedAt {b : Bound} : b ∈ listedAt listed r ↔ b ∈ listed ∧ b.revision = r := by
  rw [listedAt, List.mem_filter, decide_eq_true_eq]

theorem admitted_iff_any {b : Bound} :
    Admitted constraint b ↔ constraint.any (·.admits (.bound b)) = true := by
  rw [Option.any_eq_true]
  rfl

section PickPinned

variable {candidates : List Bound}

/-- If a candidate is admitted, the one that is picked is, and no admitted candidate
comes before it. -/
theorem pickPinned_of_admitted (h : ∃ b ∈ candidates, Admitted constraint b) :
    ∃ b ∈ candidates, pickPinned constraint candidates = some b ∧ Admitted constraint b ∧
      ∀ b' ∈ candidates, Admitted constraint b' →
        Preference.downgrade.compareNamed b'.named b.named ≠ .lt := by
  have := transCmp_comap Preference.downgrade.compareNamed Bound.named
  have hmem : ∀ b, b ∈ candidates.filter (fun b => constraint.any (·.admits (.bound b))) ↔
      b ∈ candidates ∧ Admitted constraint b := by
    intro b
    rw [List.mem_filter, admitted_iff_any]
  cases hmin : firstMin? (fun a b : Bound => Preference.downgrade.compareNamed a.named b.named)
      (candidates.filter fun b => constraint.any (·.admits (.bound b))) with
  | none =>
    obtain ⟨b, hb⟩ := h
    have hnil := firstMin?_eq_none_iff.1 hmin
    exact absurd ((hmem b).2 hb) (hnil ▸ List.not_mem_nil)
  | some b =>
    obtain ⟨hb, hadmitted⟩ := (hmem b).1 (mem_of_firstMin? hmin)
    refine ⟨b, hb, ?_, hadmitted,
      fun b' hb' h' => not_lt_of_firstMin? hmin b' ((hmem b').2 ⟨hb', h'⟩)⟩
    unfold pickPinned
    dsimp only
    rw [hmin]
    rfl

/-- If no candidate is admitted, the first one is picked. -/
theorem pickPinned_of_not_admitted (h : ∀ b ∈ candidates, ¬ Admitted constraint b) :
    pickPinned constraint candidates = candidates.head? := by
  have hnil : candidates.filter (fun b => constraint.any (·.admits (.bound b))) = [] :=
    List.filter_eq_nil_iff.2 fun b hb hany => h b hb (admitted_iff_any.2 hany)
  unfold pickPinned
  dsimp only
  rw [hnil]
  rfl

end PickPinned

/-! ## What `versionAt` does in each case -/

theorem versionAt_of_singleton {b : Bound} (h : listedAt listed r = [b]) :
    versionAt listed constraint r = .bound b := by
  unfold listedAt at h
  unfold versionAt
  rw [h]

theorem versionAt_of_pickPinned (h : 2 ≤ (listedAt listed r).length) {b : Bound}
    (hpick : pickPinned constraint (listedAt listed r) = some b) :
    versionAt listed constraint r = .bound b := by
  unfold listedAt at h hpick
  unfold versionAt
  match hcandidates : listed.filter (·.revision = r) with
  | [] =>
    rw [hcandidates] at h
    exact absurd h (by decide)
  | [only] =>
    rw [hcandidates, List.length_singleton] at h
    omega
  | first :: second :: rest =>
    rw [hcandidates] at hpick
    rw [hcandidates]
    dsimp only
    rw [hpick]

theorem versionAt_of_nil (h : listedAt listed r = []) : versionAt listed constraint r =
    match (constraint.bind Constraint.branch?).bind (listedBranch? listed) with
    | some branch => .named branch
    | none => .revision r := by
  unfold listedAt at h
  unfold versionAt
  rw [h]
  rfl

theorem listedBranch?_eq_none {name : String}
    (h : ∀ b ∈ listed, ∀ isDefault, b.named ≠ .branch name isDefault) :
    listedBranch? listed name = none := by
  cases hfound : listedBranch? listed name with
  | none => rfl
  | some n =>
    obtain ⟨isDefault, rfl, b, hb, hn⟩ := exists_of_listedBranch? hfound
    exact absurd hn (h b hb isDefault)

theorem listedBranch?_append_cons {name : String} {before after : List Bound} {b : Bound}
    (hb : ∃ isDefault, b.named = .branch name isDefault)
    (hbefore : ∀ b' ∈ before, ∀ isDefault, b'.named ≠ .branch name isDefault) :
    listedBranch? (before ++ b :: after) name = some b.named := by
  obtain ⟨isDefault, hb⟩ := hb
  have hnone := listedBranch?_eq_none hbefore
  unfold listedBranch? at hnone ⊢
  rw [List.map_append, List.find?_append, hnone, List.map_cons, hb]
  simp

theorem branch?_eq_some_iff {name : String} :
    constraint.bind Constraint.branch? = some name ↔ constraint = some (.branch name) := by
  constructor
  · intro h
    obtain ⟨c, rfl, hc⟩ := Option.bind_eq_some_iff.1 h
    cases c with
    | branch name' => rw [Option.some.inj hc]
    | any => exact nomatch hc
    | revision _ => exact nomatch hc
    | plain _ => exact nomatch hc
    | semver _ => exact nomatch hc
  · rintro rfl
    rfl

/-- The version that is locked for a pinned revision keeps to the policy. -/
theorem versionAt_policy (listed : List Bound) (constraint : Option Constraint) (r : Revision) :
    PinPolicy listed constraint r (versionAt listed constraint r) where
  only b h := versionAt_of_singleton h
  lowest hseveral hadmitted := by
    obtain ⟨b, hb, hpick, hb'⟩ := pickPinned_of_admitted hadmitted
    exact ⟨b, hb, versionAt_of_pickPinned hseveral hpick, hb'⟩
  first hseveral hnone := by
    have hne : listedAt listed r ≠ [] := by
      intro hnil
      rw [hnil] at hseveral
      exact absurd hseveral (by decide)
    have hhead := List.head?_eq_some_head hne
    refine ⟨_, hhead, versionAt_of_pickPinned hseveral ?_⟩
    rw [pickPinned_of_not_admitted hnone, hhead]
  branch hnil name hname before b after heq hb hbefore := by
    rw [versionAt_of_nil hnil, branch?_eq_some_iff.2 hname, Option.bind_some, heq,
      listedBranch?_append_cons hb hbefore]
  bare hnil hnone := by
    rw [versionAt_of_nil hnil]
    cases hname : constraint.bind Constraint.branch? with
    | none => rfl
    | some name =>
      rw [Option.bind_some, listedBranch?_eq_none (hnone name (branch?_eq_some_iff.1 hname))]
  revision r' hr' := by
    rcases versionAt_cases listed constraint r with ⟨b, -, hb, heq⟩ | ⟨-, ⟨_, n, -, -, heq⟩ | heq⟩
    · rw [heq] at hr'
      exact (Option.some.inj hr').symm.trans hb
    · rw [heq] at hr'
      exact nomatch hr'
    · rw [heq] at hr'
      exact (Option.some.inj hr').symm
  named hne := by
    rcases versionAt_cases listed constraint r with ⟨b, hb, hr, heq⟩ | ⟨hnone, -⟩
    · exact ⟨b, mem_listedAt.2 ⟨hb, hr⟩, heq⟩
    · obtain ⟨b, hb⟩ := List.exists_mem_of_ne_nil _ hne
      obtain ⟨hlisted, hr⟩ := mem_listedAt.1 hb
      exact absurd hr (hnone b hlisted)

/-! ## The order of listing -/

/-- Two versions at one revision that do not come before each other are the same. -/
theorem eq_of_not_lt {b b' : Bound} (hr : b.revision = b'.revision)
    (h : Preference.downgrade.compareNamed b.named b'.named ≠ .lt)
    (h' : Preference.downgrade.compareNamed b'.named b.named ≠ .lt) : b = b' := by
  have heq : Preference.downgrade.compareNamed b.named b'.named = .eq :=
    OrientedCmp.isLE_antisymm (OrientedCmp.isGE_iff_isLE.1 (Ordering.isGE_iff_ne_lt.2 h'))
      (OrientedCmp.isGE_iff_isLE.1 (Ordering.isGE_iff_ne_lt.2 h))
  rw [Preference.compareNamed_eq, Ordering.then_eq_eq, Ordering.then_eq_eq] at heq
  obtain ⟨hrank, -, hname⟩ := heq
  have hnamed := Preference.eq_of_rank_eq (LawfulEqOrd.eq_of_compare hrank)
    (LawfulEqOrd.eq_of_compare hname)
  cases b
  cases b'
  exact congr (congrArg Bound.mk hnamed) hr

/-- If the constraint admits a version at the revision, the policy leaves no choice, in whatever
order the versions are listed. -/
theorem PinPolicy.eq_of_perm {v v' : Version} (h : PinPolicy listed constraint r v)
    (h' : PinPolicy listed' constraint r v') (hperm : listed'.Perm listed)
    (hadmitted : ∃ b ∈ listedAt listed r, Admitted constraint b) : v' = v := by
  have hat : (listedAt listed' r).Perm (listedAt listed r) := hperm.filter _
  obtain ⟨b₀, hb₀, hadmitted₀⟩ := hadmitted
  rcases Nat.lt_or_ge (listedAt listed r).length 2 with hlt | hseveral
  · have hone : (listedAt listed r).length = 1 := by
      have hpos := List.length_pos_of_mem hb₀
      omega
    obtain ⟨b, hb⟩ := List.length_eq_one_iff.1 hone
    rw [hb] at hat
    rw [h.only b hb, h'.only b (List.perm_singleton.1 hat)]
  · obtain ⟨b, hb, rfl, hb'⟩ := h.lowest hseveral ⟨b₀, hb₀, hadmitted₀⟩
    obtain ⟨c, hc, rfl, hc'⟩ :=
      h'.lowest (hat.length_eq.symm ▸ hseveral) ⟨b₀, hat.mem_iff.2 hb₀, hadmitted₀⟩
    have hr : c.revision = b.revision :=
      (mem_listedAt.1 hc).2.trans (mem_listedAt.1 hb).2.symm
    exact congrArg Version.bound
      (eq_of_not_lt hr (hb'.2 c (hat.mem_iff.1 hc) hc'.1) (hc'.2 b (hat.mem_iff.2 hb) hb'.1))

/-! ## Lookups -/

/-- A lookup asks for the versions and for nothing else. -/
theorem pinnedVersion_run {σ : Type} (source : Source σ) (p : Project)
    (constraint : Option Constraint) (r : Revision) (s : σ) :
    (pinnedVersion source p constraint r).run.run s =
      (((source.versions p).run.run s).1.map (versionAt · constraint r),
        ((source.versions p).run.run s).2) := by
  unfold pinnedVersion
  rw [run_bind_eq]
  rcases (source.versions p).run.run s with ⟨_ | _, _⟩ <;> rfl

namespace Session

variable {u : Universe} {steady : Prop} {s : Session}

/-- A session lists the versions as its universe does, unless somebody cancels. -/
theorem versions_run_cases (hs : s.Serves u steady) (p : Project) :
    (¬ steady ∧ ((versions p).run.run s).1 = .error .cancelled) ∨
      ((versions p).run.run s).1 = (u.versions p).mapError Fault.lookup := by
  rcases mirrors_versions p s () hs with hcancelled | ⟨halike, -⟩
  · exact .inl hcancelled
  · exact .inr (halike.eq.trans (Ask.outcome_answer _))

/-- A lookup in a session over a universe fails just as listing the versions does, which fails
just if the universe cannot list them as long as nobody cancels. Otherwise the version that it
gives keeps to the policy, and does not depend on the order of listing if an admitted version is
at the revision. -/
theorem pinnedVersion_policy (hs : s.Serves u steady) (p : Project) (constraint : Option Constraint)
    (r : Revision) :
    (∀ fault, ((pinnedVersion source p constraint r).run.run s).1 = .error fault ↔
      ((versions p).run.run s).1 = .error fault) ∧
    (steady → ((∃ fault, ((pinnedVersion source p constraint r).run.run s).1 = .error fault) ↔
      ∃ e, u.versions p = .error e)) ∧
    ∀ listed, ((versions p).run.run s).1 = .ok listed → u.versions p = .ok listed ∧
      ∃ v, ((pinnedVersion source p constraint r).run.run s).1 = .ok v ∧
        PinPolicy listed constraint r v ∧ ((∃ b ∈ listedAt listed r, Admitted constraint b) →
          ∀ (s' : Session) (listed' : List Bound), ((versions p).run.run s').1 = .ok listed' →
            listed'.Perm listed →
            ((pinnedVersion source p constraint r).run.run s').1 = .ok v) := by
  have hrun : ∀ s : Session, ((pinnedVersion source p constraint r).run.run s).1 =
      ((versions p).run.run s).1.map (versionAt · constraint r) := fun s =>
    congrArg Prod.fst (pinnedVersion_run source p constraint r s)
  refine ⟨fun fault => ?_, fun hsteady => ?_,
    fun listed hlisted => ⟨?_, versionAt listed constraint r, ?_,
      versionAt_policy listed constraint r, fun hadmitted s' listed' hlisted' hperm => ?_⟩⟩
  · rw [hrun]
    cases ((versions p).run.run s).1 <;> simp [Except.map]
  · rw [hrun]
    rcases versions_run_cases hs p with ⟨hn, -⟩ | heq
    · exact absurd hsteady hn
    · rw [heq]
      cases u.versions p <;> simp [Except.map, Except.mapError]
  · rcases versions_run_cases hs p with ⟨-, heq⟩ | heq
    · rw [hlisted] at heq
      exact nomatch heq
    · rw [hlisted] at heq
      exact mapError_eq_ok_iff.1 heq.symm
  · rw [hrun, hlisted]
    rfl
  · have heq :=
      (versionAt_policy listed constraint r).eq_of_perm (versionAt_policy listed' constraint r)
      hperm hadmitted
    rw [hrun, hlisted', ← heq]
    rfl

end Session

/-- A project with two releases at one revision, and a branch at another. -/
def Universe.withTwins : Universe :=
  Universe.empty.register "example.com/tool"
    [Snapshot.bare (.tag "v1.0.0") ⟨"a1"⟩, Snapshot.bare (.tag "v0.8.0") ⟨"a1"⟩,
      Snapshot.bare (.branch "main" true) ⟨"a2"⟩]

theorem Session.pinnedVersion_policy_of_twins :
    (start (.new .withTwins)).Serves .withTwins True ∧
    ∃ listed v, ((versions ⟨"example.com/tool", none⟩).run.run (start (.new .withTwins))).1 =
      .ok listed ∧ listed.map (·.named.name) = ["v1.0.0", "v0.8.0", "main"] ∧
      ((pinnedVersion source ⟨"example.com/tool", none⟩ (some .any) ⟨"a1"⟩).run.run
        (start (.new .withTwins))).1 = .ok v ∧
      v.toText = "v0.8.0" ∧ PinPolicy listed (some .any) ⟨"a1"⟩ v := by
  have hs : (start (.new .withTwins)).Serves .withTwins True := serves_start rfl fun _ => ⟨rfl, rfl⟩
  have hnames :
      (((versions ⟨"example.com/tool", none⟩).run.run (start (.new .withTwins))).1.toOption.map
        fun listed => listed.map (·.named.name)) = some ["v1.0.0", "v0.8.0", "main"] := by
    decide +kernel
  have htext : (((pinnedVersion source ⟨"example.com/tool", none⟩ (some .any) ⟨"a1"⟩).run.run
      (start (.new .withTwins))).1.toOption.map Version.toText) = some "v0.8.0" := by
    decide +kernel
  obtain ⟨listed, hlisted, hnames⟩ := exists_of_map_toOption hnames
  obtain ⟨-, -, hlists⟩ := pinnedVersion_policy hs ⟨"example.com/tool", none⟩ (some .any) ⟨"a1"⟩
  obtain ⟨-, v, hv, hpolicy, -⟩ := hlists listed hlisted
  rw [hv] at htext
  exact ⟨hs, listed, v, hlisted, hnames, hv, Option.some.inj htext, hpolicy⟩

end Depsolve
