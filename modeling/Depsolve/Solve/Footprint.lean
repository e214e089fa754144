import Depsolve.Solve.Problem

/-!
# Footprints

The footprint of some packages of a project is what they need, directly or through other packages of
the same project: the packages inside the project, and the imports that lead out of it.
`PackageTree.footprint?` walks from package to package and stops at the first that does not exist.
-/

namespace Depsolve

/-- What some packages of a project need. -/
structure Footprint where
  packages : SortedSet String
  external : SortedSet String

namespace PackageTree

/-- How much a walk still has to look at: the packages that it has not met, with their imports. -/
def unmet (t : PackageTree) (met : SortedSet String) : Nat :=
  t.packages.entries.foldr (fun e n => (if met.contains e.1 then 0 else e.2.size + 1) + n) 0

/-- Meeting a package takes away its imports, and itself, from what there is to look at. -/
theorem unmet_insert {t : PackageTree} {met : SortedSet String} {package : String}
    {imports : SortedSet String} (hmet : ¬ met.contains package = true)
    (h : t.imports? package = some imports) :
    t.unmet (met.insert package) + imports.size < t.unmet met := by
  let weight (met : SortedSet String) (e : String × SortedSet String) : Nat :=
    if met.contains e.1 then 0 else e.2.size + 1
  have hle : ∀ e, weight (met.insert package) e ≤ weight met e := by
    intro e
    by_cases he : met.contains e.1 = true
    · have he' : (met.insert package).contains e.1 = true :=
        SortedSet.contains_iff_mem.2
          (SortedSet.mem_insert.2 (.inr (SortedSet.contains_iff_mem.1 he)))
      simp [weight, he']
    · simp only [weight, if_neg he]
      split <;> omega
  have hlt : weight (met.insert package) (package, imports) + imports.size <
      weight met (package, imports) := by
    have hin : (met.insert package).contains package = true :=
      SortedSet.contains_iff_mem.2 (SortedSet.mem_insert.2 (.inl rfl))
    simp only [weight, if_pos hin, if_neg hmet]
    omega
  have hsum : ∀ l : List (String × SortedSet String),
      l.foldr (fun e n => weight (met.insert package) e + n) 0 ≤
        l.foldr (fun e n => weight met e + n) 0 ∧
      ((package, imports) ∈ l →
        l.foldr (fun e n => weight (met.insert package) e + n) 0 + imports.size <
          l.foldr (fun e n => weight met e + n) 0) := by
    intro l
    induction l with
    | nil => simp
    | cons e l ih =>
      obtain ⟨ihle, ihlt⟩ := ih
      have he := hle e
      simp only [List.foldr_cons]
      refine ⟨by omega, fun hmem => ?_⟩
      rcases List.mem_cons.1 hmem with rfl | hmem
      · omega
      · have := ihlt hmem
        omega
  exact (hsum t.packages.entries).2 (SortedMap.get?_eq_some_iff.1 h)

/-- The footprint of the packages in `todo` and of what was met before; an error names a package
that does not exist. Of several packages to look at, the one found last comes first. -/
def walk (t : PackageTree) (place : String → Place) (todo : List String) (f : Footprint) :
    Except String Footprint :=
  match todo with
  | [] => .ok f
  | package :: todo =>
    if _ : f.packages.contains package then t.walk place todo f
    else
      match _ : t.imports? package with
      | none => .error package
      | some imports =>
        let met := f.packages.insert package
        let inside := imports.toList.filter fun path => place path = .inside && ! met.contains path
        let outside := imports.filter fun path => place path = .outside
        t.walk place (inside.reverse ++ todo) ⟨met, f.external.union outside⟩
termination_by t.unmet f.packages + todo.length
decreasing_by
  · exact Nat.lt_succ_self _
  · have hlt := unmet_insert ‹_› ‹_›
    have hle : (imports.toList.filter fun path => place path = .inside &&
        ! (f.packages.insert package).contains path).length ≤ imports.size :=
      List.length_filter_le ..
    simp only [List.length_append, List.length_reverse, List.length_cons]
    omega

/-- The footprint of some packages, together with packages that are known already and are not looked
into again; an error names a package that does not exist. -/
def footprint? (t : PackageTree) (place : String → Place) (packages known : SortedSet String) :
    Except String Footprint :=
  t.walk place (packages.diff known).toList.reverse ⟨known, .empty⟩

end PackageTree

end Depsolve
