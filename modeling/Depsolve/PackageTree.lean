import Depsolve.ImportPath
import Depsolve.Sorted.Map

/-!
# Package trees

The packages of one version of a project, by full import path, each with the paths it imports.
-/

namespace Depsolve

/-- Packages by import path, each with the set of paths it imports. -/
structure PackageTree where
  packages : SortedMap String (SortedSet String)
deriving DecidableEq, Inhabited

namespace PackageTree

/-- The tree without packages. -/
def empty : PackageTree := ⟨.empty⟩

/-- The imports of a package, if it is there. -/
def imports? (t : PackageTree) (package : String) : Option (SortedSet String) :=
  t.packages.get? package

/-- Whether a package is there. -/
def contains (t : PackageTree) (package : String) : Bool :=
  t.packages.contains package

/-- The tree with a package; imports of one that is there are added to its others. -/
def insert (t : PackageTree) (package : String) (imports : SortedSet String) : PackageTree :=
  ⟨t.packages.insert package (((t.imports? package).getD .empty).union imports)⟩

/-- The packages at or below a root. -/
def under (t : PackageTree) (root : String) : List String :=
  t.packages.keys.filter (ImportPath.covers root)

end PackageTree

end Depsolve
