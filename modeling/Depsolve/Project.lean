import Depsolve.ImportPath

/-!
# Projects

A project is known by its root, the import path of its repository, and may be fetched from a source
other than the root.
-/

namespace Depsolve

/-- A project root and where to fetch the project from, if not from the root. -/
structure Project where
  root : String
  source : Option String
deriving DecidableEq, Inhabited

namespace Project

/-- Where the project is fetched from. -/
def location (p : Project) : String :=
  p.source.getD p.root

/-- The root, with the source if that is another place. -/
def toText (p : Project) : String :=
  match p.source with
  | some source => if source = p.root then p.root else p.root ++ " (from " ++ source ++ ")"
  | none => p.root

/-- Texts in order; a missing one comes first. -/
def compareSource? : Option String → Option String → Ordering
  | none, none => .eq
  | none, some _ => .lt
  | some _, none => .gt
  | some a, some b => Ord.compare a b

/-- By root, then by source. -/
def compare (p q : Project) : Ordering :=
  (Ord.compare p.root q.root).then (compareSource? p.source q.source)

/-- Whether an import path belongs to the project. -/
def contains (p : Project) (path : String) : Bool :=
  ImportPath.covers p.root path

end Project

end Depsolve
