import Depsolve.Constraint.Basic

/-!
# Preferences among versions

Two orders of preference on named versions. Both put releases before pre-releases before the default
branch before other branches before plain tags; among semver tags the upgrade order wants the
highest and the downgrade order the lowest. Equal names go by revision.
-/

namespace Depsolve

/-- Which semver tags are wanted first. -/
inductive Preference
  | upgrade
  | downgrade
deriving DecidableEq

namespace Preference

/-- The place of a kind of name in both orders. -/
def rank : Named → Nat
  | .semver tag => if tag.isPrerelease then 1 else 0
  | .branch _ isDefault => if isDefault then 2 else 3
  | .plain _ => 4

/-- The order on precedences that the preference wants. -/
def orient : Preference → Ordering → Ordering
  | .upgrade, o => o.swap
  | .downgrade, o => o

/-- Names of one rank: semver tags by precedence, then by spelling; other names by spelling. -/
def compareWithin (p : Preference) : Named → Named → Ordering
  | .semver a, .semver b => (p.orient (a.precedence b)).then (Ord.compare a.text b.text)
  | a, b => Ord.compare a.name b.name

/-- The order of preference on names; the wanted ones come first. -/
def compareNamed (p : Preference) (a b : Named) : Ordering :=
  (Ord.compare (rank a) (rank b)).then (p.compareWithin a b)

/-- The order of preference on named versions. -/
def compare (p : Preference) (a b : Bound) : Ordering :=
  (p.compareNamed a.named b.named).then (Ord.compare a.revision.text b.revision.text)

/-- The versions, the wanted ones first. -/
def sort (p : Preference) (versions : List Bound) : List Bound :=
  versions.mergeSort fun a b => (p.compare a b).isLE

end Preference

/-- The first element that no other comes before. -/
def firstMin? {α : Type} (cmp : α → α → Ordering) : List α → Option α
  | [] => none
  | a :: rest => some (rest.foldl (fun best b => if cmp b best = .lt then b else best) a)

/-- The versions of a project in upgrade order, to select from. -/
structure Selection where
  /-- The versions, in upgrade order. -/
  versions : List Bound

namespace Selection

/-- The selection among some versions. -/
def ofList (versions : List Bound) : Selection := ⟨Preference.upgrade.sort versions⟩

/-- Whether all constraints admit a version. -/
def admitted (constraints : List Constraint) (b : Bound) : Bool :=
  constraints.all (·.admits (.bound b))

/-- The versions that all constraints admit, in upgrade order. -/
def matching (s : Selection) (constraints : List Constraint) : List Bound :=
  s.versions.filter (admitted constraints)

/-- The version wanted first that all constraints admit. -/
def best? (s : Selection) (constraints : List Constraint) : Option Bound :=
  s.versions.find? (admitted constraints)

/-- The version that all constraints admit and that comes first in downgrade order. -/
def lowest? (s : Selection) (constraints : List Constraint) : Option Bound :=
  firstMin? Preference.downgrade.compare (s.matching constraints)

/-- Whether all constraints admit some version. -/
def hasMatching (s : Selection) (constraints : List Constraint) : Bool :=
  s.versions.any (admitted constraints)

end Selection

end Depsolve
