import Depsolve.Universe.Basic

/-!
# Sources

A source answers five kinds of queries about projects. Answering may change what the source
remembers and counts, so an answer is a computation over the source's state; that state
survives a fault.
-/

namespace Depsolve

/-- A computation over a state `σ` that may end in a fault; the state survives it. -/
abbrev Ask (σ α : Type) := ExceptT Fault (StateM σ) α

/-- A source of projects with the state `σ`. -/
structure Source (σ : Type) where
  /-- Fails once the caller has cancelled the run. -/
  checkpoint : Ask σ Unit
  /-- The named versions of a project, in the order in which they are listed. -/
  versions : Project → Ask σ (List Bound)
  /-- Whether a revision of a project is still there. -/
  hasRevision : Project → Revision → Ask σ Bool
  rootOf : String → Ask σ String
  manifestOf : Project → Version → Ask σ Manifest
  packagesOf : Project → Version → Ask σ PackageTree
  /-- Asks for the versions of several projects at once, ahead of time. -/
  prefetch : List Project → StateM σ Unit

end Depsolve
