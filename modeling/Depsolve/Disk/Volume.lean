/-!
# Volumes

A volume is a place that keeps texts under file paths. Looking does not change it; writing, moving
and removing do, and may fail.
-/

namespace Depsolve

/-- What can be done with files that are kept in a state `σ`. -/
structure Volume (σ : Type) where
  /-- Whether there is something at a path; none if that cannot be told. -/
  isThere? : σ → String → Option Bool
  /-- The text of the file at a path; none if there is none that can be read. -/
  read? : σ → String → Option String
  /-- Writes a text to the file at a path, and tells whether that worked. -/
  write : σ → String → String → Bool × σ
  /-- Moves the file at a path to another, in place of what is there, and tells whether that
  worked. -/
  rename : σ → String → String → Bool × σ
  /-- Removes the file at a path, if there is one. -/
  remove : σ → String → σ

end Depsolve
