import Depsolve.Import.Convert

/-!
# Expectations of conversions

What a conversion is expected to give. `Expectation.check` compares a conversion with it and reports
the first mismatch. A constraint, a version and a revision are looked at only if they are given, and
the lock only if there is one.
-/

namespace Depsolve

/-- The first way in which a conversion is not as expected. -/
inductive Mismatch
  /-- It should have failed. -/
  | success
  /-- It should not have failed. -/
  | failure (message : String)
  | ignoreCount (wanted got : Nat)
  | ignored (wanted got : List String)
  | noConstraint (root : String)
  | constraint (wanted got : String)
  | lockCount (wanted got : Nat)
  | project (wanted got : String)
  | source (wanted got : Option String)
  | version (wanted got : String)
  /-- Its version is not bound to a revision. -/
  | unbound (kind : Kind) (text : String)
  | revision (wanted got : String)
deriving DecidableEq

/-- The wording of a mismatch. -/
def Mismatch.message : Mismatch → String
  | .success => "Expected the conversion to fail, but it did not return an error"
  | .failure m => "Expected the conversion to pass, but it returned an error: " ++ m
  | .ignoreCount wanted got =>
    "Expected manifest to have " ++ Nat.repr wanted ++ " ignored project(s), got " ++ Nat.repr got
  | .ignored wanted got =>
    "Expected manifest to have ignore " ++ ", ".intercalate wanted ++ ", got " ++
      ", ".intercalate got
  | .noConstraint root =>
    "Expected the manifest to have a dependency for '" ++ root ++ "' but got none"
  | .constraint wanted got =>
    "Expected manifest constraint to be " ++ wanted ++ ", got " ++ got
  | .lockCount wanted got =>
    "Expected lock to have " ++ Nat.repr wanted ++ " project(s), got " ++ Nat.repr got
  | .project wanted got =>
    "Expected the lock to have a project for '" ++ wanted ++ "' but got '" ++ got ++ "'"
  | .source wanted got =>
    "Expected locked source to be " ++ wanted.getD "" ++ ", got '" ++ got.getD "" ++ "'"
  | .version wanted got => "Expected locked version to be '" ++ wanted ++ "', got " ++ got
  | .unbound kind text =>
    "Expected locked version to be paired but got a " ++ kind.label ++ " (" ++ text ++ ")"
  | .revision wanted got => "Expected locked revision to be '" ++ wanted ++ "', got " ++ got

/-- What a conversion is expected to give. -/
structure Expectation where
  fails : Bool
  /-- The project to look at; it is the first that is locked. -/
  project : String
  source : Option String
  constraint : Option String
  revision : Option String
  version : Option String
  lockCount : Nat
  ignoreCount : Nat
  /-- The ignore rules, in any order. -/
  ignored : List String

namespace Expectation

/-- Fails with a mismatch unless a condition holds. -/
def expect (holds : Bool) (mismatch : Mismatch) : Except Mismatch Unit :=
  if holds then .ok () else .error mismatch

/-- Compares the ignore rules. -/
def checkIgnored (e : Expectation) (m : Manifest) : Except Mismatch Unit := do
  let got := m.ignored.toList
  let wanted := e.ignored.mergeSort fun a b => ! decide (b < a)
  expect (got.length = e.ignoreCount) (.ignoreCount e.ignoreCount got.length)
  expect (got = wanted) (.ignored wanted got)

/-- Compares the constraint on the project. -/
def checkConstraint (e : Expectation) (m : Manifest) : Except Mismatch Unit :=
  match e.constraint with
  | none => .ok ()
  | some wanted =>
    match m.constraints.get? e.project with
    | none => .error (.noConstraint e.project)
    | some terms =>
      let got := terms.constraint.toText
      expect (got = wanted) (.constraint wanted got)

/-- Compares the locked version, and its revision. -/
def checkVersion (e : Expectation) (v : Version) : Except Mismatch Unit := do
  if let some wanted := e.version then
    expect (v.toText = wanted) (.version wanted v.toText)
  if let some wanted := e.revision then
    match v with
    | .bound b => expect (b.revision.text = wanted) (.revision wanted b.revision.text)
    | _ => throw (.unbound v.kind v.toText)

/-- Compares the lock. -/
def checkLock (e : Expectation) (lock : Lock) : Except Mismatch Unit := do
  let got := lock.projects.length
  expect (got = e.lockCount) (.lockCount e.lockCount got)
  match lock.projects.head? with
  | none => return
  | some p =>
    expect (p.project.root = e.project) (.project e.project p.project.root)
    expect (p.project.source = e.source) (.source e.source p.project.source)
    e.checkVersion p.version

/-- Compares a conversion with what is expected. -/
def check (e : Expectation) (result : Except Fault Conversion) : Except Mismatch Unit :=
  match result, e.fails with
  | .error _, true => .ok ()
  | .ok _, true => .error .success
  | .error fault, false => .error (.failure fault.message)
  | .ok c, false => do
    e.checkIgnored c.manifest
    e.checkConstraint c.manifest
    c.lock.forM e.checkLock

end Expectation

end Depsolve
