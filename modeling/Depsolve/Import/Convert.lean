import Depsolve.Import.Foreign
import Depsolve.Import.Pinned
import Depsolve.Lock.Basic
import Depsolve.Manifest.Basic

/-!
# Converting foreign configurations

`convert` makes a manifest of a foreign configuration, and a lock if some packages are pinned at
revisions. All entries of one project have to say the same; they differ at most in the package that
they name.
-/

namespace Depsolve

/-- What an entry says about its project, without white space around it; nothing for what is
blank. -/
structure Pin where
  /-- A version, a range or a branch. -/
  hint : Option String
  revision : Option String
  source : Option String
deriving DecidableEq

/-- The first field in which two entries of one project differ. -/
def Pin.difference? (first second : Pin) : Option Field :=
  if first.hint ≠ second.hint then some .constraint
  else if first.revision ≠ second.revision then some .revision
  else if first.source ≠ second.source then some .source
  else none

/-- A project that was converted. -/
structure ImportedProject where
  pin : Pin
  terms : Option Terms
  version : Option Version
  /-- The packages that its entries name, relative to its root. -/
  packages : SortedSet String

/-- The projects that were converted, by root. -/
abbrev Imported := SortedMap String ImportedProject

/-- A manifest, and a lock if something is locked. -/
structure Conversion where
  manifest : Manifest
  lock : Option Lock
deriving DecidableEq

namespace Imported

/-- The terms that are declared. -/
def terms (projects : Imported) : SortedMap String Terms :=
  .ofList (projects.entries.filterMap fun (root, p) => p.terms.map fun t => (root, t))

/-- The projects that are locked, by root. -/
def locked (projects : Imported) : List LockedProject :=
  projects.entries.filterMap fun (root, p) =>
    p.version.map fun v => ⟨⟨root, p.pin.source⟩, v, p.packages⟩

/-- The manifest and the lock of converted projects. -/
def conversion (projects : Imported) (ignored : SortedSet String) : Conversion :=
  { manifest := { Manifest.empty with constraints := projects.terms, ignored }
    lock := if projects.locked.isEmpty then none else some ⟨projects.locked, none⟩ }

end Imported

/-- A text without white space around it, unless it is blank. -/
def trimmed? (text : Option String) : Option String :=
  (text.map Text.trimmed).filter (· ≠ "")

/-- Whether a text has another somewhere within it. -/
def hasWithin (pattern : List Char) : List Char → Bool
  | [] => pattern.isEmpty
  | c :: cs => pattern.isPrefixOf (c :: cs) || hasWithin pattern cs

/-- Whether a hint looks like a range: it starts with an operator, or has alternatives, a hyphen
range or several words. -/
def looksLikeRange (hint : String) : Bool :=
  let cs := hint.toList
  (cs.head?.any fun c => "^~><=*".toList.contains c) || hasWithin ['|', '|'] cs ||
    hasWithin [' ', '-', ' '] cs || 1 < (Text.stretches Text.isBlank cs).length

/-- Checks a rule for packages to ignore. -/
def checkRule (rule : String) : Except Fault Unit :=
  let path := (Manifest.subtree? rule).getD rule
  if ImportPath.isValid path && ! path.toList.contains '*' then .ok ()
  else .error (.conversion (.invalidIgnore rule))

/-- The terms of a project, if there is something to declare. -/
def importedTerms? (source : Option String) (constraint : Option Constraint) : Option Terms :=
  match constraint, source with
  | some c, _ => some ⟨source, c⟩
  | none, some _ => some ⟨source, .any⟩
  | none, none => none

section

variable {σ : Type} (source : Source σ)

/-- A fault of converting. -/
def conversionFault {α : Type} (fault : ConversionFault) : Ask σ α :=
  throw (.conversion fault)

/-- The constraint that a hint stands for: compatible versions for a semver tag, a range for what
looks like one, a branch if the project has one of this name, and else a plain tag. -/
def constraintOfHint (project : Project) (hint : String) : Ask σ Constraint :=
  match Tag.read hint with
  | .ok tag => return .semver (.caret tag)
  | .error _ =>
    if looksLikeRange hint then
      match Range.read hint with
      | .ok range => return .semver range
      | .error e => conversionFault (.invalidHint project.root hint e)
    else do
      let listed ← source.versions project
      return if (listedBranch? listed hint).isSome then .branch hint else .plain hint

/-- The root of the project that a package belongs to. -/
def importedRoot (name : String) : Ask σ String :=
  tryCatch (source.rootOf name) fun e => conversionFault (.unknownRoot name e.message)

/-- What an entry says about its project. -/
def pinOf (root : String) (p : ForeignPackage) : Ask σ Pin :=
  match p.revision.map Text.trimmed with
  | some "" => conversionFault (.emptyRevision root)
  | revision => return ⟨trimmed? p.hint, revision, trimmed? p.source⟩

/-- Converts the first entry of a project. -/
def importProject (root relative : String) (pin : Pin) : Ask σ ImportedProject := do
  let project : Project := ⟨root, pin.source⟩
  let hinted ← pin.hint.mapM (constraintOfHint source project)
  let version ← pin.revision.mapM fun r => pinnedVersion source project hinted ⟨r⟩
  let constraint := hinted <|> (version.bind Version.named?).map Constraint.ofNamed
  return ⟨pin, importedTerms? pin.source constraint, version, .ofList [relative]⟩

/-- Converts an entry. Further entries of one project only add to its packages. -/
def importPackage (projects : Imported) (index : Nat) (p : ForeignPackage) : Ask σ Imported := do
  let name := Text.trimmed p.name
  if name = "" then conversionFault (.emptyName index)
  else
    let root ← importedRoot source name
    let relative := (ImportPath.relative? root name).getD "."
    let pin ← pinOf root p
    match projects.get? root with
    | some known =>
      match known.pin.difference? pin with
      | some field => conversionFault (.contradiction root field)
      | none =>
        return projects.insert root { known with packages := known.packages.insert relative }
    | none => return projects.insert root (← importProject source root relative pin)

/-- Converts a foreign configuration; the rules for packages to ignore are looked at first. -/
def convert (config : ForeignConfig) : Ask σ Conversion := do
  ExceptT.mk (pure (config.ignored.forM checkRule))
  let projects ← config.packages.zipIdx.foldlM
    (fun projects (p, index) => importPackage source projects index p) (SortedMap.empty : Imported)
  return Imported.conversion projects (.ofList config.ignored)

end

end Depsolve
