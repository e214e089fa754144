import Depsolve.Text.Blank

/-!
# Import paths

An import path is a text of segments with slashes between them, such as `github.com/acme/tool/sub`.
A path lies below another only at a segment boundary, so `a/bc` is not below `a/b`.

A package of a project is named by its full path or by its path relative to the project's root,
where `.` is the root itself; `relative?` and `join` go from one to the other.
-/

namespace Depsolve.ImportPath

/-- The segments of a path. -/
def segments (path : String) : List (List Char) :=
  path.toList.splitOnP (· == '/')

/-- What follows a list at the front of another. -/
def after? : List Char → List Char → Option (List Char)
  | [], path => some path
  | _ :: _, [] => none
  | r :: rs, c :: cs => if r = c then after? rs cs else none

/-- Whether `path` is `root` or lies below it. -/
def covers (root path : String) : Bool :=
  match after? root.toList path.toList with
  | none => false
  | some [] => true
  | some (c :: _) => c == '/' || root.toList.getLast? == some '/'

/-- Whether a path names a package of the standard library: its first segment has no dot. -/
def isStandard (path : String) : Bool :=
  let first := path.toList.takeWhile (· != '/')
  ! first.isEmpty && ! first.contains '.'

/-- The path of a package relative to a root; none if the root does not cover it. -/
def relative? (root package : String) : Option String :=
  if covers root package then
    match (package.toList.drop root.toList.length).dropWhile (· == '/') with
    | [] => some "."
    | rest => some (String.ofList rest)
  else none

/-- The path without slashes at its end. -/
def dropTrailingSlashes (path : String) : String :=
  String.ofList (path.toList.reverse.dropWhile (· == '/')).reverse

/-- The full path of a package given relative to a root. -/
def join (root relative : String) : String :=
  if relative = "." ∨ relative = "" then root
  else dropTrailingSlashes root ++ "/" ++ relative

/-- Whether a path has the shape of an import path: no white space, and no segment that is
empty, `.` or `..`. -/
def isValid (path : String) : Bool :=
  ! path.toList.any Text.isBlank &&
    (segments path).all fun s => ! s.isEmpty && s != ['.'] && s != ['.', '.']

end Depsolve.ImportPath
