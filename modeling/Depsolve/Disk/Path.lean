/-!
# File paths

A file path is a text of segments with slashes between them. What lies above a path is found by its
text: empty segments and `.` do not count, and `..` is a segment like any other.
-/

namespace Depsolve.FilePath

/-- The segments of a path. -/
def segments (path : String) : List String :=
  (path.toList.splitOnP (· == '/')).map String.ofList

/-- Whether a segment leads nowhere. -/
def isIdle (segment : String) : Bool :=
  segment == "" || segment == "."

/-- The path of a first segment and those that follow it, the last one first. -/
def render (first : String) (below : List String) : String :=
  if below.isEmpty then (if first == "" then "/" else first)
  else "/".intercalate (first :: below.reverse)

/-- The paths above one that is given by its first segment and those that follow it, the last one
first. The nearest comes first. -/
def above (first : String) : List String → List String
  | [] => if first == "" then [] else [""]
  | segment :: below =>
    if isIdle segment then above first below
    else render first (below.dropWhile isIdle) :: above first below

/-- A path and the paths above it, the nearest first. -/
def ancestors (path : String) : List String :=
  match segments path with
  | [] => [path]
  | first :: below => path :: above first below.reverse

/-- The path of a name below a directory; a name that starts with a slash stands for itself. -/
def join (directory name : String) : String :=
  if name.startsWith "/" then name
  else if directory.isEmpty || directory.endsWith "/" then directory ++ name
  else directory ++ "/" ++ name

end Depsolve.FilePath
