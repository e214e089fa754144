import Depsolve.Disk.Path
import Depsolve.Disk.Volume

/-!
# Disks

A disk is a tree of directories and files. A path is followed from the root of the disk, segment by
segment, and only through directories that exist; here `..` leads to the directory above.
-/

namespace Depsolve

/-- What is at a place of a disk. -/
inductive DiskEntry
  | directory
  | text (content : String)
  | binary (content : List UInt8)
deriving DecidableEq

/-- The file with some bytes. -/
def DiskEntry.ofBytes (bytes : List UInt8) : DiskEntry :=
  match String.fromUTF8? ⟨bytes.toArray⟩ with
  | some s => .text s
  | none => .binary bytes

/-- A place of a disk, as the names that lead to it from the root. -/
abbrev DiskPlace := List String

/-- A tree of directories and files. -/
structure Disk where
  /-- What is at each place below the root. -/
  entries : List (DiskPlace × DiskEntry)

/-- Why a path leads nowhere. -/
inductive PathFault
  /-- A directory on the way does not exist. -/
  | missing
  /-- The path goes through a file, or is too long, or is none. -/
  | impossible
deriving DecidableEq

namespace Disk

/-- The disk with an empty root. -/
def empty : Disk := ⟨[]⟩

/-- What is at a place. -/
def entry? (d : Disk) (place : DiskPlace) : Option DiskEntry :=
  if place.isEmpty then some .directory else d.entries.lookup place

/-- The disk without what is at a place. -/
def erase (d : Disk) (place : DiskPlace) : Disk :=
  ⟨d.entries.filter fun (p, _) => p ≠ place⟩

/-- The disk with something at a place, instead of what was there. -/
def put (d : Disk) (place : DiskPlace) (entry : DiskEntry) : Disk :=
  ⟨(place, entry) :: (d.erase place).entries⟩

/-- The longest name that a file can have, in bytes. -/
def nameLimit : Nat := 255

/-- The longest path that can be followed, in bytes. -/
def pathLimit : Nat := 4095

/-- Follows segments from a place; what they lead to need not exist, but all before it has to. -/
def follow (d : Disk) (place : DiskPlace) : List String → Except PathFault DiskPlace
  | [] => .ok place
  | segment :: rest =>
    match d.entry? place with
    | none => .error .missing
    | some .directory =>
      if FilePath.isIdle segment then d.follow place rest
      else if segment = ".." then d.follow place.dropLast rest
      else if nameLimit < segment.utf8ByteSize then .error .impossible
      else d.follow (place ++ [segment]) rest
    | some _ => .error .impossible

/-- The place that a path leads to. -/
def place? (d : Disk) (path : String) : Except PathFault DiskPlace :=
  if path.toList.contains '\x00' || pathLimit < path.utf8ByteSize then .error .impossible
  else d.follow [] (FilePath.segments path)

/-- Whether there is something at a path; none if the path is impossible. -/
def isThere? (d : Disk) (path : String) : Option Bool :=
  match d.place? path with
  | .ok place => some (d.entry? place).isSome
  | .error .missing => some false
  | .error .impossible => none

/-- The text of the file at a path. -/
def read? (d : Disk) (path : String) : Option String :=
  match d.place? path with
  | .error _ => none
  | .ok place =>
    match d.entry? place with
    | some (.text content) => some content
    | _ => none

/-- Writes a text to the file at a path; fails for a directory and where no file can be. -/
def write (d : Disk) (path content : String) : Bool × Disk :=
  match d.place? path with
  | .error _ => (false, d)
  | .ok place =>
    if d.entry? place = some .directory then (false, d) else (true, d.put place (.text content))

/-- Moves a file, in place of one that is there; fails for directories and where no file can be. -/
def rename (d : Disk) (path target : String) : Bool × Disk :=
  match d.place? path, d.place? target with
  | .ok source, .ok target =>
    match d.entry? source with
    | none => (false, d)
    | some .directory => (false, d)
    | some file =>
      if d.entry? target = some .directory then (false, d)
      else (true, (d.erase source).put target file)
  | _, _ => (false, d)

/-- Removes the file at a path; leaves directories. -/
def remove (d : Disk) (path : String) : Disk :=
  match d.place? path with
  | .error _ => d
  | .ok place => if d.entry? place = some .directory then d else d.erase place

/-- The disk as a volume. -/
def volume : Volume Disk := ⟨isThere?, read?, write, rename, remove⟩

/-- The disk with a directory at a place, unless something is there. -/
def addDirectory (d : Disk) (place : DiskPlace) : Disk :=
  if (d.entry? place).isSome then d else d.put place .directory

/-- The disk with something at a path, and the directories above it; a directory that is there
stays. -/
def add (d : Disk) (path : String) (entry : DiskEntry) : Disk :=
  let place := (FilePath.segments path).filter fun s => ! FilePath.isIdle s
  let d := (List.range place.length).foldl (fun d n => d.addDirectory (place.take n)) d
  if entry = .directory then d.addDirectory place else d.put place entry

/-- The path of an entry, relative to the directory that its names start from; that of a directory
ends in a slash. -/
def listed (place : DiskPlace) (entry : DiskEntry) : String :=
  "/".intercalate place ++ (if entry = .directory then "/" else "")

/-- All paths below a directory, relative to it, sorted. -/
def listing (d : Disk) (path : String) : List String :=
  match d.place? path with
  | .error _ => []
  | .ok directory =>
    let paths := d.entries.filterMap fun (place, entry) =>
      if directory.isPrefixOf place && directory.length < place.length then
        some (listed (place.drop directory.length) entry)
      else none
    paths.mergeSort fun a b => ! decide (b < a)

end Disk

end Depsolve
