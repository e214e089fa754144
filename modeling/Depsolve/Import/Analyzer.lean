import Depsolve.Import.Convert
import Depsolve.Workspace

/-!
# Analyzers

An analyzer makes the first manifest of a directory, and perhaps a lock, from the configuration file
of another tool. It knows some file names and takes the first that is there.
-/

namespace Depsolve

/-- What to look for in a directory. -/
structure Analyzer where
  /-- Whether the files of other tools are left alone. -/
  skipTools : Bool
  /-- The names of the files to look for, in order. -/
  files : List String

namespace Analyzer

/-- The file name that every analyzer knows. -/
def defaultFile : String := "tether-import.json"

/-- The analyzer that knows one file name. -/
def new (skipTools : Bool) : Analyzer := ⟨skipTools, [defaultFile]⟩

/-- The analyzer that knows one more file name. -/
def withFile (a : Analyzer) (file : String) : Analyzer :=
  { a with files := a.files ++ [file] }

/-- The name under which the analyzer signs. -/
def name (a : Analyzer) : String :=
  if a.skipTools then "tether" else "tether+import"

/-- The version under which the analyzer signs. -/
def version : Nat := 1

/-- The configuration in the first of some files that is there. -/
def firstConfig? {δ : Type} (v : Volume δ) (disk : δ) (directory : String) :
    List String → Except Fault (Option ForeignConfig)
  | [] => .ok none
  | file :: rest => do
    let path := FilePath.join directory file
    if ← v.exists? disk path then return some (← ForeignConfig.ofText (← v.text disk path))
    else firstConfig? v disk directory rest

/-- The configuration of another tool in a directory. -/
def config? {δ : Type} (a : Analyzer) (v : Volume δ) (disk : δ) (directory : String) :
    Except Fault (Option ForeignConfig) :=
  if a.skipTools then .ok none else firstConfig? v disk directory a.files

/-- Converts the configuration of another tool in a directory, if there is one. -/
def run {δ σ : Type} (a : Analyzer) (v : Volume δ) (disk : δ) (directory : String)
    (source : Source σ) : Ask σ (Option Conversion) := do
  match ← ExceptT.mk (pure (a.config? v disk directory)) with
  | none => return none
  | some config => return some (← convert source config)

end Analyzer

end Depsolve
