import Depsolve.Toml.Scalar
import Depsolve.Toml.Tree

/-!
# Reading TOML documents

`Toml.read` reads a document of TOML 1.0 as the entries of its outermost table, or tells that the
text is none. A document may nest values, and segments of a key, fewer than `maxDepth` deep.
-/

namespace Depsolve.Toml

/-- The depth that nested values and keys have to stay below. -/
def maxDepth : Nat := 80

/-- The text after white space, comments and line breaks, if each comment ends with its line. -/
def dropFiller : Nat → List Char → Option (List Char)
  | 0, _ => none
  | n + 1, cs =>
    match dropSpace cs with
    | '#' :: rest =>
      match newline? (rest.dropWhile isPlain) with
      | some rest => dropFiller n rest
      | none => none
    | rest =>
      match newline? rest with
      | some rest => dropFiller n rest
      | none => some rest

/-- Splits a key into the path to its table and its last segment. -/
def splitKey : List String → Option (List String × String)
  | [] => none
  | [key] => some ([], key)
  | segment :: rest => (splitKey rest).map fun (path, key) => (segment :: path, key)

mutual

/-- Reads a value inside which values may nest `depth` deep. The first number bounds the steps. -/
def readValue : Nat → Nat → List Char → Option (Value × List Char)
  | 0, _, _ => none
  | n + 1, depth, cs =>
    match cs with
    | '[' :: rest =>
      match depth with
      | 0 => none
      | depth + 1 => do
        let rest ← dropFiller (rest.length + 1) rest
        let (items, rest) ← readItems n depth rest
        return (.array items, rest)
    | '\x7b' :: rest =>
      match depth with
      | 0 => none
      | depth + 1 =>
        match dropSpace rest with
        | '\x7d' :: rest => return (.table [], rest)
        | _ => do
          let (entries, rest) ← readPairs n depth rest []
          return (.table (entriesValues entries), rest)
    | cs => readScalar cs

/-- Reads the items of a list up to its closing bracket. -/
def readItems : Nat → Nat → List Char → Option (List Value × List Char)
  | 0, _, _ => none
  | n + 1, depth, cs =>
    match cs with
    | ']' :: rest => some ([], rest)
    | cs => do
      let (item, rest) ← readValue n depth cs
      let rest ← dropFiller (rest.length + 1) rest
      match rest with
      | ']' :: rest => return ([item], rest)
      | ',' :: rest =>
        let rest ← dropFiller (rest.length + 1) rest
        let (items, rest) ← readItems n depth rest
        return (item :: items, rest)
      | _ => none

/-- Reads the entries of a table on one line up to its closing brace and adds them to others. -/
def readPairs : Nat → Nat → List Char → Entries → Option (Entries × List Char)
  | 0, _, _, _ => none
  | n + 1, depth, cs, entries => do
    let (key, rest) ← readKey (maxDepth - 1) cs
    let rest ← readChar '=' rest
    let (value, rest) ← readValue n depth (dropSpace rest)
    let (path, key) ← splitKey key
    let entries ← addPair path key value .headed entries
    match dropSpace rest with
    | '\x7d' :: rest => return (entries, rest)
    | ',' :: rest => readPairs n depth rest entries
    | _ => none

end

/-- The text after the end of a line: white space, a comment, and a line break unless the text
ends. -/
def endLine (cs : List Char) : Option (List Char) :=
  match dropComment (dropSpace cs) with
  | [] => some []
  | rest => newline? rest

/-- A document that has been read in part: its content, and the path of the table that the next
entries go to. -/
structure Draft where
  entries : Entries
  path : List String

/-- Reads a header after its opening bracket and opens its table. -/
def readHeader (draft : Draft) (cs : List Char) : Option (Draft × List Char) := do
  let (isList, rest) :=
    match cs with
    | '[' :: rest => (true, rest)
    | rest => (false, rest)
  let (keys, rest) ← readKey (maxDepth - 1) rest
  let rest ← readChar ']' rest
  let rest ← if isList then readChar ']' rest else some rest
  let rest ← endLine rest
  let (path, key) ← splitKey keys
  let entries ←
    update false (if isList then pushTable key else headTable key) path .headed draft.entries
  return (⟨entries, keys⟩, rest)

/-- Reads an entry and adds it to the open table. -/
def readEntry (draft : Draft) (cs : List Char) : Option (Draft × List Char) := do
  let (keys, rest) ← readKey (maxDepth - 1) cs
  let rest ← readChar '=' rest
  let (value, rest) ← readValue (2 * rest.length + 2) (maxDepth - 1) (dropSpace rest)
  let rest ← endLine rest
  let (path, key) ← splitKey keys
  let entries ← update false (addPair path key value) draft.path .headed draft.entries
  return ({ draft with entries }, rest)

/-- Reads the lines of a document. -/
def readLines : Nat → Draft → List Char → Option Draft
  | 0, _, _ => none
  | n + 1, draft, cs =>
    match dropSpace cs with
    | [] => some draft
    | '[' :: rest => do
      let (draft, rest) ← readHeader draft rest
      readLines n draft rest
    | '#' :: rest => do
      let rest ← endLine ('#' :: rest)
      readLines n draft rest
    | rest =>
      match newline? rest with
      | some rest => readLines n draft rest
      | none => do
        let (draft, rest) ← readEntry draft rest
        readLines n draft rest

/-- Reads a document; a byte order mark may stand in front. -/
def read (text : String) : Option (List (String × Value)) :=
  let cs :=
    match text.toList with
    | '\uFEFF' :: rest => rest
    | cs => cs
  (readLines (cs.length + 1) ⟨[], []⟩ cs).map fun draft => entriesValues draft.entries

end Depsolve.Toml
