import Depsolve.Digest.Blake3
import Depsolve.Manifest.Basic

/-!
# Signatures

A signature is the hash of a list of texts. Each text is framed by its length, so that different
lists give different bytes. `inputsDigest` is the signature of all that determines a solution.
-/

namespace Depsolve

/-- A number as so many bytes, the lowest first; higher bytes are dropped. -/
def littleEndian : Nat → Nat → List UInt8
  | 0, _ => []
  | count + 1, n => UInt8.ofNat n :: littleEndian count (n / 256)

/-- The bytes of a text in UTF-8. -/
def utf8 (s : String) : List UInt8 :=
  s.toUTF8.data.toList

/-- The bytes of a list of texts: each text after its length in eight bytes. -/
def frame (fields : List String) : List UInt8 :=
  fields.flatMap fun field => littleEndian 8 (utf8 field).length ++ utf8 field

/-- The signature of a list of texts. -/
def signature (fields : List String) : String :=
  Blake3.hash (frame fields)

/-- The texts that stand for the terms of a project. -/
def Terms.fields (root : String) (t : Terms) : List String :=
  [root, t.source.getD "", t.constraint.label, t.constraint.toText]

/-- The texts that stand for a manifest and the imports of the root project. -/
def inputFields (manifest : Manifest) (imports : SortedSet String) : List String :=
  let terms (table : SortedMap String Terms) : List String :=
    table.entries.flatMap fun (root, t) => t.fields root
  ["constraints"] ++ terms manifest.constraints ++ ["overrides"] ++ terms manifest.overrides ++
    ["ignored"] ++ manifest.ignored.toList ++ ["imports"] ++ imports.toList

/-- The digest of all that determines a solution. -/
def inputsDigest (manifest : Manifest) (imports : SortedSet String) : String :=
  signature (inputFields manifest imports)

end Depsolve
