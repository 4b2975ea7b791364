import HaCluster.Power
import HaCluster.Decode.Error
import HaCluster.Json.Reader

/-!
# Decoding scalars, sequences and mappings

A decoder takes a document and where it comes from. A document from a text
may break off, and then an earlier fault still comes first; a value of the
tree is whole; a part of a document that had to be read ahead, because the
reader did not know yet what it was, is whole as well but words some faults
in its own way; and a configuration file does not mind a sequence that is too
long for its record.
-/

namespace HaCluster

/-- Where a document comes from. -/
inductive Origin where
  | text
  | value
  /-- Read ahead before its type was known. -/
  | buffered
  /-- A configuration file. -/
  | file
  deriving DecidableEq, Inhabited

/-- A function that reads a type out of a document. -/
abbrev Decoder (α : Type) := Origin → Json → Except DecodeError α

namespace Decode

/-- The fault of a value that is not of the kind expected. -/
def wrongType {α : Type} (j : Json) (expected : String) : Except DecodeError α :=
  match j with
  | .cut => .error .malformed
  | .unreadable => .error .malformed
  | j => .error (.invalidType j.description expected)

/-- Reads a text. -/
def string : Decoder String
  | _, .string s => .ok s
  | _, j => wrongType j "a string"

/-- Reads a truth value. -/
def bool : Decoder Bool
  | _, .bool b => .ok b
  | _, j => wrongType j "a boolean"

/-- Reads an integer between two bounds. -/
def integer (lo hi : Int) (expected : String) : Decoder Int
  | _, .number (.integer n) =>
    if lo ≤ n ∧ n ≤ hi then .ok n
    else .error (.invalidValue (Json.int n).description expected)
  | _, j => wrongType j expected

/-- Reads a natural number of so many bits. -/
def natural (bits : Nat) (expected : String) : Decoder Nat := fun o j =>
  (integer 0 (((twoTo bits : Nat) : Int) - 1) expected o j).map Int.toNat

/-- Reads a natural number of 64 bits. -/
def u64 : Decoder Nat := natural 64 "u64"

/-- Reads a natural number of 32 bits. -/
def u32 : Decoder Nat := natural 32 "u32"

/-- Reads a floating-point number; integers count as such. -/
def float : Decoder Float
  | _, .number (.integer n) => .ok (Float.ofInt n)
  | _, .number (.real x) => .ok x
  | _, j => wrongType j "f64"

/-- Reads something that may be `null`. -/
def optional {α : Type} (d : Decoder α) : Decoder (Option α)
  | _, .null => .ok none
  | o, j => (d o j).map some

/-- Reads a sequence. -/
def list {α : Type} (d : Decoder α) : Decoder (List α)
  | o, .array items => items.mapM (d o)
  | _, j => wrongType j "a sequence"

/-- Reads a mapping. Of two members with one name the later one counts. -/
def entries {α : Type} (d : Decoder α) : Decoder (Entries α)
  | o, .object members =>
    members.foldlM (fun m e => do
      let x ← d o e.2
      pure (Entries.insert m e.1 x)) []
  | _, j => wrongType j "a map"

/-- Reads a document ahead of its type: only a text that goes wrong is at
fault. -/
def buffer : Decoder Json
  | _, j => if j.isWhole then .ok j else .error .malformed

/-- Reads any value of the tree. -/
def value : Decoder Value
  | _, j => if j.isWhole then .ok (Value.ofJson j) else .error .malformed

/-- Decodes a text that has to be one document throughout. -/
def ofText {α : Type} (d : Decoder α) (s : String) : Except DecodeError α := do
  let (j, complete) := Json.read s
  let x ← d .text j
  if complete then pure x else .error .malformed

/-- Decodes a value of the tree. -/
def ofValue {α : Type} (d : Decoder α) (v : Value) : Except DecodeError α :=
  d .value v.toJson

end Decode

end HaCluster
