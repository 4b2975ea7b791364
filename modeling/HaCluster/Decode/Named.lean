import HaCluster.Decode.Record

/-!
# Types whose values have names

Many fields of a record hold one of a few words. A type of such words lists
its values and names each of them; reading and writing follow from that.
-/

namespace HaCluster

/-- A type of finitely many values with a name each. -/
class Named (α : Type) where
  all : List α
  name : α → String

namespace Named

variable {α : Type} [Named α]

/-- The values by their names, in the order of the declaration. -/
def table : List (String × α) :=
  (all : List α).map (fun a => (name a, a))

/-- Reads a name. -/
def decode : Decoder α := Decode.name table

/-- A name as a value of the tree. -/
def toValue (a : α) : Value := .str (name a)

end Named

namespace Value

/-- A floating-point number as a record writes it: those that are not finite
become `null`. -/
def real (x : Float) : Value :=
  if x.isFinite then .float x else .null

/-- A natural number as a record writes it. -/
def ofNat (n : Nat) : Value := ofNumber (.integer n)

/-- Something that may be absent, as a record writes it. -/
def ofOption {α : Type} (f : α → Value) : Option α → Value
  | none => .null
  | some a => f a

/-- A list of texts as a record writes it. -/
def ofStrings (l : List String) : Value := .list (l.map .str)

end Value

end HaCluster
