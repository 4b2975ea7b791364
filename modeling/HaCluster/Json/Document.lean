import HaCluster.Power
import HaCluster.Tree.Value

/-!
# JSON documents

A document keeps the members of an object in the order of the text, repeated
names included, because a reader that looks for known fields has to meet them
in that order.

Two forms stand for text that is not a value. `cut` marks the place where the
text stops being JSON: whatever follows it is lost, and what precedes it is
kept, so that a reader which finds fault with an earlier part can say so.
`unreadable` is a token that is JSON but that no value can hold: a number out
of range, a text with half of a surrogate pair, or a container nested too
deeply. It does no harm where nobody looks at it.
-/

namespace HaCluster

/-- A number of a document. -/
inductive Json.Number where
  | integer (n : Int)
  | real (x : Float)
  deriving Inhabited

/-- A JSON document. -/
inductive Json where
  | null
  | bool (b : Bool)
  | number (n : Json.Number)
  | string (s : String)
  | array (items : List Json)
  | object (members : List (String × Json))
  | cut
  | unreadable
  deriving Inhabited

namespace Json

/-- An integer as a document. -/
def int (n : Int) : Json := .number (.integer n)

/-- A natural number as a document. -/
def nat (n : Nat) : Json := .int n

/-- A floating-point number as a document; those that are not finite have no
text and become `null`. -/
def real (x : Float) : Json :=
  if x.isFinite then .number (.real x) else .null

/-- The first value under a name. -/
def get? (j : Json) (name : String) : Option Json :=
  match j with
  | .object members => Entries.get? members name
  | _ => none

mutual

/-- The document with the names of every object in ascending order, each once
with its last value. -/
def sorted : Json → Json
  | .array items => .array (sortedItems items)
  | .object members => .object (sortedMembers [] members)
  | j => j

/-- Sorts the names in every item. -/
def sortedItems : List Json → List Json
  | [] => []
  | j :: rest => sorted j :: sortedItems rest

/-- Adds members one by one to a sorted object. -/
def sortedMembers (acc : List (String × Json)) :
    List (String × Json) → List (String × Json)
  | [] => acc
  | (k, j) :: rest => sortedMembers (Entries.insert acc k (sorted j)) rest

end

mutual

/-- Whether the document is a value throughout. -/
def isWhole : Json → Bool
  | .cut => false
  | .unreadable => false
  | .array items => areWhole items
  | .object members => membersWhole members
  | _ => true

/-- Whether every item is a value throughout. -/
def areWhole : List Json → Bool
  | [] => true
  | j :: rest => isWhole j && areWhole rest

/-- Whether every member is a value throughout. -/
def membersWhole : List (String × Json) → Bool
  | [] => true
  | (_, j) :: rest => isWhole j && membersWhole rest

end

mutual

/-- Whether the text of the document runs to its end. -/
def isUncut : Json → Bool
  | .cut => false
  | .array items => areUncut items
  | .object members => membersUncut members
  | _ => true

/-- Whether the text of every item runs to its end. -/
def areUncut : List Json → Bool
  | [] => true
  | j :: rest => isUncut j && areUncut rest

/-- Whether the text of every member runs to its end. -/
def membersUncut : List (String × Json) → Bool
  | [] => true
  | (_, j) :: rest => isUncut j && membersUncut rest

end

end Json

namespace Value

/-- The number of the tree that a number of a document stands for: integers
beyond the range of the tree become floating-point numbers. -/
def ofNumber : Json.Number → Value
  | .integer n =>
    if -twoTo 63 ≤ n ∧ n < twoTo 63 then .int (Int64.ofInt n) else .float (Float.ofInt n)
  | .real x => .float x

mutual

/-- The value of the tree that a document stands for. Of the members with one
name the last one counts. -/
def ofJson : Json → Value
  | .null => .null
  | .bool b => .bool b
  | .number n => ofNumber n
  | .string s => .str s
  | .array items => .list (ofJsonItems items)
  | .object members => .map (ofJsonMembers [] members)
  | .cut => .null
  | .unreadable => .null

/-- The values of the items of a document. -/
def ofJsonItems : List Json → List Value
  | [] => []
  | j :: rest => ofJson j :: ofJsonItems rest

/-- Adds the members of a document one by one to a mapping. -/
def ofJsonMembers (acc : List (String × Value)) :
    List (String × Json) → List (String × Value)
  | [] => acc
  | (k, j) :: rest => ofJsonMembers (Entries.insert acc k (ofJson j)) rest

end

mutual

/-- The document for a value. -/
def toJson : Value → Json
  | .null => .null
  | .bool b => .bool b
  | .int i => .int i.toInt
  | .float x => .real x
  | .str s => .string s
  | .list items => .array (toJsonItems items)
  | .map entries => .object (toJsonMembers entries)

/-- The documents for the items of a list. -/
def toJsonItems : List Value → List Json
  | [] => []
  | v :: rest => toJson v :: toJsonItems rest

/-- The members for the entries of a mapping. -/
def toJsonMembers : List (String × Value) → List (String × Json)
  | [] => []
  | (k, v) :: rest => (k, toJson v) :: toJsonMembers rest

end

end Value

end HaCluster
