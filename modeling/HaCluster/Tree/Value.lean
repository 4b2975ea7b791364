import HaCluster.Tree.Entries

/-!
# Values of the shared tree

The data that the nodes of a cluster share is one tree of values. A value is
a scalar, a list or a mapping; integers and floating-point numbers are kept
apart, so that `1` and `1.0` are different values.

Equality is decided entry by entry and compares numbers as numbers: `0.0` and
`-0.0` are the same value, and a value that holds no number that differs from
itself is equal to itself.
-/

namespace HaCluster

/-- A node of the shared tree. The entries of a mapping are in ascending
order of their keys. -/
inductive Value where
  | null
  | bool (b : Bool)
  | int (i : Int64)
  | float (x : Float)
  | str (s : String)
  | list (items : List Value)
  | map (entries : List (String × Value))
  deriving Inhabited

namespace Value

mutual

/-- Whether two values are equal. -/
def beq : Value → Value → Bool
  | .null, .null => true
  | .bool a, .bool b => a == b
  | .int a, .int b => a == b
  | .float a, .float b => a == b
  | .str a, .str b => a == b
  | .list a, .list b => beqItems a b
  | .map a, .map b => beqEntries a b
  | _, _ => false

/-- Whether two lists hold equal values at every position. -/
def beqItems : List Value → List Value → Bool
  | [], [] => true
  | a :: as, b :: bs => beq a b && beqItems as bs
  | _, _ => false

/-- Whether two mappings have the same keys with equal values. -/
def beqEntries : List (String × Value) → List (String × Value) → Bool
  | [], [] => true
  | (k, a) :: as, (l, b) :: bs => k == l && beq a b && beqEntries as bs
  | _, _ => false

end

instance : BEq Value := ⟨beq⟩

/-- The mapping without entries. -/
def empty : Value := .map []

/-- The mapping that holds the given entries. -/
def ofEntries (l : List (String × Value)) : Value :=
  .map (Entries.ofList l)

/-- The name of the kind of a value. -/
def kind : Value → String
  | .null => "null"
  | .bool _ => "bool"
  | .int _ => "int"
  | .float _ => "float"
  | .str _ => "str"
  | .list _ => "list"
  | .map _ => "map"

/-- Whether the value is `null`. -/
def isNull : Value → Bool
  | .null => true
  | _ => false

/-- The entries of a mapping. -/
def asMap? : Value → Option (Entries Value)
  | .map m => some m
  | _ => none

/-- The items of a list. -/
def asList? : Value → Option (List Value)
  | .list l => some l
  | _ => none

/-- The text of a text value. -/
def asStr? : Value → Option String
  | .str s => some s
  | _ => none

/-- The truth value of a boolean. -/
def asBool? : Value → Option Bool
  | .bool b => some b
  | _ => none

/-- The integer that a number stands for. A floating-point number counts if
it has no fractional part, and is clamped to the range of the integers. -/
def asInt? : Value → Option Int64
  | .int i => some i
  | .float x => if x.isFinite && x.floor == x then some x.toInt64 else none
  | _ => none

/-- The floating-point number that a number stands for. -/
def asFloat? : Value → Option Float
  | .int i => some i.toFloat
  | .float x => some x
  | _ => none

/-- The value under a key of a mapping; other values have no keys. -/
def get? (v : Value) (key : String) : Option Value :=
  v.asMap?.bind (fun m => Entries.get? m key)

end Value

end HaCluster
