import HaCluster.Json.Document
import HaCluster.Decimal.Shortest

/-!
# The text of a document

Documents are written without blanks, the members of an object in the order
they have. A floating-point number is written with the fewest digits that
read back and always differs from an integer.
-/

namespace HaCluster

namespace Json

/-- The digit of a hexadecimal number. -/
def hexDigit (n : Nat) : Char :=
  (Nat.toDigits 16 (n % 16)).headD '0'

/-- How a character is written inside quotes: control characters, the quote
and the backslash are escaped. -/
def escapeChar (c : Char) : List Char :=
  if c = '"' then ['\\', '"']
  else if c = '\\' then ['\\', '\\']
  else if c = '\n' then ['\\', 'n']
  else if c = '\r' then ['\\', 'r']
  else if c = '\t' then ['\\', 't']
  else if c.toNat = 8 then ['\\', 'b']
  else if c.toNat = 12 then ['\\', 'f']
  else if c.toNat < 32 then
    ['\\', 'u', '0', '0', hexDigit (c.toNat / 16), hexDigit c.toNat]
  else [c]

/-- A text in quotes. -/
def quote (s : String) : String :=
  String.ofList ('"' :: s.toList.flatMap escapeChar ++ ['"'])

/-- The text of a number. -/
def Number.text : Number → String
  | .integer n => toString n
  | .real x => Decimal.shortestText x

mutual

/-- The text of a document. -/
def text : Json → String
  | .null => "null"
  | .bool b => if b then "true" else "false"
  | .number n => n.text
  | .string s => quote s
  | .array items => "[" ++ itemsText items ++ "]"
  | .object members => "\x7b" ++ membersText members ++ "\x7d"
  | .cut => ""
  | .unreadable => "null"

/-- The items of an array, separated by commas. -/
def itemsText : List Json → String
  | [] => ""
  | [j] => text j
  | j :: rest => text j ++ "," ++ itemsText rest

/-- The members of an object, separated by commas. -/
def membersText : List (String × Json) → String
  | [] => ""
  | [(k, j)] => quote k ++ ":" ++ text j
  | (k, j) :: rest => quote k ++ ":" ++ text j ++ "," ++ membersText rest

end

end Json

/-- The text of a value of the tree. -/
def Value.text (v : Value) : String :=
  v.toJson.text

end HaCluster
