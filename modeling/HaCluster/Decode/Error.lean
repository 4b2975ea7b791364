import HaCluster.Decode.Quoted
import HaCluster.Json.Printer

/-!
# Why a document is not a record

Decoding stops at the first fault in reading order. Each fault is a
constructor of `DecodeError`, and its wording is `DecodeError.message`.
-/

namespace HaCluster

/-- A fault of a document. -/
inductive DecodeError where
  /-- The text is not JSON. -/
  | malformed
  /-- A record lacks a field. -/
  | missingField (name : String)
  /-- A record has a field twice. -/
  | duplicateField (name : String)
  /-- A name is none of those allowed. -/
  | unknownVariant (name : String) (expected : List String)
  /-- A value is of the wrong kind. -/
  | invalidType (found expected : String)
  /-- A value is of the right kind and out of range. -/
  | invalidValue (found expected : String)
  /-- A sequence is too short or too long. -/
  | invalidLength (length : Nat) (expected : String)
  /-- A value fits none of the forms that a type has. -/
  | noForm (type : String)
  /-- A text that no variant has. -/
  | unexpectedText (text : String)
  deriving DecidableEq, Inhabited

namespace DecodeError

/-- A name as messages show it. -/
def ticked (name : String) : String := "`" ++ name ++ "`"

/-- The names that were allowed. -/
def oneOf : List String → String
  | [] => "there are no variants"
  | [a] => "expected " ++ ticked a
  | [a, b] => "expected " ++ ticked a ++ " or " ++ ticked b
  | names => "expected one of " ++ ", ".intercalate (names.map ticked)

/-- The wording of a fault. -/
def message : DecodeError → String
  | .malformed => "malformed text"
  | .missingField name => "missing field " ++ ticked name
  | .duplicateField name => "duplicate field " ++ ticked name
  | .unknownVariant name expected =>
    let names := oneOf expected
    "unknown variant " ++ ticked name ++ ", " ++ names
  | .invalidType found expected =>
    "invalid type: " ++ found ++ ", expected " ++ expected
  | .invalidValue found expected =>
    "invalid value: " ++ found ++ ", expected " ++ expected
  | .invalidLength n expected =>
    "invalid length " ++ toString n ++ ", expected " ++ expected
  | .noForm type => "data did not match any variant of untagged enum " ++ type
  | .unexpectedText text => "unexpected value " ++ Decode.quoted text

end DecodeError

/-- How messages describe a value that was found. -/
def Json.description : Json → String
  | .null => "null"
  | .bool b => "boolean " ++ DecodeError.ticked (toString b)
  | .number (.integer n) => "integer " ++ DecodeError.ticked (toString n)
  | .number (.real x) => "floating point " ++ DecodeError.ticked (Decimal.shortestText x)
  | .string s => "string " ++ Decode.quoted s
  | .array _ => "sequence"
  | .object _ => "map"
  | .cut => ""
  | .unreadable => ""

end HaCluster
