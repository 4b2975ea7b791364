import HaCluster.Power
import HaCluster.Span.Basic
import HaCluster.Decode.Scalar
import HaCluster.Text.Blank

/-!
# The text of a span

A span is written as a sum of numbers with units, such as `1h 30m`. Blanks
may stand around the terms and also inside a number. A fraction has to make a
whole number of nanoseconds, or of seconds for the units from an hour on, and
no amount may exceed 64 bits.
-/

namespace HaCluster.Span

/-- A unit of time. Small units count nanoseconds and large ones seconds. -/
inductive Unit where
  /-- A unit of so many nanoseconds, whose fraction counts so many. -/
  | small (nanos : Nat)
  /-- A unit of so many seconds, whose fraction still counts nanoseconds. -/
  | middle (seconds : Nat)
  /-- A unit of so many seconds, whose fraction counts seconds. -/
  | large (seconds : Nat)
  deriving DecidableEq, Inhabited

/-- The units by their names. -/
def units : List (List String × Unit) :=
  [(["nanos", "nsec", "ns"], .small 1),
   (["usec", "us", "µs"], .small 1000),
   (["millis", "msec", "ms"], .small 1000000),
   (["seconds", "second", "secs", "sec", "s"], .middle 1),
   (["minutes", "minute", "min", "mins", "m"], .middle 60),
   (["hours", "hour", "hr", "hrs", "h"], .large 3600),
   (["days", "day", "d"], .large 86400),
   (["weeks", "week", "wk", "wks", "w"], .large 604800),
   (["months", "month", "M"], .large 2630016),
   (["years", "year", "yr", "yrs", "y"], .large 31557600)]

/-- The unit with a name. -/
def unit? (name : String) : Option Unit :=
  (units.find? (fun u => u.1.contains name)).map Prod.snd

/-- A product that 64 bits hold. -/
def times? (a b : Nat) : Option Nat :=
  if a * b < twoTo 64 then some (a * b) else none

/-- A quotient without a remainder. -/
def exactDiv? (a b : Nat) : Option Nat :=
  if a % b = 0 then some (a / b) else none

/-- Adds seconds and nanoseconds to a span, as far as 64 bits hold them. -/
def add? (d : Span) (seconds nanos : Nat) : Option Span :=
  let total := d.nanos + seconds * 1000000000 + nanos
  if d.nanos % 1000000000 + nanos < twoTo 64 ∧ total / 1000000000 < twoTo 64 then some ⟨total⟩
  else none

/-- A fraction: its digits as a number, and the power of ten it is divided
by. -/
abbrev Fraction := Nat × Nat

/-- Adds a number of units to a span. -/
def addTerm? (d : Span) (n : Nat) (fraction : Option Fraction) (u : Unit) : Option Span := do
  let d ← match u with
    | .small k => d.add? 0 (← times? n k)
    | .middle k => d.add? (← times? n k) 0
    | .large k => d.add? (← times? n k) 0
  match fraction with
  | none => pure d
  | some (a, b) =>
    match u with
    | .small k => d.add? 0 (← exactDiv? (← times? a k) b)
    | .middle k => d.add? 0 (← exactDiv? (← times? a (k * 1000000000)) b)
    | .large k => d.add? (← exactDiv? (← times? a k) b) 0

/-- Whether a character belongs to a number, blanks included. -/
def inNumber (c : Char) : Bool := c.isDigit || Text.isBlank c

/-- Whether a character belongs to the name of a unit. -/
def inUnit (c : Char) : Bool := c.isAlpha || c = 'µ'

/-- The number that the digits among some characters write. -/
def number (cs : List Char) : Nat :=
  (cs.filter Char.isDigit).foldl (fun n c => 10 * n + (c.toNat - '0'.toNat)) 0

/-- Reads the digits after a point; they may not be more than nineteen. -/
def readFraction (cs : List Char) : Option (Option Fraction × List Char) :=
  match cs with
  | '.' :: rest =>
    let digits := (rest.takeWhile inNumber).filter Char.isDigit
    if digits.isEmpty ∨ 19 < digits.length then none
    else some (some (number digits, Nat.pow 10 digits.length), rest.dropWhile inNumber)
  | rest => some (none, rest)

/-- Reads the terms of a span from its first digit on. -/
def readTerms : Nat → Span → List Char → Option Span
  | 0, _, _ => none
  | fuel + 1, d, cs => do
    let n := number (cs.takeWhile inNumber)
    let (fraction, rest) ← readFraction (cs.dropWhile inNumber)
    let u ← unit? (String.ofList (rest.takeWhile inUnit))
    let d ← if n < twoTo 64 then d.addTerm? n fraction u else none
    match (rest.dropWhile inUnit).dropWhile Text.isBlank with
    | [] => pure d
    | c :: rest => if c.isDigit then readTerms fuel d (c :: rest) else none

/-- The span that a text writes. -/
def ofText? (s : String) : Option Span :=
  match s.toList.dropWhile Text.isBlank with
  | [] => none
  | c :: rest => if c.isDigit then readTerms (rest.length + 1) ⟨0⟩ (c :: rest) else none

/-- Reads a span written as a text. -/
def decode : Decoder Span
  | _, .string s =>
    match ofText? s with
    | some d => .ok d
    | none => .error (.invalidValue (Json.string s).description "a duration")
  | _, j => Decode.wrongType j "a duration"

end HaCluster.Span
