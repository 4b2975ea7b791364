import HaCluster.Power
import HaCluster.Tree.Value
import HaCluster.Decimal.Binary

/-!
# Binary items

The binary form of a value is a CBOR item. Items are written with definite
lengths and with the fewest bytes that hold a number: an integer takes the
narrowest width, and a floating-point number the narrowest of three formats
that represents it exactly.
-/

namespace HaCluster

/-- The widths of an integer, in bytes. -/
inductive Cbor.Width where
  | one
  | two
  | four
  | eight
  deriving DecidableEq, Inhabited

/-- A binary item. The negative integer of `n` is `-1 - n`. -/
inductive Cbor where
  | unsigned (width : Cbor.Width) (n : Nat)
  | negative (n : Nat)
  | bytes (bs : List UInt8)
  | text (s : String)
  | array (items : List Cbor)
  | map (entries : List (Cbor × Cbor))
  | bool (b : Bool)
  | null
  | float (x : Float)
  deriving Inhabited

namespace Cbor

/-- The narrowest width that holds a number. -/
def Width.narrowest (n : Nat) : Width :=
  if n < twoTo 8 then .one
  else if n < twoTo 16 then .two
  else if n < twoTo 32 then .four
  else .eight

/-- The natural number as an item. -/
def nat (n : Nat) : Cbor := .unsigned (.narrowest n) n

/-- The integer as an item. -/
def int (n : Int) : Cbor :=
  if 0 ≤ n then nat n.toNat else .negative (-1 - n).toNat

/-- The bytes of a number, the most significant one first. -/
def bigEndian : Nat → Nat → List UInt8
  | 0, _ => []
  | k + 1, n => bigEndian k (n / 256) ++ [UInt8.ofNat n]

/-- The first byte of an item and the bytes of its number. -/
def head (major : Nat) (width : Width) (n : Nat) : List UInt8 :=
  match width with
  | .one =>
    if n < 24 then [UInt8.ofNat (32 * major + n)]
    else UInt8.ofNat (32 * major + 24) :: bigEndian 1 n
  | .two => UInt8.ofNat (32 * major + 25) :: bigEndian 2 n
  | .four => UInt8.ofNat (32 * major + 26) :: bigEndian 4 n
  | .eight => UInt8.ofNat (32 * major + 27) :: bigEndian 8 n

/-- The head with the narrowest width. -/
def shortHead (major n : Nat) : List UInt8 :=
  head major (.narrowest n) n

/-- Moves factors of two from a number into an exponent. -/
def reduce : Nat → Nat → Int → Nat × Int
  | 0, m, e => (m, e)
  | fuel + 1, m, e =>
    if m ≠ 0 ∧ m % 2 = 0 then reduce fuel (m / 2) (e + 1) else (m, e)

/-- The bits of a finite double in a format with fewer fraction and exponent
bits, if that format represents it exactly. -/
def narrow? (exponentBits fractionBits : Nat) (x : Float) : Option Nat :=
  let b := Decimal.Binary.ofFloat x
  let sign := if Decimal.isNegative x then twoTo (exponentBits + fractionBits) else 0
  if b.mantissa = 0 then some sign
  else
    let (m, e) := reduce 53 b.mantissa b.exponent
    let bias : Int := ((twoTo (exponentBits - 1) : Nat) : Int) - 1
    let top : Int := (m.log2 : Int) + e
    let unit : Int := max top (1 - bias) - fractionBits
    if e < unit ∨ bias < top then none
    else
      let digits := m * twoTo (e - unit).toNat
      let scale := if digits < twoTo fractionBits then 0 else (top + bias).toNat
      some (sign + scale * twoTo fractionBits + digits % twoTo fractionBits)

/-- The bytes of a floating-point number. -/
def floatBytes (x : Float) : List UInt8 :=
  if x.isNaN then [0xf9, 0x7e, 0x00]
  else if x.isInf then
    if Decimal.isNegative x then [0xf9, 0xfc, 0x00] else [0xf9, 0x7c, 0x00]
  else
    match narrow? 5 10 x with
    | some half => 0xf9 :: bigEndian 2 half
    | none =>
      match narrow? 8 23 x with
      | some single => 0xfa :: bigEndian 4 single
      | none => 0xfb :: bigEndian 8 x.toBits.toNat

mutual

/-- The bytes of an item. -/
def encode : Cbor → List UInt8
  | .unsigned w n => head 0 w n
  | .negative n => shortHead 1 n
  | .bytes bs => shortHead 2 bs.length ++ bs
  | .text s =>
    let bs := s.toUTF8.toList
    shortHead 3 bs.length ++ bs
  | .array items => shortHead 4 items.length ++ encodeItems items
  | .map entries => shortHead 5 entries.length ++ encodeEntries entries
  | .bool b => if b then [0xf5] else [0xf4]
  | .null => [0xf6]
  | .float x => floatBytes x

/-- The bytes of the items of an array. -/
def encodeItems : List Cbor → List UInt8
  | [] => []
  | c :: rest => encode c ++ encodeItems rest

/-- The bytes of the entries of a map. -/
def encodeEntries : List (Cbor × Cbor) → List UInt8
  | [] => []
  | (k, c) :: rest => encode k ++ encode c ++ encodeEntries rest

end

end Cbor

namespace Value

mutual

/-- The item for a value. -/
def toCbor : Value → Cbor
  | .null => .null
  | .bool b => .bool b
  | .int i => .int i.toInt
  | .float x => .float x
  | .str s => .text s
  | .list items => .array (toCborItems items)
  | .map entries => .map (toCborEntries entries)

/-- The items for the items of a list. -/
def toCborItems : List Value → List Cbor
  | [] => []
  | v :: rest => toCbor v :: toCborItems rest

/-- The entries for the entries of a mapping. -/
def toCborEntries : List (String × Value) → List (Cbor × Cbor)
  | [] => []
  | (k, v) :: rest => (.text k, toCbor v) :: toCborEntries rest

end

end Value

end HaCluster
