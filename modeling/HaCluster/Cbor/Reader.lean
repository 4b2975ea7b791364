import HaCluster.Power
import HaCluster.Cbor.Item

/-!
# Reading binary items

`Cbor.read?` reads the bytes of one item. Besides the form that
`Cbor.encode` writes it takes integers and lengths wider than necessary,
indefinite lengths, tags, which it drops, and `undefined`, which it takes for
`null`. Containers and tags may be nested 127 deep, and nothing may follow
the item.
-/

namespace HaCluster.Cbor

/-- The number that bytes stand for, the most significant one first. -/
def ofBigEndian (bs : List UInt8) : Nat :=
  bs.foldl (fun n b => 256 * n + b.toNat) 0

/-- Takes so many bytes off the front. -/
def takeBytes (n : Nat) (bs : List UInt8) : Option (List UInt8 × List UInt8) :=
  if n ≤ bs.length then some (bs.take n, bs.drop n) else none

/-- The number in a head with the given low five bits, and its width. -/
def readNumber (low : Nat) (bs : List UInt8) :
    Option (Width × Nat × List UInt8) :=
  let wide := fun w n => (takeBytes n bs).map (fun (b, rest) => (w, ofBigEndian b, rest))
  if low < 24 then some (.one, low, bs)
  else if low = 24 then wide .one 1
  else if low = 25 then wide .two 2
  else if low = 26 then wide .four 4
  else if low = 27 then wide .eight 8
  else none

/-- The bits of a double that a format with fewer bits represents. -/
def widen (exponentBits fractionBits bits : Nat) : Nat :=
  let fraction := bits % twoTo fractionBits
  let scale := bits / twoTo fractionBits % twoTo exponentBits
  let sign := bits / twoTo (exponentBits + fractionBits) % 2
  let bias := twoTo (exponentBits - 1) - 1
  let magnitude :=
    if scale = twoTo exponentBits - 1 then 2047 * twoTo 52 + fraction * twoTo (52 - fractionBits)
    else if scale = 0 then
      if fraction = 0 then 0
      else
        let top := fraction.log2
        (1024 - bias - fractionBits + top) * twoTo 52
          + (fraction * twoTo (52 - top) - twoTo 52)
    else (1023 - bias + scale) * twoTo 52 + fraction * twoTo (52 - fractionBits)
  sign * twoTo 63 + magnitude

/-- The double with the given bits. -/
def ofBits (bits : Nat) : Float := Float.ofBits (UInt64.ofNat bits)

/-- The text that bytes encode. -/
def utf8? (bs : List UInt8) : Option String :=
  String.fromUTF8? ⟨bs.toArray⟩

/-- Reads the chunks of a byte or text string of indefinite length. -/
def readChunks (major : Nat) : Nat → List UInt8 → Option (List UInt8 × List UInt8)
  | 0, _ => none
  | _, [] => none
  | fuel + 1, b :: rest =>
    if b = 0xff then some ([], rest)
    else if b.toNat / 32 ≠ major then none
    else do
      let (_, n, rest) ← readNumber (b.toNat % 32) rest
      let (chunk, rest) ← takeBytes n rest
      let (chunks, rest) ← readChunks major fuel rest
      pure (chunk ++ chunks, rest)

mutual

/-- Reads one item. `depth` is how many containers and tags may still be
nested in one another. -/
def readItem : Nat → Nat → List UInt8 → Option (Cbor × List UInt8)
  | 0, _, _ => none
  | _, _, [] => none
  | fuel + 1, depth, b :: bs =>
    let low := b.toNat % 32
    match b.toNat / 32 with
    | 0 => (readNumber low bs).map (fun (w, n, rest) => (.unsigned w n, rest))
    | 1 => do
      let (_, n, rest) ← readNumber low bs
      if n < twoTo 63 then pure (.negative n, rest) else none
    | 2 => do
      let (content, rest) ←
        if low = 31 then readChunks 2 fuel bs
        else (readNumber low bs).bind (fun (_, n, rest) => takeBytes n rest)
      pure (.bytes content, rest)
    | 3 => do
      let (content, rest) ←
        if low = 31 then readChunks 3 fuel bs
        else (readNumber low bs).bind (fun (_, n, rest) => takeBytes n rest)
      let s ← utf8? content
      pure (.text s, rest)
    | 4 =>
      match depth with
      | 0 => none
      | depth + 1 => do
        let (count, rest) ←
          if low = 31 then some (none, bs)
          else (readNumber low bs).map (fun (_, n, rest) => (some n, rest))
        let (items, rest) ← readItems fuel depth count rest
        pure (.array items, rest)
    | 5 =>
      match depth with
      | 0 => none
      | depth + 1 => do
        let (count, rest) ←
          if low = 31 then some (none, bs)
          else (readNumber low bs).map (fun (_, n, rest) => (some n, rest))
        let (entries, rest) ← readEntries fuel depth count rest
        pure (.map entries, rest)
    | 6 =>
      match depth with
      | 0 => none
      | depth + 1 => do
        let (_, _, rest) ← readNumber low bs
        readItem fuel depth rest
    | _ =>
      if low = 20 then some (.bool false, bs)
      else if low = 21 then some (.bool true, bs)
      else if low = 22 ∨ low = 23 then some (.null, bs)
      else if low = 25 then
        (takeBytes 2 bs).map (fun (b, rest) => (.float (ofBits (widen 5 10 (ofBigEndian b))), rest))
      else if low = 26 then
        (takeBytes 4 bs).map (fun (b, rest) => (.float (ofBits (widen 8 23 (ofBigEndian b))), rest))
      else if low = 27 then
        (takeBytes 8 bs).map (fun (b, rest) => (.float (ofBits (ofBigEndian b)), rest))
      else none

/-- Reads the items of an array: so many, or up to the mark of the end. -/
def readItems : Nat → Nat → Option Nat → List UInt8 → Option (List Cbor × List UInt8)
  | 0, _, _, _ => none
  | _, _, some 0, bs => some ([], bs)
  | fuel + 1, depth, count, bs =>
    if count.isNone ∧ bs.head? = some 0xff then some ([], bs.tail)
    else do
      let (item, rest) ← readItem fuel depth bs
      let (items, rest) ← readItems fuel depth (count.map (· - 1)) rest
      pure (item :: items, rest)

/-- Reads the entries of a map: so many, or up to the mark of the end. -/
def readEntries : Nat → Nat → Option Nat → List UInt8 →
    Option (List (Cbor × Cbor) × List UInt8)
  | 0, _, _, _ => none
  | _, _, some 0, bs => some ([], bs)
  | fuel + 1, depth, count, bs =>
    if count.isNone ∧ bs.head? = some 0xff then some ([], bs.tail)
    else do
      let (key, rest) ← readItem fuel depth bs
      let (item, rest) ← readItem fuel depth rest
      let (entries, rest) ← readEntries fuel depth (count.map (· - 1)) rest
      pure ((key, item) :: entries, rest)

end

/-- How many containers and tags may be nested in one another. -/
def maxDepth : Nat := 127

/-- Reads bytes that are one item throughout. -/
def read? (bs : List UInt8) : Option Cbor :=
  match readItem (2 * bs.length + 2) maxDepth bs with
  | some (c, []) => some c
  | _ => none

/-- The text of an item. A byte string counts if it is the encoding of a
text. -/
def text? : Cbor → Option String
  | .text s => some s
  | .bytes bs => utf8? bs
  | _ => none

/-- The natural number of an item. -/
def nat? : Cbor → Option Nat
  | .unsigned _ n => some n
  | _ => none

/-- The floating-point number of an item; integers count as such. -/
def float? : Cbor → Option Float
  | .unsigned _ n => some (Float.ofNat n)
  | .negative n => some (Float.ofInt (-1 - n))
  | .float x => some x
  | _ => none

/-- The items of an array. -/
def array? : Cbor → Option (List Cbor)
  | .array items => some items
  | _ => none

mutual

/-- The value of the tree that an item stands for. -/
def value? : Cbor → Option Value
  | .null => some .null
  | .bool b => some (.bool b)
  | .unsigned _ n =>
    some (if n < twoTo 63 then .int (Int64.ofNat n) else .float (Float.ofNat n))
  | .negative n => some (.int (Int64.ofInt (-1 - n)))
  | .float x => some (.float x)
  | .text s => some (.str s)
  | .bytes bs => (utf8? bs).map .str
  | .array items => (values? items).map .list
  | .map entries => (entries? [] entries).map .map

/-- The values of the items of an array. -/
def values? : List Cbor → Option (List Value)
  | [] => some []
  | c :: rest => do
    let v ← value? c
    let vs ← values? rest
    pure (v :: vs)

/-- Adds the entries of a map one by one to a mapping of the tree, whose keys
are texts. -/
def entries? (acc : List (String × Value)) :
    List (Cbor × Cbor) → Option (List (String × Value))
  | [] => some acc
  | (k, c) :: rest => do
    let key ← text? k
    let v ← value? c
    entries? (Entries.insert acc key v) rest

end

end HaCluster.Cbor
