import HaCluster.Power

/-!
# Hashing names

A keyed order of nodes has to look random and still be the same on every
node, so it is taken from a 64-bit hash of the bytes of two texts. The hash
folds products of 128 bits: the two halves of a product are combined by
exclusive or.
-/

namespace HaCluster.Placement

/-- The exclusive or of the two halves of a product. -/
def mum (a b : UInt64) : UInt64 :=
  let p := a.toNat * b.toNat
  UInt64.ofNat (p / twoTo 64) ^^^ UInt64.ofNat p

/-- The constants that the words of a text are combined with. -/
def p0 : UInt64 := 0xa0761d6478bd642f
@[inherit_doc p0] def p1 : UInt64 := 0xe7037ed1a0b428db
@[inherit_doc p0] def p2 : UInt64 := 0x8ebc6af09c88c6e3
@[inherit_doc p0] def p3 : UInt64 := 0x589965cc75374cc3
@[inherit_doc p0] def p4 : UInt64 := 0x1d8e4e27c47d124f
@[inherit_doc p0] def p5 : UInt64 := 0xeb44accab455d165

/-- The number that bytes stand for, the least significant one first. -/
def littleEndian : List UInt8 → UInt64
  | [] => 0
  | b :: rest => b.toUInt64 ||| (littleEndian rest <<< 8)

/-- The word of the first `n` bytes. -/
def word (n : Nat) (bs : List UInt8) : UInt64 := littleEndian (bs.take n)

/-- Eight bytes as two halves of four, the first half above the second. -/
def halves (bs : List UInt8) : UInt64 :=
  (word 4 bs <<< 32) ||| word 4 (bs.drop 4)

/-- The word of the last bytes of a text, one to eight of them. -/
def rest (bs : List UInt8) : UInt64 :=
  let byte := fun i => ((bs[i]?).getD 0).toUInt64
  match bs.length with
  | 1 => byte 0
  | 2 => (byte 1 <<< 8) ||| byte 0
  | 3 => (byte 1 <<< 16) ||| (byte 0 <<< 8) ||| byte 2
  | 4 => word 4 bs
  | 5 => (word 4 bs <<< 8) ||| byte 4
  | 6 => (word 4 bs <<< 16) ||| (byte 5 <<< 8) ||| byte 4
  | 7 => (word 4 bs <<< 24) ||| (byte 5 <<< 16) ||| (byte 4 <<< 8) ||| byte 6
  | _ => halves bs

/-- Folds the full blocks of 32 bytes into a state: the state, and the bytes
that are left. -/
def blocks : Nat → List UInt8 → UInt64 → UInt64 × List UInt8
  | 0, bs, s => (s, bs)
  | n + 1, bs, s =>
    let at' := fun i => word 8 (bs.drop i)
    let s := mum (s ^^^ p0)
      (mum (at' 0 ^^^ p1) (at' 8 ^^^ p2) ^^^ mum (at' 16 ^^^ p3) (at' 24 ^^^ p4))
    blocks n (bs.drop 32) s

/-- Folds fewer than 32 bytes into a state. -/
def tail (bs : List UInt8) (s : UInt64) : UInt64 :=
  if bs.isEmpty then s
  else
    match (bs.length - 1) / 8 with
    | 0 => mum s (rest bs ^^^ p1)
    | 1 => mum (halves bs ^^^ s) (rest (bs.drop 8) ^^^ p2)
    | 2 => mum (halves bs ^^^ s) (halves (bs.drop 8) ^^^ p2)
        ^^^ mum s (rest (bs.drop 16) ^^^ p3)
    | _ => mum (halves bs ^^^ s) (halves (bs.drop 8) ^^^ p2)
        ^^^ mum (halves (bs.drop 16) ^^^ s) (rest (bs.drop 24) ^^^ p4)

/-- Folds bytes into a state. -/
def absorb (s : UInt64) (bs : List UInt8) : UInt64 :=
  if bs.isEmpty then s ^^^ p0
  else
    let (s, left) := blocks (bs.length / 32) bs s
    tail left (s ^^^ p0)

/-- The hash of a sequence of byte strings. -/
def hashAll (parts : List (List UInt8)) : UInt64 :=
  let size := parts.foldl (fun n p => n + p.length) 0
  mum (parts.foldl absorb 0) (UInt64.ofNat size ^^^ p5)

/-- The hash of a pair of texts. A byte that no text contains ends each of
them. -/
def hashPair (a b : String) : UInt64 :=
  hashAll [a.toUTF8.toList, [0xff], b.toUTF8.toList, [0xff]]

end HaCluster.Placement
