import HaCluster.Json.Number

/-!
# Reading documents

`Json.read` reads a document off the front of a text. The reader never fails:
where the text stops being JSON it leaves `Json.cut` and reads no further, so
everything before that place is in the document.

Containers may be nested 127 deep; one that lies deeper is well-formed but
`unreadable`.
-/

namespace HaCluster.Json

/-- A character of a quoted text: itself, or one code unit of UTF-16. -/
inductive Piece where
  | char (c : Char)
  | unit (n : Nat)
  deriving DecidableEq, Inhabited

/-- The value of a hexadecimal digit. -/
def hexValue? (c : Char) : Option Nat :=
  if c.isDigit then some (c.toNat - '0'.toNat)
  else if 'a' ≤ c ∧ c ≤ 'f' then some (c.toNat - 'a'.toNat + 10)
  else if 'A' ≤ c ∧ c ≤ 'F' then some (c.toNat - 'A'.toNat + 10)
  else none

/-- The value of four hexadecimal digits. -/
def hex4? (a b c d : Char) : Option Nat := do
  let a ← hexValue? a
  let b ← hexValue? b
  let c ← hexValue? c
  let d ← hexValue? d
  pure (((a * 16 + b) * 16 + c) * 16 + d)

/-- The character that a one-letter escape stands for. -/
def escaped? (c : Char) : Option Char :=
  if c = '"' ∨ c = '\\' ∨ c = '/' then some c
  else if c = 'b' then some (Char.ofNat 8)
  else if c = 'f' then some (Char.ofNat 12)
  else if c = 'n' then some '\n'
  else if c = 'r' then some '\r'
  else if c = 't' then some '\t'
  else none

/-- Reads what follows an opening quote, up to the closing one. -/
def readPieces : List Char → Option (List Piece × List Char)
  | [] => none
  | '"' :: rest => some ([], rest)
  | '\\' :: 'u' :: a :: b :: c :: d :: rest =>
    match hex4? a b c d with
    | some n => (readPieces rest).map (fun (ps, r) => (.unit n :: ps, r))
    | none => none
  | '\\' :: c :: rest =>
    match escaped? c with
    | some c => (readPieces rest).map (fun (ps, r) => (.char c :: ps, r))
    | none => none
  | c :: rest =>
    if c.toNat < 32 ∨ c = '\\' then none
    else (readPieces rest).map (fun (ps, r) => (.char c :: ps, r))

/-- Joins the pieces of a text. The two halves of a surrogate pair make one
character, and a half that stands alone makes none. -/
def joinPieces : List Piece → Option (List Char)
  | [] => some []
  | .char c :: rest => (joinPieces rest).map (c :: ·)
  | .unit hi :: .unit lo :: rest =>
    if 0xD800 ≤ hi ∧ hi < 0xDC00 then
      if 0xDC00 ≤ lo ∧ lo < 0xE000 then
        (joinPieces rest).map
          (Char.ofNat (0x10000 + (hi - 0xD800) * 0x400 + (lo - 0xDC00)) :: ·)
      else none
    else if 0xDC00 ≤ hi ∧ hi < 0xE000 then none
    else (joinPieces (.unit lo :: rest)).map (Char.ofNat hi :: ·)
  | .unit n :: rest =>
    if 0xD800 ≤ n ∧ n < 0xE000 then none
    else (joinPieces rest).map (Char.ofNat n :: ·)

/-- Whether a character may stand between tokens. -/
def isBlank (c : Char) : Bool :=
  c = ' ' || c = '\n' || c = '\t' || c = '\r'

/-- Drops the blanks at the front of a text. -/
def skipBlanks (cs : List Char) : List Char :=
  cs.dropWhile isBlank

/-- How many containers may be nested in one another. -/
def maxDepth : Nat := 127

/-- A member of an object. One whose name is no text is unreadable under the
empty name. -/
def member (name : List Piece) (item : Json) : String × Json :=
  match joinPieces name with
  | some s => (String.ofList s, item)
  | none => ("", if item.isUncut then .unreadable else .cut)

/-- A container that lies at a depth. -/
def container (depth : Nat) (j : Json) (rest : Option (List Char)) :
    Json × Option (List Char) :=
  if depth < maxDepth then (j, rest)
  else if rest.isSome then (.unreadable, rest)
  else (.cut, none)

mutual

/-- Reads a document off the front of a text: the document, and what follows
it unless the text was cut. -/
def readValue : Nat → Nat → List Char → Json × Option (List Char)
  | 0, _, _ => (.cut, none)
  | fuel + 1, depth, cs =>
    match skipBlanks cs with
    | 'n' :: 'u' :: 'l' :: 'l' :: rest => (.null, some rest)
    | 't' :: 'r' :: 'u' :: 'e' :: rest => (.bool true, some rest)
    | 'f' :: 'a' :: 'l' :: 's' :: 'e' :: rest => (.bool false, some rest)
    | '"' :: rest =>
      match readPieces rest with
      | none => (.cut, none)
      | some (ps, rest) =>
        match joinPieces ps with
        | some s => (.string (String.ofList s), some rest)
        | none => (.unreadable, some rest)
    | '[' :: rest =>
      match skipBlanks rest with
      | ']' :: rest => container depth (.array []) (some rest)
      | rest =>
        let (items, rest) := readItems fuel (depth + 1) rest
        container depth (.array items) rest
    | '{' :: rest =>
      match skipBlanks rest with
      | '}' :: rest => container depth (.object []) (some rest)
      | rest =>
        let (members, rest) := readMembers fuel (depth + 1) rest
        container depth (.object members) rest
    | cs =>
      match readNumeral cs with
      | none => (.cut, none)
      | some (n, rest) =>
        match n.value? with
        | some x => (.number x, some rest)
        | none => (.unreadable, some rest)

/-- Reads the items of an array that has at least one. -/
def readItems : Nat → Nat → List Char → List Json × Option (List Char)
  | 0, _, _ => ([.cut], none)
  | fuel + 1, depth, cs =>
    match readValue fuel depth cs with
    | (item, none) => ([item], none)
    | (item, some rest) =>
      match skipBlanks rest with
      | ']' :: rest => ([item], some rest)
      | ',' :: rest =>
        let (items, rest) := readItems fuel depth rest
        (item :: items, rest)
      | _ => ([item, .cut], none)

/-- Reads the members of an object that has at least one. -/
def readMembers : Nat → Nat → List Char → List (String × Json) × Option (List Char)
  | 0, _, _ => ([("", .cut)], none)
  | fuel + 1, depth, cs =>
    match skipBlanks cs with
    | '"' :: rest =>
      match readPieces rest with
      | none => ([("", .cut)], none)
      | some (ps, rest) =>
        match skipBlanks rest with
        | ':' :: rest =>
          match readValue fuel depth rest with
          | (item, none) => ([member ps item], none)
          | (item, some rest) =>
            match skipBlanks rest with
            | '}' :: rest => ([member ps item], some rest)
            | ',' :: rest =>
              let (members, rest) := readMembers fuel depth rest
              (member ps item :: members, rest)
            | _ => ([member ps item, ("", .cut)], none)
        | _ => ([member ps .cut], none)
    | _ => ([("", .cut)], none)

end

/-- Reads a text: the document, and whether nothing but blanks follows it. -/
def read (s : String) : Json × Bool :=
  let cs := s.toList
  match readValue (2 * cs.length + 2) 0 cs with
  | (j, some rest) => (j, (skipBlanks rest).isEmpty)
  | (j, none) => (j, false)

/-- The document that a text is, if it is a document throughout. -/
def read? (s : String) : Option Json :=
  let (j, complete) := read s
  if complete ∧ j.isWhole then some j else none

end HaCluster.Json
