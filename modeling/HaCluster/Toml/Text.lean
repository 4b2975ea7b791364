/-!
# Texts and keys of configuration files

The strings of a TOML file: quoted on one line or over several, with escapes
or literally. Each reader takes the characters after the opening mark and
gives back the content and what follows the closing mark.
-/

namespace HaCluster.Toml

/-- Whether a character is a space or a tab. -/
def isBlank (c : Char) : Bool := c = ' ' || c = '\t'

/-- Whether a character may stand in a comment or a literal string. -/
def isPlain (c : Char) : Bool :=
  c = '\t' || (0x20 ≤ c.toNat && c.toNat ≠ 0x7f)

/-- Drops the blanks at the front of a text. -/
def skipBlanks (cs : List Char) : List Char := cs.dropWhile isBlank

/-- The value of a hexadecimal digit. -/
def hexDigit? (c : Char) : Option Nat :=
  if c.isDigit then some (c.toNat - '0'.toNat)
  else if 'a' ≤ c ∧ c ≤ 'f' then some (c.toNat - 'a'.toNat + 10)
  else if 'A' ≤ c ∧ c ≤ 'F' then some (c.toNat - 'A'.toNat + 10)
  else none

/-- The character with the code that hexadecimal digits write. -/
def codePoint? (digits : List Char) : Option Char := do
  let n ← digits.foldlM (fun n c => (hexDigit? c).map (16 * n + ·)) 0
  if n < 0xd800 ∨ (0xe000 ≤ n ∧ n < 0x110000) then some (Char.ofNat n) else none

/-- The character that a one-letter escape stands for. -/
def escaped? (c : Char) : Option Char :=
  if c = '"' ∨ c = '\\' then some c
  else if c = 'b' then some (Char.ofNat 8)
  else if c = 'f' then some (Char.ofNat 12)
  else if c = 'n' then some '\n'
  else if c = 'r' then some '\r'
  else if c = 't' then some '\t'
  else none

/-- Puts a character in front of a string that was read. -/
def push (c : Char) : Option (List Char × List Char) → Option (List Char × List Char) :=
  Option.map (fun (s, rest) => (c :: s, rest))

/-- Reads a string with escapes that ends on its line. -/
def readBasic : List Char → Option (List Char × List Char)
  | [] => none
  | '"' :: rest => some ([], rest)
  | '\\' :: 'u' :: a :: b :: c :: d :: rest =>
    (codePoint? [a, b, c, d]).bind (fun x => push x (readBasic rest))
  | '\\' :: 'U' :: a :: b :: c :: d :: e :: f :: g :: h :: rest =>
    (codePoint? [a, b, c, d, e, f, g, h]).bind (fun x => push x (readBasic rest))
  | '\\' :: c :: rest => (escaped? c).bind (fun x => push x (readBasic rest))
  | c :: rest => if isPlain c ∧ c ≠ '\\' then push c (readBasic rest) else none

/-- Reads a literal string that ends on its line. -/
def readLiteral : List Char → Option (List Char × List Char)
  | [] => none
  | '\'' :: rest => some ([], rest)
  | c :: rest => if isPlain c then push c (readLiteral rest) else none

/-- Reads a string with escapes that may run over several lines. After a
backslash at the end of a line, blanks and line ends are skipped; `skipping`
says that this is going on. Up to two quotes may stand before the closing
three. -/
def readLongBasic (skipping : Bool) : List Char → Option (List Char × List Char)
  | [] => none
  | '"' :: '"' :: '"' :: '"' :: '"' :: rest =>
    if rest.head? = some '"' then none else some (['"', '"'], rest)
  | '"' :: '"' :: '"' :: '"' :: rest => some (['"'], rest)
  | '"' :: '"' :: '"' :: rest => some ([], rest)
  | '\\' :: 'u' :: a :: b :: c :: d :: rest =>
    (codePoint? [a, b, c, d]).bind (fun x => push x (readLongBasic false rest))
  | '\\' :: 'U' :: a :: b :: c :: d :: e :: f :: g :: h :: rest =>
    (codePoint? [a, b, c, d, e, f, g, h]).bind (fun x => push x (readLongBasic false rest))
  | '\\' :: c :: rest =>
    match escaped? c with
    | some x => push x (readLongBasic false rest)
    | none =>
      match skipBlanks (c :: rest) with
      | '\n' :: _ => readLongBasic true (c :: rest)
      | '\r' :: '\n' :: _ => readLongBasic true (c :: rest)
      | _ => none
  | '\r' :: '\n' :: rest =>
    if skipping then readLongBasic true rest else push '\n' (readLongBasic false rest)
  | c :: rest =>
    if skipping ∧ (isBlank c ∨ c = '\n') then readLongBasic true rest
    else if (isPlain c ∧ c ≠ '\\') ∨ c = '\n' then push c (readLongBasic false rest)
    else none

/-- Reads a literal string that may run over several lines. -/
def readLongLiteral : List Char → Option (List Char × List Char)
  | [] => none
  | '\'' :: '\'' :: '\'' :: '\'' :: '\'' :: rest =>
    if rest.head? = some '\'' then none else some (['\'', '\''], rest)
  | '\'' :: '\'' :: '\'' :: '\'' :: rest => some (['\''], rest)
  | '\'' :: '\'' :: '\'' :: rest => some ([], rest)
  | '\r' :: '\n' :: rest => push '\n' (readLongLiteral rest)
  | c :: rest => if isPlain c ∨ c = '\n' then push c (readLongLiteral rest) else none

/-- Drops a line end directly after the opening mark. -/
def skipFirstLineEnd : List Char → List Char
  | '\n' :: rest => rest
  | '\r' :: '\n' :: rest => rest
  | cs => cs

/-- Reads a string of any form off the front of a text. -/
def readString : List Char → Option (String × List Char)
  | '"' :: '"' :: '"' :: rest =>
    (readLongBasic false (skipFirstLineEnd rest)).map (fun (s, r) => (String.ofList s, r))
  | '\'' :: '\'' :: '\'' :: rest =>
    (readLongLiteral (skipFirstLineEnd rest)).map (fun (s, r) => (String.ofList s, r))
  | '"' :: rest => (readBasic rest).map (fun (s, r) => (String.ofList s, r))
  | '\'' :: rest => (readLiteral rest).map (fun (s, r) => (String.ofList s, r))
  | _ => none

/-- Whether a character may stand in a bare key. -/
def isBare (c : Char) : Bool :=
  c.isAlphanum || c = '_' || c = '-'

/-- Reads one part of a key. -/
def readKeyPart (cs : List Char) : Option (String × List Char) :=
  match cs with
  | '"' :: rest => (readBasic rest).map (fun (s, r) => (String.ofList s, r))
  | '\'' :: rest => (readLiteral rest).map (fun (s, r) => (String.ofList s, r))
  | cs =>
    match cs.takeWhile isBare with
    | [] => none
    | s => some (String.ofList s, cs.dropWhile isBare)

/-- How deep keys and values may be nested. -/
def maxDepth : Nat := 80

/-- Reads a key: its parts, separated by dots. -/
def readKey : Nat → List Char → Option (List String × List Char)
  | 0, _ => none
  | fuel + 1, cs => do
    let (part, rest) ← readKeyPart (skipBlanks cs)
    match skipBlanks rest with
    | '.' :: rest =>
      let (parts, rest) ← readKey fuel rest
      pure (part :: parts, rest)
    | rest => pure ([part], rest)

end HaCluster.Toml
