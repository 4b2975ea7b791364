import HaCluster.Toml.Document
import HaCluster.Toml.Number
import HaCluster.Toml.Text

/-!
# Reading configuration files

`Toml.read?` reads a whole file. There is one way to be wrong: a file that
breaks any rule is no file, and no reason is kept.
-/

namespace HaCluster.Toml

/-- Drops a comment up to the end of its line. -/
def skipComment (cs : List Char) : List Char := cs.dropWhile isPlain

/-- Drops blanks, line ends and comments. -/
def skipSpace : Nat → List Char → List Char
  | 0, cs => cs
  | fuel + 1, cs =>
    match skipBlanks cs with
    | '\n' :: rest => skipSpace fuel rest
    | '\r' :: '\n' :: rest => skipSpace fuel rest
    | '#' :: rest =>
      match skipComment rest with
      | '\n' :: rest => skipSpace fuel rest
      | '\r' :: '\n' :: rest => skipSpace fuel rest
      | rest => '#' :: rest
    | rest => rest

mutual

/-- Reads a value off the front of a text. `depth` is how deep arrays and
inline tables may still be nested. -/
def readValue : Nat → Nat → List Char → Option (Toml × List Char)
  | 0, _, _ => none
  | fuel + 1, depth, cs =>
    match cs with
    | '"' :: _ => (readString cs).map (fun (s, rest) => (.string s, rest))
    | '\'' :: _ => (readString cs).map (fun (s, rest) => (.string s, rest))
    | 't' :: 'r' :: 'u' :: 'e' :: rest => some (.bool true, rest)
    | 'f' :: 'a' :: 'l' :: 's' :: 'e' :: rest => some (.bool false, rest)
    | '[' :: rest =>
      match depth with
      | 0 => none
      | depth + 1 =>
        (readItems fuel depth rest).map (fun (items, rest) => (.array items, rest))
    | '{' :: rest =>
      match depth with
      | 0 => none
      | depth + 1 =>
        match skipBlanks rest with
        | '}' :: rest => some (.table .inline [], rest)
        | rest =>
          (readEntries fuel depth rest []).map (fun (t, rest) => (.table .inline t, rest))
    | cs =>
      match readMoment cs with
      | some rest => some (.moment, rest)
      | none =>
        (readNumber cs).map (fun (n, rest) =>
          (match n with
            | .integer n => .integer n
            | .real x => .real x, rest))

/-- Reads the items of an array and its closing bracket. -/
def readItems : Nat → Nat → List Char → Option (List Toml × List Char)
  | 0, _, _ => none
  | fuel + 1, depth, cs =>
    match skipSpace (cs.length + 1) cs with
    | ']' :: rest => some ([], rest)
    | cs => do
      let (item, rest) ← readValue fuel depth cs
      match skipSpace (rest.length + 1) rest with
      | ',' :: rest =>
        let (items, rest) ← readItems fuel depth rest
        pure (item :: items, rest)
      | ']' :: rest => pure ([item], rest)
      | _ => none

/-- Reads the entries of an inline table and its closing brace; `t` holds
those that came before. -/
def readEntries : Nat → Nat → List Char → Table → Option (Table × List Char)
  | 0, _, _, _ => none
  | fuel + 1, depth, cs, t => do
    let (key, rest) ← readKey maxDepth cs
    let rest ← expect '=' rest
    let (v, rest) ← readValue fuel depth (skipBlanks rest)
    let t ← addDotted key v t
    match skipBlanks rest with
    | ',' :: rest => readEntries fuel depth rest t
    | '}' :: rest => pure (t, rest)
    | _ => none

end

/-- Reads the end of a line: what follows it. -/
def readLineEnd (cs : List Char) : Option (List Char) :=
  let rest := match skipBlanks cs with
    | '#' :: rest => skipComment rest
    | rest => rest
  match rest with
  | [] => some []
  | '\n' :: rest => some rest
  | '\r' :: '\n' :: rest => some rest
  | _ => none

/-- Reads the lines of a file into a table; `header` is the last header. -/
def readLines : Nat → List String → Table → List Char → Option Table
  | 0, _, _, _ => none
  | fuel + 1, header, t, cs =>
    match skipBlanks cs with
    | [] => some t
    | '#' :: rest => do readLines fuel header t (← readLineEnd ('#' :: rest))
    | '\n' :: rest => readLines fuel header t rest
    | '\r' :: '\n' :: rest => readLines fuel header t rest
    | '[' :: '[' :: rest => do
      let (key, rest) ← readKey maxDepth rest
      let rest ← expect ']' (← expect ']' rest)
      readLines fuel key (← openNext key t) (← readLineEnd rest)
    | '[' :: rest => do
      let (key, rest) ← readKey maxDepth rest
      let rest ← expect ']' rest
      readLines fuel key (← openTable key t) (← readLineEnd rest)
    | cs => do
      let (key, rest) ← readKey maxDepth cs
      let rest ← expect '=' rest
      let (v, rest) ← readValue (2 * rest.length + 2) (maxDepth - 1) (skipBlanks rest)
      readLines fuel header (← addUnder header key v t) (← readLineEnd rest)

/-- The table that a file is. -/
def read? (s : String) : Option Table :=
  let cs := match s.toList with
    | c :: rest => if c.toNat = 0xfeff then rest else c :: rest
    | [] => []
  readLines (cs.length + 1) [] [] cs

end HaCluster.Toml
