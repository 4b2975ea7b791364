import HaCluster.Tree.Entries

/-!
# Scripts of action commands

Action commands are mostly small scripts: they note the words that they were
called with, do their work and end with a code. This is the part of the
command language that such scripts use: words with quotes and parameters,
output that is captured or written to files, lists of commands, and the few
commands that a script needs by itself. A command that is not known has
status 127, as one that cannot be found.
-/

namespace HaCluster.Launch

/-! ## Words -/

/-- A piece of a word. -/
inductive Piece where
  | text (s : List Char)
  /-- A parameter; between double quotes it is not split. -/
  | param (name : List Char) (quoted : Bool)
  /-- The output of commands; between double quotes it is not split. -/
  | output (source : List Char) (quoted : Bool)
  deriving DecidableEq, Inhabited

/-- What a script is made of. -/
inductive Token where
  | word (pieces : List Piece)
  /-- The end of a command. -/
  | next
  /-- The following command runs if this one succeeds. -/
  | andThen
  /-- The following command runs if this one fails. -/
  | orElse
  /-- Output goes to the file named by the following word. -/
  | write
  /-- Output goes to the end of the file named by the following word. -/
  | append
  deriving DecidableEq, Inhabited

/-- Whether a character may stand in the name of a parameter. -/
def isNameChar (c : Char) : Bool := c.isAlphanum || c = '_'

/-- Characters up to the parenthesis that closes, and what follows it. -/
def untilClosed : Nat → List Char → List Char × List Char
  | _, [] => ([], [])
  | 0, ')' :: rest => ([], rest)
  | depth + 1, ')' :: rest => let (a, b) := untilClosed depth rest; (')' :: a, b)
  | depth, '(' :: rest => let (a, b) := untilClosed (depth + 1) rest; ('(' :: a, b)
  | depth, c :: rest => let (a, b) := untilClosed depth rest; (c :: a, b)

/-- What follows a dollar sign: the piece and the rest. -/
def readDollar (quoted : Bool) : List Char → Piece × List Char
  | '(' :: rest => let (source, rest) := untilClosed 0 rest; (.output source quoted, rest)
  | '\x7b' :: rest => (.param (rest.takeWhile (· ≠ '\x7d')) quoted,
      (rest.dropWhile (· ≠ '\x7d')).drop 1)
  | c :: rest =>
    if c.isDigit || ['@', '*', '#', '$', '?'].contains c then (.param [c] quoted, rest)
    else if isNameChar c then
      (.param (c :: rest.takeWhile isNameChar) quoted, rest.dropWhile isNameChar)
    else (.text ['$'], c :: rest)
  | [] => (.text ['$'], [])

/-- The pieces up to a closing double quote, and what follows it. -/
def readQuoted : Nat → List Char → List Piece × List Char
  | 0, cs => ([], cs)
  | _ + 1, [] => ([], [])
  | _ + 1, '"' :: rest => ([], rest)
  | n + 1, '\\' :: c :: rest =>
    let (ps, rest) := readQuoted n rest
    (.text (if ['"', '\\', '$'].contains c then [c] else ['\\', c]) :: ps, rest)
  | n + 1, '$' :: rest =>
    let (p, rest) := readDollar true rest
    let (ps, rest) := readQuoted n rest
    (p :: ps, rest)
  | n + 1, c :: rest =>
    let (ps, rest) := readQuoted n rest
    (.text [c] :: ps, rest)

/-- The pieces of a word, and what follows it. -/
def readWord : Nat → List Char → List Piece × List Char
  | 0, cs => ([], cs)
  | _ + 1, [] => ([], [])
  | n + 1, c :: rest =>
    if [' ', '\t', '\n', ';', '&', '|', '>'].contains c then ([], c :: rest)
    else
      let (here, rest) : List Piece × List Char :=
        match c, rest with
        | '\'', rest =>
          ([.text (rest.takeWhile (· ≠ '\''))], (rest.dropWhile (· ≠ '\'')).drop 1)
        | '"', rest => let (ps, rest) := readQuoted rest.length rest; (.text [] :: ps, rest)
        | '\\', d :: rest => ([.text [d]], rest)
        | '$', rest => let (p, rest) := readDollar false rest; ([p], rest)
        | c, rest => ([.text [c]], rest)
      let (ps, rest) := readWord n rest
      (here ++ ps, rest)

/-- The tokens of a script. -/
def tokens : Nat → List Char → List Token
  | 0, _ => []
  | _ + 1, [] => []
  | n + 1, '\n' :: rest => .next :: tokens n rest
  | n + 1, ';' :: rest => .next :: tokens n rest
  | n + 1, ' ' :: rest => tokens n rest
  | n + 1, '\t' :: rest => tokens n rest
  | n + 1, '#' :: rest => tokens n (rest.dropWhile (· ≠ '\n'))
  | n + 1, '&' :: '&' :: rest => .andThen :: tokens n rest
  | n + 1, '&' :: rest => .next :: tokens n rest
  | n + 1, '|' :: '|' :: rest => .orElse :: tokens n rest
  | n + 1, '|' :: rest => .next :: tokens n rest
  | n + 1, '>' :: '>' :: rest => .append :: tokens n rest
  | n + 1, '>' :: rest => .write :: tokens n rest
  | n + 1, cs =>
    let (ps, rest) := readWord cs.length cs
    .word ps :: tokens n rest

/-- Whether a command runs, given the status of the one before. -/
inductive Link where
  | always
  | ifSuccess
  | ifFailure
  deriving DecidableEq, Inhabited

/-- A command with its words and the files that its output goes to. -/
structure Command where
  link : Link
  words : List (List Piece)
  /-- The file for the output, and whether what it holds is kept. -/
  target : Option (List Piece × Bool)
  deriving Inhabited

/-- The commands of a script. -/
def commands : List Token → Command → List Command
  | [], c => [c]
  | .word w :: rest, c => commands rest { c with words := c.words ++ [w] }
  | .write :: .word w :: rest, c => commands rest { c with target := some (w, false) }
  | .append :: .word w :: rest, c => commands rest { c with target := some (w, true) }
  | .write :: rest, c => commands rest c
  | .append :: rest, c => commands rest c
  | .next :: rest, c => c :: commands rest ⟨.always, [], none⟩
  | .andThen :: rest, c => c :: commands rest ⟨.ifSuccess, [], none⟩
  | .orElse :: rest, c => c :: commands rest ⟨.ifFailure, [], none⟩

/-- The commands of the text of a script. -/
def parse (source : List Char) : List Command :=
  (commands (tokens source.length source) ⟨.always, [], none⟩).filter
    (fun c => !c.words.isEmpty || c.target.isSome)

/-! ## Running a script -/

/-- How a process ended. -/
inductive Ending where
  | exited (code : Nat)
  /-- A signal ended it. -/
  | killed
  deriving DecidableEq, Inhabited

/-- A script that runs. -/
structure Shell where
  /-- The name that the script was called by. -/
  self : String
  /-- The words that it was called with. -/
  params : List String
  vars : Entries String
  /-- The directory that names of files start from. -/
  dir : String
  files : Entries String
  /-- The status of the last command. -/
  status : Nat
  /-- How the script ended, once it has. -/
  ending : Option Ending
  deriving Inhabited

namespace Shell

/-- The number of the process of a script, as its commands know it. -/
def pid : String := "4242"

/-- A shell after a command with a status. -/
def having (s : Shell) (status : Nat) : Shell := { s with status := status }

/-- A shell that has ended. -/
def ended (s : Shell) (e : Ending) : Shell := { s with ending := some e }

/-- The full name of a file. -/
def fullName (s : Shell) (name : String) : String :=
  if name.startsWith "/" then name else s.dir ++ "/" ++ name

/-- The value of a parameter. -/
def param (s : Shell) (name : String) : String :=
  if name = "0" then s.self
  else if name = "#" then toString s.params.length
  else if name = "$" then pid
  else if name = "?" then toString s.status
  else if name = "*" || name = "@" then " ".intercalate s.params
  else
    match name.toNat? with
    | some n => (s.params[n - 1]?).getD ""
    | none => (Entries.get? s.vars name).getD ""

/-- The directory part of a name. -/
def dirName (name : String) : String :=
  match (name.toList.reverse.dropWhile (· ≠ '/')).drop 1 with
  | [] => if name.startsWith "/" then "/" else "."
  | rest => String.ofList rest.reverse

/-- The last part of a name. -/
def baseName (name : String) : String :=
  String.ofList (name.toList.reverse.takeWhile (· ≠ '/')).reverse

/-- One use of a format: the text, and the arguments that are left. -/
def formatOnce : List Char → List String → List Char × List String
  | [], args => ([], args)
  | '%' :: '%' :: rest, args => let (t, args) := formatOnce rest args; ('%' :: t, args)
  | '%' :: _ :: rest, args =>
    let (t, left) := formatOnce rest args.tail
    ((args.headD "").toList ++ t, left)
  | '\\' :: 'n' :: rest, args => let (t, args) := formatOnce rest args; ('\n' :: t, args)
  | '\\' :: 't' :: rest, args => let (t, args) := formatOnce rest args; ('\t' :: t, args)
  | '\\' :: '\\' :: rest, args => let (t, args) := formatOnce rest args; ('\\' :: t, args)
  | c :: rest, args => let (t, args) := formatOnce rest args; (c :: t, args)

/-- A format used as often as there are arguments for it. -/
def format (fmt : List Char) : Nat → List String → List Char
  | 0, _ => []
  | n + 1, args =>
    let (t, left) := formatOnce fmt args
    if left.isEmpty || left.length = args.length then t else t ++ format fmt n left

/-- Whether a condition holds. -/
def holds : List String → Bool
  | ["-n", x] => !x.isEmpty
  | ["-z", x] => x.isEmpty
  | [x] => !x.isEmpty
  | [a, "=", b] => a = b
  | [a, "!=", b] => a ≠ b
  | _ => false

/-- Ends a script with a code that is written as text. -/
def exitWith (s : Shell) (code : String) : Shell :=
  match code.toNat? with
  | some n => s.ended (.exited (n % 256))
  | none => s.ended (.exited 2)

/-- Whether signalling commands name the script itself as their target. -/
def signalsSelf (args : List String) : Bool :=
  args.any (fun a => a = pid || a = "0" || a = "-" ++ pid) && args.head? ≠ some "-0"

/-- Runs a command that needs no other: its output, and the shell after it. -/
def simple (s : Shell) : List String → String × Shell
  | ["exit"] => ("", s.ended (.exited s.status))
  | "exit" :: code :: _ => ("", s.exitWith code)
  | "kill" :: args => ("", if signalsSelf args then s.ended .killed else s.having 0)
  | "printf" :: fmt :: args =>
    (String.ofList (format fmt.toList (args.length + 1) args), s.having 0)
  | "echo" :: "-n" :: args => (" ".intercalate args, s.having 0)
  | "echo" :: args => (" ".intercalate args ++ "\n", s.having 0)
  | ["dirname", name] => (dirName name ++ "\n", s.having 0)
  | ["basename", name] => (baseName name ++ "\n", s.having 0)
  | ["cd", dir] => ("", { s with dir := s.fullName dir }.having 0)
  | "shift" :: _ => ("", { s with params := s.params.tail }.having 0)
  | "test" :: args => ("", s.having (if holds args then 0 else 1))
  | "[" :: args => ("", s.having (if holds args.dropLast then 0 else 1))
  | "false" :: _ => ("", s.having 1)
  | name :: _ =>
    if ["true", ":", "sleep", "set", "trap", "umask", "export", "wait"].contains name then
      ("", s.having 0)
    else if name.toList.contains '=' then
      let key := name.toList.takeWhile (· ≠ '=')
      let value := name.toList.drop (key.length + 1)
      ("", { s with
        vars := Entries.insert s.vars (String.ofList key) (String.ofList value) }.having 0)
    else ("", s.having 127)
  | [] => ("", s.having 0)

/-- Runs a command; one that replaces the script ends it as well. -/
def execute (s : Shell) : List String → String × Shell
  | ["exec"] => ("", s.having 0)
  | "exec" :: args =>
    let (out, s) := s.simple args
    (out, match s.ending with
      | some _ => s
      | none => s.ended (.exited s.status))
  | args => s.simple args

/-- The words that blanks separate. -/
def splitBlanks (cs : List Char) : List (List Char) :=
  (cs.splitOn ' ').flatMap (fun w => w.splitOn '\n') |>.filter (fun w => !w.isEmpty)

/-- Joins the fields of a piece to those before it. -/
def joinFields (fields more : List (List Char)) : List (List Char) :=
  match fields.getLast?, more with
  | some last, first :: rest => fields.dropLast ++ (last ++ first) :: rest
  | none, more => more
  | _, [] => fields

/-- The fields of a value. -/
def fieldsOf (value : List Char) (quoted : Bool) : List (List Char) :=
  if quoted then [value] else splitBlanks value

/-- Output without the line ends at its end. -/
def withoutLineEnds (out : String) : List Char :=
  (out.toList.reverse.dropWhile (· = '\n')).reverse

/-- Where output goes after a command. -/
def deliver (s : Shell) (out : String) : Option (String × Bool) → String × Shell
  | none => (out, s)
  | some (file, keep) =>
    let name := s.fullName file
    let old := if keep then (Entries.get? s.files name).getD "" else ""
    ("", { s with files := Entries.insert s.files name (old ++ out) })

mutual

/-- The fields of a word. -/
def expand (fuel : Nat) (s : Shell) : List Piece → List (List Char)
  | [] => []
  | .text t :: rest => joinFields [t] (expand fuel s rest)
  | .param ['@'] true :: rest => joinFields (s.params.map String.toList) (expand fuel s rest)
  | .param name quoted :: rest =>
    joinFields (fieldsOf (s.param (String.ofList name)).toList quoted) (expand fuel s rest)
  | .output source quoted :: rest =>
    match fuel with
    | 0 => []
    | fuel + 1 =>
      let (out, _) := runAll fuel s (parse source)
      joinFields (fieldsOf (withoutLineEnds out) quoted) (expand (fuel + 1) s rest)
termination_by ps => (fuel, 0, ps.length)

/-- Runs commands one after the other: their output, and the shell after
them. -/
def runAll (fuel : Nat) (s : Shell) : List Command → String × Shell
  | [] => ("", s)
  | c :: rest =>
    if s.ending.isSome then ("", s)
    else if (c.link = .ifSuccess ∧ s.status ≠ 0) ∨ (c.link = .ifFailure ∧ s.status = 0) then
      runAll fuel s rest
    else
      let word (w : List Piece) : List String := (expand fuel s w).map String.ofList
      let (out, s') := s.execute (c.words.flatMap word)
      let (out, s') := s'.deliver out (c.target.map (fun t => ((word t.1).headD "", t.2)))
      let (more, s') := runAll fuel s' rest
      (out ++ more, s')
termination_by cs => (fuel, 1, cs.length)

end

/-- Runs a script to its end. -/
def run (s : Shell) (script : List Char) : Ending × Shell :=
  let (_, s) := runAll script.length s (parse script)
  (s.ending.getD (.exited s.status), s)

end Shell

end HaCluster.Launch
