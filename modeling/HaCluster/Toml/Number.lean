import HaCluster.Power

/-!
# Numbers and moments of configuration files

Integers may be written in four bases and hold 64 bits. A decimal is rounded
to the nearest double; one beyond the greatest double is no number, though
its negative is. A moment is a date, a time of day or both; only its form
matters here.
-/

namespace HaCluster.Toml

/-- A number of a configuration file. -/
inductive Number where
  | integer (n : Int)
  | real (x : Float)
  deriving Inhabited

/-- Reads digits, of which two may have an underscore between them. The
digits satisfy `isDigit`; `inside` says that one was read before. -/
def readDigits (isDigit : Char → Bool) (inside : Bool) :
    List Char → List Char × List Char
  | [] => ([], [])
  | [c] => if isDigit c then ([c], []) else ([], [c])
  | c :: d :: rest =>
    if isDigit c then
      let (ds, r) := readDigits isDigit true (d :: rest)
      (c :: ds, r)
    else if inside ∧ c = '_' ∧ isDigit d then readDigits isDigit true (d :: rest)
    else ([], c :: d :: rest)

/-- The value of a digit in any base up to sixteen. -/
def digitValue (c : Char) : Nat :=
  if c.isDigit then c.toNat - '0'.toNat
  else if c.isLower then c.toNat - 'a'.toNat + 10
  else c.toNat - 'A'.toNat + 10

/-- The number that digits write in a base. -/
def ofDigits (base : Nat) (ds : List Char) : Nat :=
  ds.foldl (fun n c => base * n + digitValue c) 0

/-- Whether a character is a digit of base sixteen. -/
def isHex (c : Char) : Bool :=
  c.isDigit || ('a' ≤ c && c ≤ 'f') || ('A' ≤ c && c ≤ 'F')

/-- Reads an integer in a base other than ten, after its mark. -/
def readBased (base : Nat) (isDigit : Char → Bool) (cs : List Char) :
    Option (Number × List Char) :=
  match readDigits isDigit false cs with
  | ([], _) => none
  | (ds, rest) =>
    let n := ofDigits base ds
    if n < twoTo 63 then some (.integer n, rest) else none

/-- The double nearest to `digits · 10 ^ exponent`. -/
def decimal (digits : Nat) (exponent : Int) : Float :=
  if digits = 0 then 0
  else if 400 < exponent then Float.ofScientific 1 false 400
  else if exponent + (Nat.toDigits 10 digits).length < -400 then 0
  else Float.ofScientific digits (exponent < 0) exponent.natAbs

/-- Reads the digits before the point: a zero alone, or digits that do not
begin with zero. -/
def readWhole : List Char → Option (List Char × List Char)
  | '0' :: rest => some (['0'], rest)
  | cs =>
    match readDigits Char.isDigit false cs with
    | ([], _) => none
    | r => some r

/-- Reads an exponent. -/
def readExponent (cs : List Char) : Option (Int × List Char) :=
  let (minus, ds) := match cs with
    | '+' :: ds => (false, ds)
    | '-' :: ds => (true, ds)
    | ds => (false, ds)
  match readDigits Char.isDigit false ds with
  | ([], _) => none
  | (ds, rest) =>
    let e : Int := ofDigits 10 ds
    some (if minus then -e else e, rest)

/-- A signed double, unless it lies beyond the greatest one. -/
def real? (negative : Bool) (x : Float) : Option Number :=
  if negative then some (.real (-x))
  else if x.isInf then none
  else some (.real x)

/-- Reads a decimal number without its sign. -/
def readDecimal (negative : Bool) (cs : List Char) : Option (Number × List Char) := do
  let (whole, rest) ← readWhole cs
  let (fraction, rest) ← match rest with
    | '.' :: r =>
      match readDigits Char.isDigit false r with
      | ([], _) => none
      | (ds, r) => some (some ds, r)
    | r => some (none, r)
  let (exponent, rest) ← match rest with
    | 'e' :: r => (readExponent r).map (fun (e, r) => (some e, r))
    | 'E' :: r => (readExponent r).map (fun (e, r) => (some e, r))
    | r => some (none, r)
  if fraction.isNone ∧ exponent.isNone then
    let n : Int := if negative then -(ofDigits 10 whole : Int) else ofDigits 10 whole
    if -twoTo 63 ≤ n ∧ n < twoTo 63 then some (.integer n, rest) else none
  else
    let ds := fraction.getD []
    let x := decimal (ofDigits 10 (whole ++ ds)) (exponent.getD 0 - ds.length)
    (real? negative x).map (·, rest)

/-- Reads a number. -/
def readNumber (cs : List Char) : Option (Number × List Char) :=
  let (sign, ds) := match cs with
    | '+' :: ds => (some false, ds)
    | '-' :: ds => (some true, ds)
    | ds => (none, ds)
  let negative := sign.getD false
  match ds with
  | 'i' :: 'n' :: 'f' :: rest =>
    let x : Float := 1 / 0
    some (.real (if negative then -x else x), rest)
  | 'n' :: 'a' :: 'n' :: rest => some (.real (0 / 0), rest)
  | '0' :: 'x' :: rest => if sign.isNone then readBased 16 isHex rest else none
  | '0' :: 'o' :: rest =>
    if sign.isNone then readBased 8 (fun c => '0' ≤ c && c ≤ '7') rest else none
  | '0' :: 'b' :: rest =>
    if sign.isNone then readBased 2 (fun c => c = '0' || c = '1') rest else none
  | ds => readDecimal negative ds

/-- Reads a number of two digits up to a limit. -/
def readTwo (lo hi : Nat) : List Char → Option (Nat × List Char)
  | a :: b :: rest =>
    if a.isDigit ∧ b.isDigit then
      let n := 10 * digitValue a + digitValue b
      if lo ≤ n ∧ n ≤ hi then some (n, rest) else none
    else none
  | _ => none

/-- Takes a character off the front. -/
def expect (c : Char) : List Char → Option (List Char)
  | d :: rest => if c = d then some rest else none
  | [] => none

/-- How many days a month of a year has. -/
def daysIn (year month : Nat) : Nat :=
  if month = 2 then
    if year % 4 = 0 ∧ (year % 100 ≠ 0 ∨ year % 400 = 0) then 29 else 28
  else if month = 4 ∨ month = 6 ∨ month = 9 ∨ month = 11 then 30
  else 31

/-- Reads a date. -/
def readDate (cs : List Char) : Option (List Char) := do
  let (century, rest) ← readTwo 0 99 cs
  let (year, rest) ← readTwo 0 99 rest
  let (month, rest) ← readTwo 1 12 (← expect '-' rest)
  let (_, rest) ← readTwo 1 (daysIn (100 * century + year) month) (← expect '-' rest)
  pure rest

/-- Reads a time of day. -/
def readTime (cs : List Char) : Option (List Char) := do
  let (_, rest) ← readTwo 0 23 cs
  let (_, rest) ← readTwo 0 59 (← expect ':' rest)
  let (_, rest) ← readTwo 0 60 (← expect ':' rest)
  match rest with
  | '.' :: r => if r.takeWhile Char.isDigit = [] then none else pure (r.dropWhile Char.isDigit)
  | r => pure r

/-- Reads the distance of a time from universal time. -/
def readOffset : List Char → Option (List Char)
  | c :: rest =>
    if c = 'Z' ∨ c = 'z' then some rest
    else if c = '+' ∨ c = '-' then do
      let (_, rest) ← readTwo 0 23 rest
      let (_, rest) ← readTwo 0 59 (← expect ':' rest)
      pure rest
    else none
  | [] => none

/-- Reads a moment: what follows it. -/
def readMoment (cs : List Char) : Option (List Char) :=
  match readDate cs with
  | some rest =>
    match rest with
    | c :: r =>
      if c = 'T' ∨ c = 't' ∨ c = ' ' then
        match readTime r with
        | some r => some ((readOffset r).getD r)
        | none => some rest
      else some rest
    | [] => some []
  | none => readTime cs

end HaCluster.Toml
