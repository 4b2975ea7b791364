import HaCluster.Json.Document

/-!
# Configuration files

A TOML file is a tree of tables. A table may be written under a header, come
into being on the way to a deeper header, be spelled out by dotted keys, or
stand inline. Each way of making a table closes it to some of the others:
a header names a table once, and dotted keys add only to tables that they made
themselves.
-/

namespace HaCluster

/-- How a table came into being. -/
inductive Toml.Origin where
  /-- Under its own header. -/
  | header
  /-- On the way to a deeper header. -/
  | passage
  /-- By dotted keys. -/
  | dotted
  /-- Between braces. -/
  | inline
  deriving DecidableEq, Inhabited

/-- A value of a configuration file. -/
inductive Toml where
  | string (s : String)
  | integer (n : Int)
  | real (x : Float)
  | bool (b : Bool)
  | moment
  | array (items : List Toml)
  | table (origin : Toml.Origin) (entries : List (String × Toml))
  /-- Tables written one by one under headers with the same name. -/
  | tables (all : List (List (String × Toml)))
  deriving Inhabited

namespace Toml

/-- The entries of a table. -/
abbrev Table := List (String × Toml)

/-- Replaces the value under a key, or adds it. -/
def put (t : Table) (key : String) (v : Toml) : Table :=
  if (Entries.get? t key).isSome then t.map (fun e => if e.1 = key then (key, v) else e)
  else t ++ [(key, v)]

/-- Changes the table that a path of keys leads to. Tables that are missing
come into being. `dotted` tells a path of dotted keys from that of a header;
dotted keys do not pass through tables that have a header. -/
def descend (dotted : Bool) (f : Origin → Table → Option Table) (here : Origin) :
    List String → Table → Option Table
  | [], t => f here t
  | k :: rest, t =>
    match Entries.get? t k with
    | none =>
      let origin := if dotted then .dotted else .passage
      (descend dotted f origin rest []).map (fun t' => put t k (.table origin t'))
    | some (.table origin t') =>
      if origin = .inline ∨ (dotted ∧ origin = .header) then none
      else (descend dotted f origin rest t').map (fun t' => put t k (.table origin t'))
    | some (.tables all) =>
      match all.getLast? with
      | none => none
      | some last =>
        (descend dotted f .header rest last).map
          (fun t' => put t k (.tables (all.dropLast ++ [t'])))
    | some _ => none

/-- Adds a value under a key to a table. -/
def add (key : String) (v : Toml) (t : Table) : Option Table :=
  if (Entries.get? t key).isSome then none else some (t ++ [(key, v)])

/-- Adds a value under dotted keys to a table. Only dotted keys add to a
table that dotted keys made, and they add to no other. -/
def addDotted (key : List String) (v : Toml) (t : Table) : Option Table :=
  match key.getLast? with
  | none => none
  | some last =>
    if key.dropLast.isEmpty then add last v t
    else
      descend true (fun origin t => if origin = .dotted then add last v t else none)
        .header key.dropLast t

/-- Opens the table that a header names. -/
def openTable (header : List String) (t : Table) : Option Table :=
  match header.getLast? with
  | none => none
  | some last =>
    descend false (fun _ t =>
      match Entries.get? t last with
      | none => some (put t last (.table .header []))
      | some (.table .passage t') => some (put t last (.table .header t'))
      | some _ => none) .header header.dropLast t

/-- Opens another one of the tables that a header names. -/
def openNext (header : List String) (t : Table) : Option Table :=
  match header.getLast? with
  | none => none
  | some last =>
    descend false (fun _ t =>
      match Entries.get? t last with
      | none => some (put t last (.tables [[]]))
      | some (.tables all) => some (put t last (.tables (all ++ [[]])))
      | some _ => none) .header header.dropLast t

/-- Adds a value under dotted keys to the table that a header opened. -/
def addUnder (header key : List String) (v : Toml) (t : Table) : Option Table :=
  descend false (fun _ t => addDotted key v t) .header header t

mutual

/-- The document for a value. A moment is an object that no record knows a
field of. -/
def toJson : Toml → Json
  | .string s => .string s
  | .integer n => .int n
  | .real x => .number (.real x)
  | .bool b => .bool b
  | .moment => .object [("moment", .null)]
  | .array items => .array (toJsonItems items)
  | .table _ entries => .object (toJsonEntries entries)
  | .tables all => .array (toJsonTables all)

/-- The documents for the items of an array. -/
def toJsonItems : List Toml → List Json
  | [] => []
  | v :: rest => toJson v :: toJsonItems rest

/-- The members for the entries of a table. -/
def toJsonEntries : List (String × Toml) → List (String × Json)
  | [] => []
  | (k, v) :: rest => (k, toJson v) :: toJsonEntries rest

/-- The documents for several tables. -/
def toJsonTables : List (List (String × Toml)) → List Json
  | [] => []
  | t :: rest => .object (toJsonEntries t) :: toJsonTables rest

end

end Toml

end HaCluster
