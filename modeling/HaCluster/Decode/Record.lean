import HaCluster.Decode.Scalar

/-!
# Decoding records and names

A record is an object whose members are met in the order of the document:
unknown names are passed over, a known name may come once, and the names that
did not come are settled at the end in the order of the declaration. A record
may also be written as the sequence of its fields.

A field is a name with a decoder that yields an update of the record under
construction, so a record is decoded by starting from any value of its type
and updating it.
-/

namespace HaCluster

/-- A field of a record of type `σ`. -/
structure Field (σ : Type) where
  name : String
  /-- The update that a value of the field makes. -/
  read : Decoder (σ → σ)
  /-- The update made when an object lacks the field, if it may. -/
  absent : Option (σ → σ)
  /-- The update made when a sequence ends before the field, if it may. -/
  omitted : Option (σ → σ)

namespace Field

variable {σ α : Type}

/-- A field that has to be there. -/
def required (name : String) (d : Decoder α) (set : α → σ → σ) : Field σ :=
  ⟨name, fun o j => (d o j).map set, none, none⟩

/-- A field with a default. -/
def withDefault (name : String) (d : Decoder α) (default : α) (set : α → σ → σ) :
    Field σ :=
  ⟨name, fun o j => (d o j).map set, some (set default), some (set default)⟩

/-- A field that may be `null` or lack in an object, though not in a
sequence. -/
def nullable (name : String) (d : Decoder α) (set : Option α → σ → σ) : Field σ :=
  ⟨name, fun o j => (Decode.optional d o j).map set, some (set none), none⟩

end Field

namespace Decode

variable {σ : Type}

/-- Whether an unknown member does no harm. -/
def passesOver (name : String) (j : Json) : Bool :=
  if name = "" then
    match j with
    | .unreadable => false
    | j => j.isUncut
  else j.isUncut

/-- Reads the members of an object; `seen` holds the names that came
before. -/
def members (fields : List (Field σ)) (o : Origin) :
    List (String × Json) → List String → σ → Except DecodeError (List String × σ)
  | [], seen, s => .ok (seen, s)
  | (name, j) :: rest, seen, s =>
    match fields.find? (fun f => f.name = name) with
    | none =>
      if passesOver name j then members fields o rest seen s
      else .error .malformed
    | some f =>
      if seen.contains name then .error (.duplicateField name)
      else do
        let update ← f.read o j
        members fields o rest (name :: seen) (update s)

/-- Settles the fields that did not come. -/
def settle (seen : List String) : List (Field σ) → σ → Except DecodeError σ
  | [], s => .ok s
  | f :: rest, s =>
    if seen.contains f.name then settle seen rest s
    else
      match f.absent with
      | some update => settle seen rest (update s)
      | none => .error (.missingField f.name)

/-- A number of elements. -/
def elements (n : Nat) : String :=
  if n = 1 then "1 element" else toString n ++ " elements"

/-- Reads the fields of a record off a sequence; `i` items came before. -/
def items (expected : String) (o : Origin) (i : Nat) :
    List (Field σ) → List Json → σ → Except DecodeError σ
  | [], [], s => .ok s
  | [], rest, s =>
    match o with
    | .file => .ok s
    | .text => .error .malformed
    | .value => .error (.invalidLength (i + rest.length) "fewer elements in array")
    | .buffered =>
      .error (.invalidLength (i + rest.length) (elements i ++ " in sequence"))
  | f :: fs, [], s =>
    match f.omitted with
    | some update => items expected o (i + 1) fs [] (update s)
    | none => .error (.invalidLength i expected)
  | f :: fs, j :: rest, s => do
    let update ← f.read o j
    items expected o (i + 1) fs rest (update s)

/-- Reads a record of a given name: an object or a sequence of its fields. -/
def record (name : String) (fields : List (Field σ)) (init : σ) : Decoder σ
  | o, .object ms => do
    let (seen, s) ← members fields o ms [] init
    settle seen fields s
  | o, .array js =>
    items ("struct " ++ name ++ " with " ++ elements fields.length) o 0 fields js init
  | _, j => wrongType j ("struct " ++ name)

/-- Reads the fields of one variant of a type: only an object will do. -/
def fields (expected : String) (fs : List (Field σ)) (init : σ) : Decoder σ
  | o, .object ms => do
    let (seen, s) ← members fs o ms [] init
    settle seen fs s
  | _, j => wrongType j expected

/-- Looks a name up among those of the variants of a type. -/
def variant {α : Type} (variants : List (String × α)) (name : String) :
    Except DecodeError α :=
  match Entries.get? variants name with
  | some x => .ok x
  | none => .error (.unknownVariant name (variants.map Prod.fst))

/-- Checks that a variant without content comes with none. -/
def noContent (j : Json) (expected : String) : Except DecodeError Unit :=
  match j with
  | .null => .ok ()
  | j => wrongType j expected

/-- Reads one of several names. It may also be written as an object with the
name as its only member and `null` as the value. -/
def name {α : Type} (variants : List (String × α)) : Decoder α
  | _, .string s => variant variants s
  | .text, .object [] => .error .malformed
  | .text, .object ((s, j) :: rest) =>
    if s = "" ∧ !passesOver s j then .error .malformed
    else do
      let x ← variant variants s
      noContent j "unit"
      if rest.isEmpty then pure x else .error .malformed
  | .text, _ => .error .malformed
  | _, .object [(s, j)] => do
    let x ← variant variants s
    noContent j "unit"
    pure x
  | _, .object _ =>
    .error (.invalidValue "map" "map with a single key")
  | _, j => wrongType j "string or map"

end Decode

end HaCluster
