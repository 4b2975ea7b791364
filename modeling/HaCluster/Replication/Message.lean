import HaCluster.Cbor.Reader
import HaCluster.Tree.Wire

/-!
# Messages between nodes

A node ships its changes as numbered patches. A full message carries the
whole of what the node publishes together with the number of the last patch
that it already contains, so the patches go on from there.

A message is written as a document or as a binary item, in both forms an
object with the fields `kind`, `id`, `ts` and `data`. Readers find the kind
wherever it stands and take the other fields in any order; the sequence of
the four fields is read as well.
-/

namespace HaCluster

/-- What a message carries. -/
inductive Payload where
  /-- Changes of the sender's blob, seen from it. -/
  | patch (changes : List Fragment)
  /-- The sender's whole blob. -/
  | full (blob : Value)
  deriving Inhabited

/-- A message from one node to its peers. -/
structure Message where
  /-- The number of the patch, or of the last patch contained. -/
  id : Nat
  /-- When the message was made, in seconds. -/
  time : Float
  payload : Payload
  deriving Inhabited

namespace Payload

instance : BEq Payload where
  beq
    | .patch a, .patch b => a == b
    | .full a, .full b => a == b
    | _, _ => false

end Payload

namespace Message

instance : BEq Message :=
  ⟨fun a b => a.id == b.id && a.time == b.time && a.payload == b.payload⟩

/-- The document for a message. -/
def toJson (m : Message) : Json :=
  let (kind, data) := match m.payload with
    | .patch fs => ("patch", Json.array (fs.map Fragment.toJson))
    | .full v => ("full", v.toJson)
  .object [("kind", .string kind), ("id", Json.nat m.id), ("ts", Json.real m.time),
    ("data", data)]

/-- The binary item for a fragment. -/
def fragmentToCbor (f : Fragment) : Cbor :=
  let step : Segment → Cbor
    | .index i => .nat i
    | .key k => .text k
  .array (.array (f.path.map step) :: (f.value.map Value.toCbor).toList)

/-- The binary item for a message. -/
def toCbor (m : Message) : Cbor :=
  let (kind, data) := match m.payload with
    | .patch fs => ("patch", Cbor.array (fs.map fragmentToCbor))
    | .full v => ("full", v.toCbor)
  .map [(.text "kind", .text kind), (.text "id", .nat m.id), (.text "ts", .float m.time),
    (.text "data", data)]

/-- The kinds of messages. -/
inductive Kind where
  | patch
  | full
  deriving DecidableEq, Inhabited

/-- The names of the kinds. -/
def kinds : List (String × Kind) := [("patch", .patch), ("full", .full)]

/-- Reads the data of a message of a kind. -/
def decodePayload : Kind → Decoder Payload
  | .patch, o, j => (Decode.list Fragment.decode o j).map .patch
  | .full, o, j => (Decode.value o j).map .full

/-- Reads the name of a kind. -/
def decodeKind (j : Json) : Except DecodeError Kind :=
  match j with
  | .string s => Decode.variant kinds s
  | j => Decode.wrongType j "variant identifier"

/-- Finds the kind among the members of an object, which are read ahead: the
kind and the other members. -/
def takeKind : List (String × Json) → Option Kind →
    Except DecodeError (Option Kind × List (String × Json))
  | [], kind => .ok (kind, [])
  | (name, j) :: rest, kind =>
    if name = "kind" then
      if kind.isSome then .error (.duplicateField "kind")
      else do
        let k ← decodeKind j
        takeKind rest (some k)
    else if j.isWhole then do
      let (kind, others) ← takeKind rest kind
      pure (kind, (name, j) :: others)
    else .error .malformed

/-- The fields beside the kind. -/
def fields (kind : Kind) : List (Field Message) :=
  [Field.required "id" Decode.u64 (fun n m => { m with id := n }),
   Field.required "ts" Decode.float (fun x m => { m with time := x }),
   Field.required "data" (decodePayload kind) (fun p m => { m with payload := p })]

/-- The name of a kind in messages about its fields. -/
def Kind.form : Kind → String
  | .patch => "struct variant PeerMessage::Patch with 3 elements"
  | .full => "struct variant PeerMessage::Full with 3 elements"

/-- Reads a message. -/
def decode : Decoder Message
  | _, .object ms => do
    match ← takeKind ms none with
    | (none, _) => .error (.missingField "kind")
    | (some kind, others) =>
      let (seen, m) ← Decode.members (fields kind) .buffered others [] default
      Decode.settle seen (fields kind) m
  | _, .array [] => .error (.missingField "kind")
  | _, .array (k :: rest) => do
    let kind ← decodeKind k
    if Json.areWhole rest then
      Decode.items kind.form .buffered 0 (fields kind) rest default
    else .error .malformed
  | _, j => Decode.wrongType j "internally tagged enum PeerMessage"

/-- The message that a text is. -/
def ofText (s : String) : Except DecodeError Message :=
  Decode.ofText decode s

/-- Reads a step of a path from a binary item. -/
def segment? : Cbor → Option Segment
  | .unsigned _ n => some (.index n)
  | c => c.text?.map .key

/-- Reads a fragment from a binary item. -/
def fragment? (c : Cbor) : Option Fragment := do
  match ← c.array? with
  | [p] =>
    let path ← (← p.array?).mapM segment?
    pure ⟨path, none⟩
  | [p, v] =>
    let path ← (← p.array?).mapM segment?
    let value ← v.value?
    pure ⟨path, some value⟩
  | _ => none

/-- Reads the data of a message of a kind from a binary item. -/
def payload? (kind : Kind) (c : Cbor) : Option Payload :=
  match kind with
  | .patch => (c.array?.bind (fun cs => cs.mapM fragment?)).map .patch
  | .full => c.value?.map .full

/-- Reads a kind from a binary item: its name, or its number. -/
def kind? : Cbor → Option Kind
  | .unsigned _ n => if n = 0 then some .patch else if n = 1 then some .full else none
  | c => c.text?.bind (Entries.get? kinds)

/-- Which of the fields `id`, `ts` and `data` a key names, by its text or its
number. The outer `none` is a key that is neither. -/
def fieldOf : Cbor → Option (Option (Fin 3))
  | .unsigned .one n => some (if h : n < 3 then some ⟨n, h⟩ else none)
  | .unsigned .eight n => some (if h : n < 3 then some ⟨n, h⟩ else none)
  | .text s => some (named s)
  | .bytes bs => some ((Cbor.utf8? bs).bind named)
  | _ => none
where
  /-- The field with a name. -/
  named (s : String) : Option (Fin 3) :=
    if s = "id" then some 0
    else if s = "ts" then some 1
    else if s = "data" then some 2
    else none

/-- Sorts the entries of a binary message into its kind and the three other
fields. A field may come once, and other keys are passed over. -/
def gather : List (Cbor × Cbor) → Option Cbor → (Fin 3 → Option Cbor) →
    Option (Option Cbor × (Fin 3 → Option Cbor))
  | [], kind, fs => some (kind, fs)
  | (k, c) :: rest, kind, fs =>
    if k.text? = some "kind" then
      if kind.isSome then none else gather rest (some c) fs
    else
      match fieldOf k with
      | none => none
      | some none => gather rest kind fs
      | some (some i) =>
        if (fs i).isSome then none
        else gather rest kind (fun j => if j = i then some c else fs j)

/-- The message that a binary item stands for. -/
def ofCbor? : Cbor → Option Message
  | .map entries => do
    let (kind, fs) ← gather entries none (fun _ => none)
    let kind ← kind.bind kind?
    let id ← (fs 0).bind Cbor.nat?
    let time ← (fs 1).bind Cbor.float?
    let payload ← (fs 2).bind (payload? kind)
    pure ⟨id, time, payload⟩
  | .array [k, id, time, data] => do
    let kind ← kind? k
    let payload ← payload? kind data
    pure ⟨← id.nat?, ← time.float?, payload⟩
  | _ => none

/-- The bytes of a message. -/
def encode (m : Message) : List UInt8 :=
  m.toCbor.encode

/-- The message that bytes are. -/
def ofBytes? (bs : List UInt8) : Option Message :=
  (Cbor.read? bs).bind ofCbor?

end Message

end HaCluster
