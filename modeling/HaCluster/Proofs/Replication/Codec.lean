import HaCluster.Replication.Message
import HaCluster.Proofs.Tree.Wire

/-!
# Messages that come back

A message has two written forms, a text and a sequence of bytes, and each
comes back as the message that was written (`codec_round_trip`). Three things
are asked of the message. Numbers have the 64 bits that their types give
them, and mappings are sorted, as every mapping of a tree is. Containers are
nested at most 127 deep when written, which is as deep as the readers go. And
a text holds only finite doubles, whose digits the printer and the reader of
numbers have to agree about.

Two messages that are written alike are therefore the same message: what was
told apart before, a `null` and a removal, an index and a key, an integer and
a double, an empty list and an empty mapping, is told apart in both forms.
-/

namespace HaCluster

namespace Payload

/-- The values that a payload carries. -/
def values : Payload → List Value
  | .patch fs => fs.filterMap Fragment.value
  | .full v => [v]

/-- The steps of the paths in a payload. -/
def segments : Payload → List Segment
  | .patch fs => fs.flatMap Fragment.path
  | .full _ => []

end Payload

namespace Message

/-- Every double of the message, its time included, has a property. -/
def Floats (p : Float → Prop) (m : Message) : Prop :=
  p m.time ∧ ∀ v ∈ m.payload.values, v.Everywhere (Value.floatIs p)

/-- What the types of the fields say: the number of the message and every
index have 64 bits, and every mapping is sorted. -/
structure WellTyped (m : Message) : Prop where
  id : m.id < twoTo 64
  indices : ∀ s ∈ m.payload.segments, s.Fits
  sorted : ∀ v ∈ m.payload.values, v.Sorted

theorem everywhere_of_values {r : Value → Prop} {fs : List Fragment}
    (h : ∀ v ∈ (Payload.patch fs).values, v.Everywhere r) : ∀ f ∈ fs, f.Everywhere r :=
  fun f hf v hv => h v (List.mem_filterMap.2 ⟨f, hf, hv⟩)

theorem fits_of_segments {fs : List Fragment} (h : ∀ s ∈ (Payload.patch fs).segments, s.Fits) :
    ∀ f ∈ fs, ∀ s ∈ f.path, s.Fits :=
  fun f hf s hs => h s (List.mem_flatMap.2 ⟨f, hf, hs⟩)

/-! ## The binary form -/

/-- The binary item for a step. -/
def segmentToCbor : Segment → Cbor
  | .index i => .nat i
  | .key k => .text k

theorem fragmentToCbor_eq (f : Fragment) :
    fragmentToCbor f
      = .array (.array (f.path.map segmentToCbor) :: (f.value.map Value.toCbor).toList) := rfl

theorem segment?_segmentToCbor (s : Segment) : segment? (segmentToCbor s) = some s := by
  cases s with
  | index i => rfl
  | key k => rfl

/-- **A fragment comes back from its binary item**, with a value exactly if
it had one. -/
theorem fragment?_fragmentToCbor {f : Fragment} (sorted : f.Everywhere Value.isSorted) :
    fragment? (fragmentToCbor f) = some f := by
  obtain ⟨p, value⟩ := f
  have path : (p.map segmentToCbor).mapM segment? = some p :=
    mapM_map_pure fun s _ => segment?_segmentToCbor s
  rw [fragmentToCbor_eq]
  cases value with
  | none => simp [fragment?, Cbor.array?, path]
  | some v => simp [fragment?, Cbor.array?, path, Value.value?_toCbor (sorted v rfl)]

/-- The name of the kind of a payload. -/
def kindName : Payload → String
  | .patch _ => "patch"
  | .full _ => "full"

/-- The kind of a payload. -/
def kindOf : Payload → Kind
  | .patch _ => .patch
  | .full _ => .full

/-- The binary item for a payload. -/
def payloadToCbor : Payload → Cbor
  | .patch fs => .array (fs.map fragmentToCbor)
  | .full v => v.toCbor

theorem toCbor_eq (m : Message) :
    m.toCbor = .map [(.text "kind", .text (kindName m.payload)), (.text "id", .nat m.id),
      (.text "ts", .float m.time), (.text "data", payloadToCbor m.payload)] := by
  obtain ⟨id, time, payload⟩ := m
  cases payload <;> rfl

theorem payload?_payloadToCbor {p : Payload} (sorted : ∀ v ∈ p.values, v.Sorted) :
    payload? (kindOf p) (payloadToCbor p) = some p := by
  cases p with
  | patch fs =>
    have all : (fs.map fragmentToCbor).mapM fragment? = some fs :=
      mapM_map_pure fun f hf => fragment?_fragmentToCbor (everywhere_of_values sorted f hf)
    simp [payload?, kindOf, payloadToCbor, Cbor.array?, all]
  | full v =>
    simp [payload?, kindOf, payloadToCbor, Value.value?_toCbor (sorted v List.mem_cons_self)]

/-- **A message comes back from its binary item.** -/
theorem ofCbor?_toCbor {m : Message} (typed : m.WellTyped) : ofCbor? m.toCbor = some m := by
  have kind : kind? (.text (kindName m.payload)) = some (kindOf m.payload) := by
    cases m.payload <;> rfl
  have payload := payload?_payloadToCbor typed.sorted
  rw [toCbor_eq]
  simp [ofCbor?, gather, Cbor.text?, fieldOf, fieldOf.named, kind, payload, Cbor.nat, Cbor.nat?,
    Cbor.float?]

theorem plain_segmentToCbor {s : Segment} (fits : s.Fits) : (segmentToCbor s).Plain := by
  cases s with
  | index i => exact ⟨rfl, fits⟩
  | key k => trivial

theorem plain_fragmentToCbor {f : Fragment} (fits : ∀ s ∈ f.path, s.Fits) :
    (fragmentToCbor f).Plain := by
  obtain ⟨p, value⟩ := f
  have path : Cbor.PlainItems (p.map segmentToCbor) :=
    Cbor.plainItems_map fun s hs => plain_segmentToCbor (fits s hs)
  rw [fragmentToCbor_eq]
  cases value with
  | none => exact ⟨path, trivial⟩
  | some v => exact ⟨path, Value.plain_toCbor v, trivial⟩

/-- The numbers of a message have the width the writer gives them. -/
theorem plain_toCbor {m : Message} (typed : m.WellTyped) : m.toCbor.Plain := by
  have payload : (payloadToCbor m.payload).Plain := by
    have indices := typed.indices
    cases payload_eq : m.payload with
    | patch fs =>
      rw [payload_eq] at indices
      exact Cbor.plainItems_map fun f hf => plain_fragmentToCbor (fits_of_segments indices f hf)
    | full v => exact Value.plain_toCbor v
  rw [toCbor_eq]
  exact ⟨trivial, trivial, trivial, ⟨rfl, typed.id⟩, trivial, trivial, trivial, payload, trivial⟩

/-! ## The document -/

/-- The document for a payload. -/
def payloadToJson : Payload → Json
  | .patch fs => .array (fs.map Fragment.toJson)
  | .full v => v.toJson

theorem toJson_eq (m : Message) :
    m.toJson = .object [("kind", .string (kindName m.payload)), ("id", Json.nat m.id),
      ("ts", Json.real m.time), ("data", payloadToJson m.payload)] := by
  obtain ⟨id, time, payload⟩ := m
  cases payload <;> rfl

section Text

variable {m : Message} (typed : m.WellTyped) (finite : m.Floats fun x => x.isFinite = true)
  (printer : m.Floats fun x => x.isFinite = true → Json.ReadsBack x)

include typed printer in
theorem plain_payloadToJson : (payloadToJson m.payload).Plain := by
  obtain ⟨-, indices, -⟩ := typed
  obtain ⟨-, printer⟩ := printer
  cases payload_eq : m.payload with
  | patch fs =>
    rw [payload_eq] at indices printer
    exact Json.plainItems_map fun f hf => Fragment.plain_toJson (fits_of_segments indices f hf)
      (everywhere_of_values printer f hf)
  | full v =>
    rw [payload_eq] at printer
    exact Value.plain_toJson (printer v List.mem_cons_self)

include typed finite printer in
theorem decodePayload_payloadToJson (o : Origin) :
    decodePayload (kindOf m.payload) o (payloadToJson m.payload) = .ok m.payload := by
  have whole := Json.isWhole_of_plain (plain_payloadToJson typed printer)
  obtain ⟨-, indices, sorted⟩ := typed
  obtain ⟨-, finite⟩ := finite
  obtain ⟨-, printer⟩ := printer
  cases payload_eq : m.payload with
  | patch fs =>
    rw [payload_eq] at indices sorted finite printer
    have all : (fs.map Fragment.toJson).mapM (Fragment.decode o) = Except.ok fs :=
      mapM_map_pure fun f hf => Fragment.decode_toJson (fits_of_segments indices f hf)
        (everywhere_of_values sorted f hf) (everywhere_of_values finite f hf)
        (everywhere_of_values printer f hf) o
    rw [payloadToJson, kindOf, decodePayload, Decode.list, all]
    rfl
  | full v =>
    rw [payload_eq] at sorted finite whole
    have back := Value.ofJson_toJson (sorted v List.mem_cons_self) (finite v List.mem_cons_self)
    rw [payloadToJson] at whole
    rw [payloadToJson, kindOf, decodePayload, Decode.value, if_pos whole, back]
    rfl

/-- A natural number of 64 bits comes back from its document. -/
theorem u64_nat {n : Nat} (small : n < twoTo 64) (o : Origin) : Decode.u64 o (Json.nat n) = .ok n := by
  rw [Decode.u64, Decode.natural, Json.nat, Json.int, Decode.integer,
    if_pos ⟨Int.natCast_nonneg n, by omega⟩]
  rfl

/-- The members that are no kind are kept in their order. -/
theorem takeKind_members {kind : String} {k : Kind} {id ts data : Json}
    (known : decodeKind (.string kind) = .ok k) (hid : id.isWhole = true) (hts : ts.isWhole = true)
    (hdata : data.isWhole = true) :
    takeKind [("kind", .string kind), ("id", id), ("ts", ts), ("data", data)] none
      = .ok (some k, [("id", id), ("ts", ts), ("data", data)]) := by
  simp [takeKind, known, hid, hts, hdata, bind, Except.bind, pure, Except.pure]

include typed finite printer in
/-- **A message comes back from its document.** -/
theorem decode_toJson (o : Origin) : Message.decode o m.toJson = .ok m := by
  have payload := decodePayload_payloadToJson typed finite printer .buffered
  have whole := Json.isWhole_of_plain (plain_payloadToJson typed printer)
  have known : decodeKind (.string (kindName m.payload)) = .ok (kindOf m.payload) := by
    cases m.payload <;> rfl
  have time : Json.real m.time = .number (.real m.time) := if_pos finite.1
  rw [toJson_eq, time, Message.decode, takeKind_members known rfl rfl whole]
  have read : Decode.members (fields (kindOf m.payload)) .buffered
      [("id", Json.nat m.id), ("ts", .number (.real m.time)), ("data", payloadToJson m.payload)]
      [] default = .ok (["data", "ts", "id"], m) := by
    simp [Decode.members, fields, Field.required, u64_nat typed.id, Decode.float, payload,
      Except.map, bind, Except.bind]
  show (Decode.members _ _ _ _ _).bind _ = _
  rw [read]
  rfl

include typed printer in
theorem plain_toJson : m.toJson.Plain := by
  have time : (Json.real m.time).Plain := by
    rw [Json.real]
    split
    · rename_i finite
      exact printer.1 finite
    · trivial
  have small : m.id < twoTo 64 := typed.id
  rw [toJson_eq]
  exact ⟨trivial, ⟨by omega, by exact_mod_cast small⟩, time,
    plain_payloadToJson typed printer, trivial⟩

end Text

/-! ## Both forms -/

/-- **A message comes back from its bytes.** -/
theorem ofBytes?_encode {m : Message} (typed : m.WellTyped) (nested : m.toCbor.nesting < 128)
    (fits : m.encode.length < twoTo 64) : ofBytes? m.encode = some m := by
  rw [ofBytes?, encode, Cbor.read?_encode (plain_toCbor typed) (Nat.le_of_lt_succ nested) fits]
  exact ofCbor?_toCbor typed

/-- **A message comes back from its text.** -/
theorem ofText_text {m : Message} (typed : m.WellTyped)
    (finite : m.Floats fun x => x.isFinite = true)
    (printer : m.Floats fun x => x.isFinite = true → Json.ReadsBack x)
    (nested : m.toJson.nesting < 128) : ofText m.toJson.text = .ok m := by
  have read := Json.read_text (plain_toJson typed printer) (Nat.le_of_lt_succ nested)
  rw [ofText, Decode.ofText, read]
  show (decode .text m.toJson).bind _ = _
  rw [decode_toJson typed finite printer]
  rfl

/-- What makes the bytes of a message come back. -/
structure Encodable (m : Message) : Prop where
  typed : m.WellTyped
  nested : m.toCbor.nesting < 128
  /-- The bytes can be counted in 64 bits, as any that are in memory. -/
  counted : m.encode.length < twoTo 64

/-- What makes the text of a message come back. -/
structure Printable (m : Message) : Prop where
  typed : m.WellTyped
  nested : m.toJson.nesting < 128
  finite : m.Floats fun x => x.isFinite = true
  /-- The printer and the reader of numbers agree about the doubles. -/
  printer : m.Floats fun x => x.isFinite = true → Json.ReadsBack x

/-- **Messages come back in both forms**, and messages that are written alike
are the same. The number that is none comes back from bytes as well, though
it is not equal to itself as numbers go. -/
theorem codec_round_trip :
    (∀ m : Message, m.Encodable → ofBytes? m.encode = some m)
      ∧ (∀ m : Message, m.Printable → ofText m.toJson.text = .ok m)
      ∧ (∀ m m' : Message, m.Encodable → m'.Encodable → m.encode = m'.encode → m = m')
      ∧ (∀ m m' : Message, m.Printable → m'.Printable → m.toJson.text = m'.toJson.text →
          m = m') := by
  have bytes (m : Message) (h : m.Encodable) : ofBytes? m.encode = some m :=
    ofBytes?_encode h.typed h.nested h.counted
  have text (m : Message) (h : m.Printable) : ofText m.toJson.text = .ok m :=
    ofText_text h.typed h.finite h.printer h.nested
  refine ⟨bytes, text, fun m m' h h' alike => ?_, fun m m' h h' alike => ?_⟩
  · have back := bytes m h
    rw [alike, bytes m' h'] at back
    exact (Option.some.inj back).symm
  · have back := text m h
    rw [alike, text m' h'] at back
    exact (Except.ok.inj back).symm

/-- A message with one change. -/
def single (f : Fragment) : Message := ⟨2 ^ 64 - 1, 0.5, .patch [f]⟩

/-- Changes that look alike: a stored `null` and a removal, an index and a
key of the same text, an integer and a double, an empty list and an empty
mapping. -/
def lookalikes : List (Fragment × Fragment) :=
  [(⟨[.key "a"], some .null⟩, ⟨[.key "a"], none⟩),
   (⟨[.key "a", .index 0], some (.str "é")⟩, ⟨[.key "a", .key "0"], some (.str "é")⟩),
   (⟨[.key "a"], some (.int 1)⟩, ⟨[.key "a"], some (.float 1)⟩),
   (⟨[.key "a"], some (.list [.list []])⟩, ⟨[.key "a"], some (.list [.map []])⟩)]

theorem readsBack_half : Json.ReadsBack 0.5 :=
  ⟨⟨false, [0], [5], none⟩, by decide +kernel, by decide +kernel⟩

theorem readsBack_one : Json.ReadsBack 1 :=
  ⟨⟨false, [1], [0], none⟩, by decide +kernel, by decide +kernel⟩

/-- Each of these changes can be written in both forms. -/
theorem single_ready {f : Fragment} (mem : f ∈ lookalikes.flatMap fun e => [e.1, e.2]) :
    (single f).Encodable ∧ (single f).Printable := by
  have half : Float.isFinite 0.5 = true := by decide
  have one : Float.isFinite 1 = true := by decide
  obtain ⟨nested, counted, nested'⟩ :=
    (show ∀ f ∈ lookalikes.flatMap fun e => [e.1, e.2], (single f).toCbor.nesting < 128
      ∧ (single f).encode.length < twoTo 64 ∧ (single f).toJson.nesting < 128 by
        decide +kernel) f mem
  simp only [lookalikes, List.flatMap_cons, List.flatMap_nil, List.cons_append, List.nil_append,
    List.mem_cons, List.not_mem_nil, or_false] at mem
  have typed : (single f).WellTyped := by
    refine ⟨show 2 ^ 64 - 1 < twoTo 64 by decide, ?_, ?_⟩ <;>
      rcases mem with rfl | rfl | rfl | rfl | rfl | rfl | rfl | rfl <;>
      simp [single, Payload.segments, Payload.values, Segment.Fits, Value.Everywhere,
        Value.EverywhereItems, Value.EverywhereEntries, Value.isSorted, Entries.Sorted,
        Entries.keys, twoTo]
  have doubles {p : Float → Prop} (half : p 0.5) (one : p 1) : (single f).Floats p := by
    rcases mem with rfl | rfl | rfl | rfl | rfl | rfl | rfl | rfl <;>
      simp [single, Floats, Payload.values, Value.Everywhere, Value.EverywhereItems,
        Value.EverywhereEntries, Value.floatIs, half, one]
  exact ⟨⟨typed, nested, counted⟩,
    ⟨typed, nested', doubles half one, doubles (fun _ => readsBack_half) fun _ => readsBack_one⟩⟩

/-- The first of two changes comes back, and is not written like the second. -/
structure ToldApart (e : Fragment × Fragment) : Prop where
  bytes : ofBytes? (single e.1).encode = some (single e.1)
  text : ofText (single e.1).toJson.text = .ok (single e.1)
  encode_ne : (single e.1).encode ≠ (single e.2).encode
  text_ne : (single e.1).toJson.text ≠ (single e.2).toJson.text

/-- Changes that look alike are told apart in both forms. -/
theorem codec_round_trip_lookalikes : lookalikes.Forall ToldApart := by
  refine List.forall_iff_forall_mem.2 fun e he => ?_
  obtain ⟨bytes, text, bytes_inj, text_inj⟩ := codec_round_trip
  obtain ⟨encodable, printable⟩ := single_ready (List.mem_flatMap.2 ⟨e, he, List.mem_cons_self⟩)
  obtain ⟨encodable', printable'⟩ :=
    single_ready (List.mem_flatMap.2 ⟨e, he, List.mem_cons_of_mem _ List.mem_cons_self⟩)
  have differ : single e.1 ≠ single e.2 := by
    simp only [lookalikes, List.mem_cons, List.not_mem_nil, or_false] at he
    rcases he with rfl | rfl | rfl | rfl <;> simp [single]
  exact ⟨bytes _ encodable, text _ printable,
    fun h => differ (bytes_inj _ _ encodable encodable' h),
    fun h => differ (text_inj _ _ printable printable' h)⟩

end Message

end HaCluster
