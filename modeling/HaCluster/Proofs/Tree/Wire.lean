import HaCluster.Tree.Wire
import HaCluster.Proofs.Cbor.Reader
import HaCluster.Proofs.Decode.Record
import HaCluster.Proofs.Json.Reader
import HaCluster.Proofs.Tree.Keep

/-!
# Values that come back

A value of the tree is written without a tag, as the document or the binary
item that it looks like, so what it comes back as is decided by the form it
was given. The forms are told apart: an integer is no double, an empty list
is no empty mapping, and the step of a path is an index exactly if it is a
number. Mappings come back because their entries were written in ascending
order, and the reader adds them one by one.
-/

namespace HaCluster

namespace Value

variable {p : Float → Prop}

/-- The double in a value, if it is one, has a property. -/
def floatIs (p : Float → Prop) : Value → Prop
  | .float x => p x
  | _ => True

/-! ## Integers -/

theorem int64_bounds (i : Int64) : -(twoTo 63 : Int) ≤ i.toInt ∧ i.toInt < (twoTo 63 : Int) := by
  have low := i.le_toInt
  have high := i.toInt_lt
  rw [twoTo_eq]
  push_cast
  omega

theorem value?_int (i : Int64) : Cbor.value? (.int i.toInt) = some (.int i) := by
  obtain ⟨low, high⟩ := int64_bounds i
  unfold Cbor.int
  split_ifs with sign
  · rw [Cbor.nat, Cbor.value?, if_pos (by omega), ← Int64.ofInt_eq_ofNat, Int.toNat_of_nonneg sign,
      Int64.ofInt_toInt]
  · rw [Cbor.value?, Int.toNat_of_nonneg (by omega), show -1 - (-1 - i.toInt) = i.toInt by omega,
      Int64.ofInt_toInt]

theorem ofNumber_int (i : Int64) : ofNumber (.integer i.toInt) = .int i := by
  rw [ofNumber, if_pos (int64_bounds i), Int64.ofInt_toInt]

/-! ## Binary items -/

mutual

/-- **A value comes back from its binary item.** -/
theorem value?_toCbor {v : Value} (sorted : v.Sorted) : Cbor.value? v.toCbor = some v := by
  cases v with
  | null => rfl
  | bool b => rfl
  | int i => exact value?_int i
  | float x => rfl
  | str s => rfl
  | list items => rw [toCbor, Cbor.value?, values?_toCborItems sorted.2]; rfl
  | map entries =>
    have all : Cbor.entries? [] (toCborEntries entries) = some ([] ++ entries) :=
      entries?_toCborEntries sorted.2 sorted.1
    rw [toCbor, Cbor.value?, all]
    rfl

theorem values?_toCborItems {items : List Value} (sorted : EverywhereItems isSorted items) :
    Cbor.values? (toCborItems items) = some items := by
  match items with
  | [] => rfl
  | v :: rest =>
    rw [toCborItems, Cbor.values?, value?_toCbor sorted.1, values?_toCborItems sorted.2]
    rfl

/-- The entries come back behind those that came before. -/
theorem entries?_toCborEntries {entries : List (String × Value)}
    (sorted : EverywhereEntries isSorted entries) {acc : List (String × Value)}
    (ascends : Entries.Sorted (acc ++ entries)) :
    Cbor.entries? acc (toCborEntries entries) = some (acc ++ entries) := by
  match entries with
  | [] => rw [List.append_nil]; rfl
  | (k, v) :: rest =>
    have added := Entries.insert_append ascends
    rw [toCborEntries, Cbor.entries?, Cbor.text?, value?_toCbor sorted.1, ← added]
    exact entries?_toCborEntries sorted.2 (added ▸ ascends)

end

/-! ## Documents -/

mutual

/-- **A value whose doubles are finite comes back from its document.** -/
theorem ofJson_toJson {v : Value} (sorted : v.Sorted)
    (finite : v.Everywhere (floatIs fun x => x.isFinite = true)) : ofJson v.toJson = v := by
  cases v with
  | null => rfl
  | bool b => rfl
  | int i => exact ofNumber_int i
  | float x =>
    have real : x.isFinite = true := finite
    rw [toJson, Json.real, if_pos real]
    rfl
  | str s => rfl
  | list items => rw [toJson, ofJson, ofJsonItems_toJsonItems sorted.2 finite.2]
  | map entries =>
    have all : ofJsonMembers [] (toJsonMembers entries) = [] ++ entries :=
      ofJsonMembers_toJsonMembers sorted.2 finite.2 sorted.1
    rw [toJson, ofJson, all]
    rfl

theorem ofJsonItems_toJsonItems {items : List Value} (sorted : EverywhereItems isSorted items)
    (finite : EverywhereItems (floatIs fun x => x.isFinite = true) items) :
    ofJsonItems (toJsonItems items) = items := by
  match items with
  | [] => rfl
  | v :: rest =>
    rw [toJsonItems, ofJsonItems, ofJson_toJson sorted.1 finite.1,
      ofJsonItems_toJsonItems sorted.2 finite.2]

/-- The entries come back behind those that came before. -/
theorem ofJsonMembers_toJsonMembers {entries : List (String × Value)}
    (sorted : EverywhereEntries isSorted entries)
    (finite : EverywhereEntries (floatIs fun x => x.isFinite = true) entries)
    {acc : List (String × Value)} (ascends : Entries.Sorted (acc ++ entries)) :
    ofJsonMembers acc (toJsonMembers entries) = acc ++ entries := by
  match entries with
  | [] => rw [List.append_nil]; rfl
  | (k, v) :: rest =>
    have added := Entries.insert_append ascends
    rw [toJsonMembers, ofJsonMembers, ofJson_toJson sorted.1 finite.1, ← added]
    exact ofJsonMembers_toJsonMembers sorted.2 finite.2 (added ▸ ascends)

end

mutual

/-- The numbers in the document for a value read back if its doubles do. -/
theorem plain_toJson {v : Value}
    (printer : v.Everywhere (floatIs fun x => x.isFinite = true → Json.ReadsBack x)) :
    v.toJson.Plain := by
  cases v with
  | null => trivial
  | bool b => trivial
  | int i =>
    obtain ⟨low, high⟩ := int64_bounds i
    exact ⟨low, Int.lt_of_lt_of_le high (by decide)⟩
  | float x =>
    rw [toJson, Json.real]
    split
    · rename_i finite
      exact printer finite
    · trivial
  | str s => trivial
  | list items => exact plainItems_toJsonItems printer.2
  | map entries => exact plainMembers_toJsonMembers printer.2

theorem plainItems_toJsonItems {items : List Value}
    (printer : EverywhereItems (floatIs fun x => x.isFinite = true → Json.ReadsBack x) items) :
    Json.PlainItems (toJsonItems items) := by
  match items with
  | [] => trivial
  | v :: rest => exact ⟨plain_toJson printer.1, plainItems_toJsonItems printer.2⟩

theorem plainMembers_toJsonMembers {entries : List (String × Value)}
    (printer : EverywhereEntries (floatIs fun x => x.isFinite = true → Json.ReadsBack x) entries) :
    Json.PlainMembers (toJsonMembers entries) := by
  match entries with
  | [] => trivial
  | (_, v) :: rest => exact ⟨plain_toJson printer.1, plainMembers_toJsonMembers printer.2⟩

end

mutual

/-- The numbers in the item for a value have the width the writer gives
them. -/
theorem plain_toCbor (v : Value) : v.toCbor.Plain := by
  cases v with
  | int i =>
    obtain ⟨low, high⟩ := int64_bounds i
    rw [toCbor, Cbor.int]
    split_ifs with sign
    · exact ⟨rfl, Nat.lt_trans (m := twoTo 63) (by omega) (by decide)⟩
    · show (-1 - i.toInt).toNat < twoTo 63
      omega
  | list items => exact plainItems_toCborItems items
  | map entries => exact plainEntries_toCborEntries entries
  | _ => trivial

theorem plainItems_toCborItems (items : List Value) : Cbor.PlainItems (toCborItems items) := by
  match items with
  | [] => trivial
  | v :: rest => exact ⟨plain_toCbor v, plainItems_toCborItems rest⟩

theorem plainEntries_toCborEntries (entries : List (String × Value)) :
    Cbor.PlainEntries (toCborEntries entries) := by
  match entries with
  | [] => trivial
  | (_, v) :: rest => exact ⟨trivial, plain_toCbor v, plainEntries_toCborEntries rest⟩

end

end Value

/-! ## Paths and fragments -/

/-- Reading one by one what was written one by one. -/
theorem mapM_map_pure {m : Type → Type} [Monad m] [LawfulMonad m] {α β : Type} {write : α → β}
    {read : β → m α} {l : List α} (each : ∀ a ∈ l, read (write a) = pure a) :
    (l.map write).mapM read = pure l := by
  induction l with
  | nil => simp
  | cons a l ih =>
    rw [List.map_cons, List.mapM_cons, each a List.mem_cons_self,
      ih fun b hb => each b (List.mem_cons_of_mem _ hb)]
    simp

/-- The index of a step has 64 bits. -/
def Segment.Fits : Segment → Prop
  | .index i => i < twoTo 64
  | .key _ => True

/-- **A step comes back from its document**: as an index if it is a number,
as a key if it is a text. -/
theorem Segment.decode_toJson {s : Segment} (fits : s.Fits) (o : Origin) :
    Segment.decode o s.toJson = .ok s := by
  cases s with
  | index i =>
    rw [Segment.toJson, Json.nat, Json.int, Segment.decode, if_pos ⟨Int.natCast_nonneg i, by
      exact_mod_cast fits⟩]
    rfl
  | key k => rfl

theorem Segment.plain_toJson {s : Segment} (fits : s.Fits) : s.toJson.Plain := by
  cases s with
  | index i =>
    have small : i < twoTo 64 := fits
    exact ⟨by omega, by exact_mod_cast small⟩
  | key k => trivial

theorem Path.decode_toJson {p : Path} (fits : ∀ s ∈ p, s.Fits) (o : Origin) :
    Path.decode o p.toJson = .ok p :=
  mapM_map_pure fun s hs => Segment.decode_toJson (fits s hs) o

namespace Fragment

variable {f : Fragment}

/-- **A fragment comes back from its document**: with a value exactly if it
had one, were it `null`. -/
theorem decode_toJson (fits : ∀ s ∈ f.path, s.Fits) (sorted : f.Everywhere Value.isSorted)
    (finite : f.Everywhere (Value.floatIs fun x => x.isFinite = true))
    (printer : f.Everywhere (Value.floatIs fun x => x.isFinite = true → Json.ReadsBack x))
    (o : Origin) : Fragment.decode o f.toJson = .ok f := by
  obtain ⟨p, value⟩ := f
  have path := Path.decode_toJson fits o
  cases value with
  | none =>
    show (Path.decode o p.toJson).bind _ = _
    rw [path]
    rfl
  | some v =>
    have whole := Json.isWhole_of_plain (Value.plain_toJson (printer v rfl))
    have back := Value.ofJson_toJson (sorted v rfl) (finite v rfl)
    show (Path.decode o p.toJson).bind (fun path => (Decode.value o v.toJson).bind _) = _
    rw [path, Decode.value, if_pos whole, back]
    rfl

theorem plain_toJson (fits : ∀ s ∈ f.path, s.Fits)
    (printer : f.Everywhere (Value.floatIs fun x => x.isFinite = true → Json.ReadsBack x)) :
    f.toJson.Plain := by
  obtain ⟨p, value⟩ := f
  have path : p.toJson.Plain := Json.plainItems_map fun s hs => Segment.plain_toJson (fits s hs)
  cases value with
  | none => exact ⟨path, trivial⟩
  | some v => exact ⟨path, Value.plain_toJson (printer v rfl), trivial⟩

end Fragment

end HaCluster
