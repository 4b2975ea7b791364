import HaCluster.Proofs.Cbor.Float

/-!
# Items that are read back

An item whose numbers have the width that the writer gives them is read back
from its bytes, with whatever follows left over (`readItem_encode`). The
induction is on the item. Each byte of an item pays for the fuel that its
reading takes twice over, and each container takes one level of the depth.
-/

namespace HaCluster.Cbor

/-! ## Texts -/

/-- The bytes of an array, listed from a place on. -/
theorem toList_loop (bytes : ByteArray) (i : Nat) (r : List UInt8) :
    ByteArray.toList.loop bytes i r = r.reverse ++ bytes.data.toList.drop i := by
  fun_induction ByteArray.toList.loop bytes i r with
  | case1 i r inside ih =>
    have bound : i < bytes.data.toList.length := inside
    have item : bytes.get! i = bytes.data.toList[i] := by
      simp [ByteArray.get!, inside]
    rw [ih, item, List.reverse_cons, List.append_assoc, List.drop_eq_getElem_cons bound]
    rfl
  | case2 i r outside =>
    have bound : bytes.data.toList.length ≤ i := Nat.le_of_not_lt outside
    rw [List.drop_eq_nil_of_le bound, List.append_nil]

/-- **A text is read back from its bytes.** -/
theorem utf8?_toUTF8 (s : String) : utf8? s.toUTF8.toList = some s := by
  have bytes : (⟨s.toUTF8.toList.toArray⟩ : ByteArray) = s.toUTF8 := by
    rw [ByteArray.toList, toList_loop]
    rfl
  have valid : s.toUTF8.IsValidUTF8 := s.isValidUTF8
  rw [utf8?, bytes, String.fromUTF8?, dif_pos valid]
  rfl

/-! ## Items as they are written -/

mutual

/-- The numbers of an item have 64 bits and the width that the writer gives
them. -/
def Plain : Cbor → Prop
  | .unsigned w n => w = .narrowest n ∧ n < twoTo 64
  | .negative n => n < twoTo 63
  | .array items => PlainItems items
  | .map entries => PlainEntries entries
  | _ => True

/-- The numbers in all items have the width that the writer gives them. -/
def PlainItems : List Cbor → Prop
  | [] => True
  | c :: rest => Plain c ∧ PlainItems rest

/-- The numbers in all entries have the width that the writer gives them. -/
def PlainEntries : List (Cbor × Cbor) → Prop
  | [] => True
  | (k, c) :: rest => Plain k ∧ Plain c ∧ PlainEntries rest

end

theorem plainItems_map {α : Type} {write : α → Cbor} {l : List α}
    (each : ∀ a ∈ l, Plain (write a)) : PlainItems (l.map write) := by
  induction l with
  | nil => trivial
  | cons a l ih =>
    exact ⟨each a List.mem_cons_self, ih fun b hb => each b (List.mem_cons_of_mem _ hb)⟩

mutual

/-- How many containers are nested in one another. -/
def nesting : Cbor → Nat
  | .array items => nestingItems items + 1
  | .map entries => nestingEntries entries + 1
  | _ => 0

/-- How many containers are nested in one another within the items. -/
def nestingItems : List Cbor → Nat
  | [] => 0
  | c :: rest => max (nesting c) (nestingItems rest)

/-- How many containers are nested in one another within the entries. -/
def nestingEntries : List (Cbor × Cbor) → Nat
  | [] => 0
  | (k, c) :: rest => max (max (nesting k) (nesting c)) (nestingEntries rest)

end

/-! ## Reading what was written -/

theorem length_head_pos (major n : Nat) (w : Width) : 0 < (head major w n).length := by
  unfold head
  cases w with
  | one =>
    dsimp only
    split <;> simp
  | _ => simp

theorem length_floatBytes_pos (x : Float) : 0 < (floatBytes x).length := by
  unfold floatBytes
  split
  · decide
  · split
    · split <;> decide
    · split
      · simp
      · split <;> simp

/-- Every item has a byte. -/
theorem length_encode_pos (c : Cbor) : 0 < (encode c).length := by
  cases c with
  | unsigned w n => exact length_head_pos 0 n w
  | bool b => cases b <;> decide
  | null => decide
  | float x => exact length_floatBytes_pos x
  | negative n => exact length_head_pos 1 n _
  | bytes bs =>
    rw [encode, List.length_append]
    exact Nat.add_pos_left (length_head_pos ..) _
  | text s =>
    rw [encode, List.length_append]
    exact Nat.add_pos_left (length_head_pos ..) _
  | array items =>
    rw [encode, List.length_append]
    exact Nat.add_pos_left (length_head_pos ..) _
  | map entries =>
    rw [encode, List.length_append]
    exact Nat.add_pos_left (length_head_pos ..) _

/-- There are no more items than bytes. -/
theorem length_le_encodeItems (items : List Cbor) :
    items.length ≤ (encodeItems items).length := by
  induction items with
  | nil => exact Nat.zero_le _
  | cons c rest ih =>
    have := length_encode_pos c
    rw [encodeItems, List.length_append, List.length_cons]
    omega

/-- There are no more entries than bytes. -/
theorem length_le_encodeEntries (entries : List (Cbor × Cbor)) :
    entries.length ≤ (encodeEntries entries).length := by
  induction entries with
  | nil => exact Nat.zero_le _
  | cons e rest ih =>
    obtain ⟨k, c⟩ := e
    have := length_encode_pos k
    rw [encodeEntries, List.length_append, List.length_append, List.length_cons]
    omega

/-! ### One item, if its content is read -/

section Item

variable {fuel depth : Nat} {rest : List UInt8}

theorem readItem_unsigned {n : Nat} (small : n < twoTo 64) :
    readItem (fuel + 1) depth (encode (.nat n) ++ rest) = some (.nat n, rest) := by
  obtain ⟨b, head, head_eq, major_eq, -, reads⟩ :=
    readNumber_shortHead (show 0 < 8 by decide) small
  rw [shortHead] at head_eq
  simp only [nat, encode, head_eq, List.cons_append, readItem, major_eq, reads, Option.map_some]

theorem readItem_negative {n : Nat} (small : n < twoTo 63) :
    readItem (fuel + 1) depth (encode (.negative n) ++ rest) = some (.negative n, rest) := by
  obtain ⟨b, head, head_eq, major_eq, -, reads⟩ :=
    readNumber_shortHead (show 1 < 8 by decide) (Nat.lt_trans small (by decide))
  simp only [encode, head_eq, List.cons_append, readItem, major_eq, reads, Option.pure_def,
    Option.bind_eq_bind, Option.bind_some]
  exact if_pos small

theorem readItem_bytes {bs : List UInt8} (short : bs.length < twoTo 64) :
    readItem (fuel + 1) depth (encode (.bytes bs) ++ rest) = some (.bytes bs, rest) := by
  obtain ⟨b, head, head_eq, major_eq, low_ne, reads⟩ :=
    readNumber_shortHead (show 2 < 8 by decide) short
  simp only [encode, head_eq, List.cons_append, List.append_assoc, readItem, major_eq,
    if_neg low_ne, reads]
  simp [takeBytes_append]

theorem readItem_text {s : String} (short : s.toUTF8.toList.length < twoTo 64) :
    readItem (fuel + 1) depth (encode (.text s) ++ rest) = some (.text s, rest) := by
  obtain ⟨b, head, head_eq, major_eq, low_ne, reads⟩ :=
    readNumber_shortHead (show 3 < 8 by decide) short
  simp only [encode, head_eq, List.cons_append, List.append_assoc, readItem, major_eq,
    if_neg low_ne, reads]
  simp [takeBytes_append, utf8?_toUTF8, -String.toUTF8_eq_toByteArray]

/-- An array is read back if its items are, one level further down. -/
theorem readItem_array {items : List Cbor} (short : items.length < twoTo 64)
    (content : readItems fuel depth (some items.length) (encodeItems items ++ rest)
      = some (items, rest)) :
    readItem (fuel + 1) (depth + 1) (encode (.array items) ++ rest)
      = some (.array items, rest) := by
  obtain ⟨b, head, head_eq, major_eq, low_ne, reads⟩ :=
    readNumber_shortHead (show 4 < 8 by decide) short
  simp only [encode, head_eq, List.cons_append, List.append_assoc, readItem, major_eq,
    if_neg low_ne, reads]
  simp [content]

/-- A map is read back if its entries are, one level further down. -/
theorem readItem_map {entries : List (Cbor × Cbor)} (short : entries.length < twoTo 64)
    (content : readEntries fuel depth (some entries.length) (encodeEntries entries ++ rest)
      = some (entries, rest)) :
    readItem (fuel + 1) (depth + 1) (encode (.map entries) ++ rest)
      = some (.map entries, rest) := by
  obtain ⟨b, head, head_eq, major_eq, low_ne, reads⟩ :=
    readNumber_shortHead (show 5 < 8 by decide) short
  simp only [encode, head_eq, List.cons_append, List.append_assoc, readItem, major_eq,
    if_neg low_ne, reads]
  simp [content]

end Item

/-! ### Items in one another -/

mutual

/-- **An item is read back from its bytes**, and what follows them is left
over. -/
theorem readItem_encode {c : Cbor} (plain : Plain c) {fuel depth : Nat}
    (nested : nesting c ≤ depth) (fueled : 2 * (encode c).length ≤ fuel)
    (fits : (encode c).length < twoTo 64) (rest : List UInt8) :
    readItem fuel depth (encode c ++ rest) = some (c, rest) := by
  obtain ⟨fuel, rfl⟩ : ∃ n, fuel = n + 1 :=
    Nat.exists_eq_succ_of_ne_zero (by have := length_encode_pos c; omega)
  cases c with
  | unsigned w n =>
    obtain ⟨rfl, small⟩ := plain
    exact readItem_unsigned small
  | negative n => exact readItem_negative plain
  | bytes bs =>
    rw [encode, List.length_append] at fits
    exact readItem_bytes (by omega)
  | text s =>
    simp only [encode, List.length_append] at fits
    exact readItem_text (by omega)
  | array items =>
    have counted := length_le_encodeItems items
    have headed := length_head_pos 4 items.length (.narrowest items.length)
    rw [← shortHead] at headed
    rw [encode, List.length_append] at fits fueled
    obtain ⟨depth, rfl⟩ : ∃ n, depth = n + 1 :=
      Nat.exists_eq_succ_of_ne_zero (by rw [nesting] at nested; omega)
    exact readItem_array (by omega) (readItems_encode plain (Nat.le_of_succ_le_succ nested)
      (show 2 * (encodeItems items).length + 1 ≤ fuel by omega) (by omega) rest)
  | map entries =>
    have counted := length_le_encodeEntries entries
    have headed := length_head_pos 5 entries.length (.narrowest entries.length)
    rw [← shortHead] at headed
    rw [encode, List.length_append] at fits fueled
    obtain ⟨depth, rfl⟩ : ∃ n, depth = n + 1 :=
      Nat.exists_eq_succ_of_ne_zero (by rw [nesting] at nested; omega)
    exact readItem_map (by omega) (readEntries_encode plain (Nat.le_of_succ_le_succ nested)
      (show 2 * (encodeEntries entries).length + 1 ≤ fuel by omega) (by omega) rest)
  | bool b => cases b <;> simp [encode, readItem]
  | null => simp [encode, readItem]
  | float x => exact readItem_floatBytes x fuel depth rest

/-- The items of an array are read back. -/
theorem readItems_encode {items : List Cbor} (plain : PlainItems items) {fuel depth : Nat}
    (nested : nestingItems items ≤ depth) (fueled : 2 * (encodeItems items).length + 1 ≤ fuel)
    (fits : (encodeItems items).length < twoTo 64) (rest : List UInt8) :
    readItems fuel depth (some items.length) (encodeItems items ++ rest) = some (items, rest) := by
  obtain ⟨fuel, rfl⟩ : ∃ n, fuel = n + 1 := Nat.exists_eq_succ_of_ne_zero (by omega)
  match items with
  | [] => rfl
  | c :: more =>
    have pos := length_encode_pos c
    rw [encodeItems, List.length_append] at fits fueled
    rw [nestingItems, Nat.max_le] at nested
    have first := readItem_encode plain.1 nested.1 (show _ ≤ fuel by omega) (by omega)
      (encodeItems more ++ rest)
    have others := readItems_encode plain.2 nested.2 (show _ ≤ fuel by omega) (by omega) rest
    simp [encodeItems, readItems, first, others]

/-- The entries of a map are read back. -/
theorem readEntries_encode {entries : List (Cbor × Cbor)} (plain : PlainEntries entries)
    {fuel depth : Nat} (nested : nestingEntries entries ≤ depth)
    (fueled : 2 * (encodeEntries entries).length + 1 ≤ fuel)
    (fits : (encodeEntries entries).length < twoTo 64) (rest : List UInt8) :
    readEntries fuel depth (some entries.length) (encodeEntries entries ++ rest)
      = some (entries, rest) := by
  obtain ⟨fuel, rfl⟩ : ∃ n, fuel = n + 1 := Nat.exists_eq_succ_of_ne_zero (by omega)
  match entries with
  | [] => rfl
  | (k, c) :: more =>
    have pos := length_encode_pos k
    rw [encodeEntries, List.length_append, List.length_append] at fits fueled
    rw [nestingEntries, Nat.max_le, Nat.max_le] at nested
    have key := readItem_encode plain.1 nested.1.1 (show _ ≤ fuel by omega) (by omega)
      (encode c ++ (encodeEntries more ++ rest))
    have item := readItem_encode plain.2.1 nested.1.2 (show _ ≤ fuel by omega) (by omega)
      (encodeEntries more ++ rest)
    have others := readEntries_encode plain.2.2 nested.2 (show _ ≤ fuel by omega) (by omega) rest
    simp [encodeEntries, readEntries, key, item, others]

end

/-- **Bytes that were written for one item are that item.** -/
theorem read?_encode {c : Cbor} (plain : Plain c) (nested : nesting c ≤ maxDepth)
    (fits : (encode c).length < twoTo 64) : read? (encode c) = some c := by
  have whole := readItem_encode plain nested (show _ ≤ 2 * (encode c).length + 2 by omega) fits []
  rw [List.append_nil] at whole
  rw [read?, whole]

end HaCluster.Cbor
