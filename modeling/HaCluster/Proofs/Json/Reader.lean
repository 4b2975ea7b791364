import HaCluster.Proofs.Json.Number

/-!
# Documents that are read back

A document whose numbers read back is read from its text, and what follows it
is left over (`readValue_text`). The induction is on the document. A text
pays twice over for the fuel that its reading takes, and a container takes
one level of the depth.

The reader never fails, so a document that is read is also whole: nothing in
it is cut off or unreadable (`isWhole_of_plain`).
-/

namespace HaCluster.Json

/-! ## Texts in quotes -/

/-- The two digits of a control character. -/
theorem hex4?_hexDigit : ∀ n < 32, hex4? '0' '0' (hexDigit (n / 16)) (hexDigit n) = some n := by
  decide

/-- A code unit that is no half of a pair is a character. -/
theorem joinPieces_unit {n : Nat} (small : n < 0xD800) (ps : List Piece) :
    joinPieces (.unit n :: ps) = (joinPieces ps).map (Char.ofNat n :: ·) := by
  match ps with
  | [] =>
    simp only [joinPieces]
    rw [if_neg (by omega)]
  | .char c :: ps =>
    simp only [joinPieces]
    rw [if_neg (by omega)]
  | .unit m :: ps =>
    rw [joinPieces, if_neg (by omega), if_neg (by omega)]

/-- **A character is read back** however it was written: as itself, or as one
of the two kinds of escapes. -/
theorem readPieces_escapeChar (c : Char) :
    ∃ p, (∀ rest, readPieces (escapeChar c ++ rest)
        = (readPieces rest).map fun r => (p :: r.1, r.2))
      ∧ ∀ ps, joinPieces (p :: ps) = (joinPieces ps).map (c :: ·) := by
  unfold escapeChar
  split_ifs with quote backslash newline ret tab back feed control
  · subst quote
    exact ⟨.char '"', fun rest => by simp [readPieces, escaped?], fun ps => rfl⟩
  · subst backslash
    exact ⟨.char '\\', fun rest => by simp [readPieces, escaped?], fun ps => rfl⟩
  · subst newline
    exact ⟨.char '\n', fun rest => by simp [readPieces, escaped?], fun ps => rfl⟩
  · subst ret
    exact ⟨.char '\r', fun rest => by simp [readPieces, escaped?], fun ps => rfl⟩
  · subst tab
    exact ⟨.char '\t', fun rest => by simp [readPieces, escaped?], fun ps => rfl⟩
  · have c_eq : c = Char.ofNat 8 := by rw [← back, Char.ofNat_toNat]
    subst c_eq
    exact ⟨.char (Char.ofNat 8), fun rest => by simp [readPieces, escaped?], fun ps => rfl⟩
  · have c_eq : c = Char.ofNat 12 := by rw [← feed, Char.ofNat_toNat]
    subst c_eq
    exact ⟨.char (Char.ofNat 12), fun rest => by simp [readPieces, escaped?], fun ps => rfl⟩
  · refine ⟨.unit c.toNat, fun rest => ?_, fun ps => ?_⟩
    · simp only [List.cons_append, List.nil_append, readPieces, hex4?_hexDigit c.toNat control]
    · rw [joinPieces_unit (by omega), Char.ofNat_toNat]
  · refine ⟨.char c, fun rest => ?_, fun ps => rfl⟩
    rw [List.cons_append, List.nil_append, readPieces]
    · rw [if_neg (by simp [control, backslash])]
    all_goals
      simp_all

/-- The pieces of a text in quotes make the text again. -/
theorem readPieces_quoted (cs : List Char) :
    ∃ ps, joinPieces ps = some cs
      ∧ ∀ rest, readPieces (cs.flatMap escapeChar ++ '"' :: rest) = some (ps, rest) := by
  induction cs with
  | nil => exact ⟨[], rfl, fun rest => rfl⟩
  | cons c cs ih =>
    obtain ⟨ps, joined, read⟩ := ih
    obtain ⟨p, first, joinFirst⟩ := readPieces_escapeChar c
    refine ⟨p :: ps, by rw [joinFirst, joined]; rfl, fun rest => ?_⟩
    rw [List.flatMap_cons, List.append_assoc, first, read]
    rfl

/-! ## Documents whose numbers read back -/

mutual

/-- The document is whole and its numbers read back: integers have 64 bits,
and the text of each double gives it again. -/
def Plain : Json → Prop
  | .number (.integer n) => -twoTo 63 ≤ n ∧ n < twoTo 64
  | .number (.real x) => ReadsBack x
  | .array items => PlainItems items
  | .object members => PlainMembers members
  | .cut => False
  | .unreadable => False
  | _ => True

/-- The numbers in all items read back. -/
def PlainItems : List Json → Prop
  | [] => True
  | j :: rest => Plain j ∧ PlainItems rest

/-- The numbers in all members read back. -/
def PlainMembers : List (String × Json) → Prop
  | [] => True
  | (_, j) :: rest => Plain j ∧ PlainMembers rest

end

theorem plainItems_map {α : Type} {write : α → Json} {l : List α}
    (each : ∀ a ∈ l, Plain (write a)) : PlainItems (l.map write) := by
  induction l with
  | nil => trivial
  | cons a l ih =>
    exact ⟨each a List.mem_cons_self, ih fun b hb => each b (List.mem_cons_of_mem _ hb)⟩

mutual

/-- How many containers are nested in one another. -/
def nesting : Json → Nat
  | .array items => nestingItems items + 1
  | .object members => nestingMembers members + 1
  | _ => 0

/-- How many containers are nested in one another within the items. -/
def nestingItems : List Json → Nat
  | [] => 0
  | j :: rest => max (nesting j) (nestingItems rest)

/-- How many containers are nested in one another within the members. -/
def nestingMembers : List (String × Json) → Nat
  | [] => 0
  | (_, j) :: rest => max (nesting j) (nestingMembers rest)

end

mutual

/-- A document whose numbers read back is a value throughout. -/
theorem isWhole_of_plain {j : Json} (plain : Plain j) : isWhole j = true := by
  match j with
  | .null => rfl
  | .bool _ => rfl
  | .number _ => rfl
  | .string _ => rfl
  | .array items => exact areWhole_of_plain plain
  | .object members => exact membersWhole_of_plain plain
  | .cut => exact plain.elim
  | .unreadable => exact plain.elim

theorem areWhole_of_plain {items : List Json} (plain : PlainItems items) :
    areWhole items = true := by
  match items with
  | [] => rfl
  | j :: rest =>
    rw [areWhole, isWhole_of_plain plain.1, areWhole_of_plain plain.2]
    rfl

theorem membersWhole_of_plain {members : List (String × Json)} (plain : PlainMembers members) :
    membersWhole members = true := by
  match members with
  | [] => rfl
  | (_, j) :: rest =>
    rw [membersWhole, isWhole_of_plain plain.1, membersWhole_of_plain plain.2]
    rfl

end

/-! ## How texts begin -/

/-- A character that may begin a value: no blank and no bracket that closes. -/
def Begins (cs : List Char) : Prop :=
  ∃ c tail, cs = c :: tail ∧ isBlank c = false ∧ c ≠ ']'

theorem Begins.skipBlanks {cs : List Char} (h : Begins cs) (rest : List Char) :
    skipBlanks (cs ++ rest) = cs ++ rest := by
  obtain ⟨c, tail, rfl, blank, -⟩ := h
  simp [Json.skipBlanks, blank]

/-- A numeral begins with a digit or a sign. -/
theorem head_of_readNumeral {cs : List Char} {r : Numeral × List Char}
    (read : readNumeral cs = some r) :
    ∃ c tail, cs = c :: tail ∧ (c.isDigit = true ∨ c = '-') := by
  cases cs with
  | nil => cases read
  | cons c tail =>
    refine ⟨c, tail, rfl, ?_⟩
    by_contra other
    rw [not_or] at other
    rw [readNumeral_of_ne (by simpa using other.2)] at read
    obtain ⟨w, whole, -⟩ := Option.bind_eq_some_iff.1 read
    have none : takeDigits (c :: tail) = ([], c :: tail) := by simp [takeDigits, other.1]
    rw [readWhole, none] at whole
    cases whole

/-- What begins a numeral begins nothing else. -/
theorem ne_of_numeral {c : Char} (h : c.isDigit = true ∨ c = '-') :
    isBlank c = false ∧ c ∉ ['n', 't', 'f', '"', '[', '\x7b', ']'] := by
  rcases h with digit | rfl
  · refine ⟨?_, ?_⟩
    · unfold isBlank
      simp only [Bool.or_eq_false_iff, decide_eq_false_iff_not]
      refine ⟨⟨⟨?_, ?_⟩, ?_⟩, ?_⟩ <;> rintro rfl <;> exact absurd digit (by decide)
    · intro mem
      simp only [List.mem_cons, List.not_mem_nil, or_false] at mem
      rcases mem with rfl | rfl | rfl | rfl | rfl | rfl | rfl <;> exact absurd digit (by decide)
  · decide

theorem toList_quote (s : String) :
    (quote s).toList = '"' :: (s.toList.flatMap escapeChar ++ ['"']) := by
  rw [quote, String.toList_ofList]
  rfl

/-- The text of a number is a numeral with that number as its value. -/
theorem exists_numeral {x : Number} (plain : Plain (.number x)) :
    ∃ n, readNumeral x.text.toList = some (n, []) ∧ n.value? = some x := by
  cases x with
  | integer n => exact ⟨integerNumeral n, readNumeral_toString n,
      value?_integerNumeral plain.1 plain.2⟩
  | real x => exact ReadsBack.value? plain

/-- The text of a document begins a value. -/
theorem begins_text {j : Json} (plain : Plain j) : Begins (text j).toList := by
  cases j with
  | null => exact ⟨_, _, rfl, rfl, by decide⟩
  | bool b => cases b <;> exact ⟨_, _, rfl, rfl, by decide⟩
  | number x =>
    obtain ⟨n, read, -⟩ := exists_numeral plain
    obtain ⟨c, tail, text_eq, first⟩ := head_of_readNumeral read
    obtain ⟨blank, ne⟩ := ne_of_numeral first
    exact ⟨c, tail, text_eq, blank, fun h => ne (by simp [h])⟩
  | string s => exact ⟨_, _, toList_quote s, rfl, by decide⟩
  | array items => exact ⟨'[', _, by simp [text]; rfl, rfl, by decide⟩
  | object members => exact ⟨'\x7b', _, by simp [text]; rfl, rfl, by decide⟩
  | cut => exact plain.elim
  | unreadable => exact plain.elim

/-- A numeral with a value is read as a number. -/
theorem readValue_numeral {cs rest : List Char} {n : Numeral} {x : Number} (ends : Ends rest)
    (read : readNumeral cs = some (n, [])) (value : n.value? = some x) (fuel depth : Nat) :
    readValue (fuel + 1) depth (cs ++ rest) = (.number x, some rest) := by
  have read_rest : readNumeral (cs ++ rest) = some (n, rest) := by
    rw [readNumeral_append ends, read]
    rfl
  obtain ⟨c, tail, rfl, first⟩ := head_of_readNumeral read
  obtain ⟨blank, ne⟩ := ne_of_numeral first
  have start : skipBlanks (c :: tail ++ rest) = c :: (tail ++ rest) := by
    simp [skipBlanks, blank]
  unfold readValue
  rw [start]
  split
  case h_7 =>
    rw [List.cons_append] at read_rest
    simp only [read_rest, value]
  all_goals
    rename_i h
    exact absurd (List.cons.inj h).1 (fun h => ne (by simp [h]))

theorem toList_itemsText_cons (j : Json) {more : List Json} (ne : more ≠ []) :
    (itemsText (j :: more)).toList = (text j).toList ++ ',' :: (itemsText more).toList := by
  cases more with
  | nil => exact absurd rfl ne
  | cons next more => simp [itemsText]

/-- The text of a member. -/
def memberText (e : String × Json) : List Char :=
  '"' :: (e.1.toList.flatMap escapeChar ++ '"' :: ':' :: (text e.2).toList)

theorem toList_membersText_singleton (e : String × Json) :
    (membersText [e]).toList = memberText e := by
  obtain ⟨k, j⟩ := e
  simp [membersText, toList_quote, memberText]

theorem toList_membersText_cons (e : String × Json) {more : List (String × Json)}
    (ne : more ≠ []) :
    (membersText (e :: more)).toList = memberText e ++ ',' :: (membersText more).toList := by
  obtain ⟨k, j⟩ := e
  cases more with
  | nil => exact absurd rfl ne
  | cons next more => simp [membersText, toList_quote, memberText]

theorem toList_text_array (items : List Json) :
    (text (.array items)).toList = '[' :: ((itemsText items).toList ++ [']']) := by
  simp [text]

theorem toList_text_object (members : List (String × Json)) :
    (text (.object members)).toList = '\x7b' :: ((membersText members).toList ++ ['\x7d']) := by
  simp [text]

theorem begins_itemsText {items : List Json} (plain : PlainItems items) (ne : items ≠ []) :
    Begins (itemsText items).toList := by
  match items with
  | [] => exact absurd rfl ne
  | [j] => exact begins_text plain.1
  | j :: next :: more =>
    obtain ⟨c, tail, text_eq, first⟩ := begins_text plain.1
    rw [toList_itemsText_cons j (List.cons_ne_nil next more), text_eq]
    exact ⟨c, _, rfl, first⟩

theorem head_membersText {members : List (String × Json)} (ne : members ≠ []) :
    ∃ tail, (membersText members).toList = '"' :: tail := by
  match members with
  | [] => exact absurd rfl ne
  | [e] => exact ⟨_, toList_membersText_singleton e⟩
  | e :: next :: more => exact ⟨_, toList_membersText_cons e (List.cons_ne_nil next more)⟩

/-! ## Reading what was written -/

theorem container_of_lt {depth : Nat} (h : depth < maxDepth) (j : Json)
    (rest : Option (List Char)) : container depth j rest = (j, rest) :=
  if_pos h

/-- The name of a member is read back. -/
theorem member_of_joined {ps : List Piece} {name : String} (joined : joinPieces ps = some name.toList)
    (item : Json) : member ps item = (name, item) := by
  rw [member, joined]
  simp

theorem skipBlanks_cons {c : Char} (blank : isBlank c = false) (rest : List Char) :
    skipBlanks (c :: rest) = c :: rest := by
  simp [skipBlanks, blank]

section Value

variable {fuel depth : Nat} {rest : List Char}

theorem readValue_string (s : String) :
    readValue (fuel + 1) depth ((text (.string s)).toList ++ rest) = (.string s, some rest) := by
  obtain ⟨ps, joined, read⟩ := readPieces_quoted s.toList
  rw [text, toList_quote, List.cons_append, List.append_assoc, readValue,
    skipBlanks_cons (by decide)]
  simp [read, joined]

/-- An array is read back if its items are, one level further down. -/
theorem readValue_array {items : List Json} (plain : PlainItems items) (level : depth < maxDepth)
    (content : items ≠ [] → readItems fuel (depth + 1) ((itemsText items).toList ++ ']' :: rest)
      = (items, some rest)) :
    readValue (fuel + 1) depth ((text (.array items)).toList ++ rest)
      = (.array items, some rest) := by
  rw [toList_text_array, readValue, List.cons_append, skipBlanks_cons (by decide)]
  simp only [List.append_assoc, List.cons_append, List.nil_append]
  by_cases ne : items = []
  · subst ne
    exact container_of_lt level _ _
  · have begins := begins_itemsText plain ne
    have items_eq := content ne
    rw [begins.skipBlanks]
    obtain ⟨c, tail, text_eq, -, ne⟩ := begins
    rw [text_eq] at items_eq ⊢
    split
    · rename_i h
      exact absurd (List.cons.inj h).1 ne
    · rw [items_eq]
      exact container_of_lt level _ _

/-- An object is read back if its members are, one level further down. -/
theorem readValue_object {members : List (String × Json)} (level : depth < maxDepth)
    (content : members ≠ [] →
      readMembers fuel (depth + 1) ((membersText members).toList ++ '\x7d' :: rest)
        = (members, some rest)) :
    readValue (fuel + 1) depth ((text (.object members)).toList ++ rest)
      = (.object members, some rest) := by
  rw [toList_text_object, readValue, List.cons_append, skipBlanks_cons (by decide)]
  simp only [List.append_assoc, List.cons_append, List.nil_append]
  by_cases ne : members = []
  · subst ne
    exact container_of_lt level _ _
  · obtain ⟨tail, text_eq⟩ := head_membersText ne
    have members_eq := content ne
    rw [text_eq, List.cons_append] at members_eq ⊢
    rw [skipBlanks_cons (by decide)]
    split
    · rename_i h
      exact absurd (List.cons.inj h).1 (by decide)
    · rw [members_eq]
      exact container_of_lt level _ _

end Value

mutual

/-- **A document is read back from its text**, and what follows it is left
over. -/
theorem readValue_text {j : Json} (plain : Plain j) {fuel depth : Nat}
    (nested : nesting j + depth ≤ maxDepth) (fueled : 2 * (text j).toList.length ≤ fuel)
    {rest : List Char} (ends : Ends rest) :
    readValue fuel depth ((text j).toList ++ rest) = (j, some rest) := by
  obtain ⟨fuel, rfl⟩ : ∃ n, fuel = n + 1 := by
    obtain ⟨c, tail, text_eq, -⟩ := begins_text plain
    rw [text_eq, List.length_cons] at fueled
    exact Nat.exists_eq_succ_of_ne_zero (by omega)
  cases j with
  | null => rfl
  | bool b => cases b <;> rfl
  | number x =>
    obtain ⟨n, read, value⟩ := exists_numeral plain
    exact readValue_numeral ends read value fuel depth
  | string s => exact readValue_string s
  | array items =>
    rw [nesting] at nested
    rw [toList_text_array, List.length_cons, List.length_append] at fueled
    have deeper : nestingItems items + (depth + 1) ≤ maxDepth := by omega
    exact readValue_array plain (by omega) fun ne =>
      readItems_text plain ne deeper (show _ ≤ fuel by omega) rest
  | object members =>
    rw [nesting] at nested
    rw [toList_text_object, List.length_cons, List.length_append] at fueled
    have deeper : nestingMembers members + (depth + 1) ≤ maxDepth := by omega
    exact readValue_object (by omega) fun ne =>
      readMembers_text plain ne deeper (show _ ≤ fuel by omega) rest
  | cut => exact plain.elim
  | unreadable => exact plain.elim

/-- The items of an array are read back. -/
theorem readItems_text {items : List Json} (plain : PlainItems items) (ne : items ≠ [])
    {fuel depth : Nat} (nested : nestingItems items + depth ≤ maxDepth)
    (fueled : 2 * (itemsText items).toList.length + 1 ≤ fuel) (rest : List Char) :
    readItems fuel depth ((itemsText items).toList ++ ']' :: rest) = (items, some rest) := by
  obtain ⟨fuel, rfl⟩ : ∃ n, fuel = n + 1 := Nat.exists_eq_succ_of_ne_zero (by omega)
  match items with
  | [] => exact absurd rfl ne
  | j :: more =>
    rw [nestingItems] at nested
    have item (h : 2 * (text j).toList.length ≤ fuel) {rest : List Char} (ends : Ends rest) :
        readValue fuel depth ((text j).toList ++ rest) = (j, some rest) :=
      readValue_text plain.1 (by omega) h ends
    by_cases last : more = []
    · subst last
      rw [itemsText] at fueled ⊢
      rw [readItems, item (by omega) (ends_cons (by simp))]
      rfl
    · rw [toList_itemsText_cons j last, List.length_append, List.length_cons] at fueled
      have level : nestingItems more + depth ≤ maxDepth := by omega
      have others := readItems_text plain.2 last level (show _ ≤ fuel by omega) rest
      rw [toList_itemsText_cons j last, List.append_assoc, List.cons_append, readItems,
        item (by omega) (ends_cons (by simp))]
      simp only [skipBlanks_cons (show isBlank ',' = false from rfl), others]

/-- The members of an object are read back. -/
theorem readMembers_text {members : List (String × Json)} (plain : PlainMembers members)
    (ne : members ≠ []) {fuel depth : Nat} (nested : nestingMembers members + depth ≤ maxDepth)
    (fueled : 2 * (membersText members).toList.length + 1 ≤ fuel) (rest : List Char) :
    readMembers fuel depth ((membersText members).toList ++ '\x7d' :: rest)
      = (members, some rest) := by
  obtain ⟨fuel, rfl⟩ : ∃ n, fuel = n + 1 := Nat.exists_eq_succ_of_ne_zero (by omega)
  match members with
  | [] => exact absurd rfl ne
  | (k, j) :: more =>
    rw [nestingMembers] at nested
    obtain ⟨ps, joined, name⟩ := readPieces_quoted k.toList
    have item (h : 2 * (text j).toList.length ≤ fuel) {rest : List Char} (ends : Ends rest) :
        readValue fuel depth ((text j).toList ++ rest) = (j, some rest) :=
      readValue_text plain.1 (by omega) h ends
    by_cases last : more = []
    · subst last
      rw [toList_membersText_singleton] at fueled ⊢
      simp only [memberText, List.length_cons, List.length_append] at fueled
      simp only [memberText, List.cons_append, List.append_assoc]
      rw [readMembers, skipBlanks_cons (by decide)]
      simp only [name, skipBlanks_cons (show isBlank ':' = false from rfl)]
      rw [item (by omega) (ends_cons (by simp))]
      simp only [skipBlanks_cons (show isBlank '\x7d' = false from rfl), member_of_joined joined]
    · rw [toList_membersText_cons _ last, List.length_append, List.length_cons] at fueled
      simp only [memberText, List.length_cons, List.length_append] at fueled
      have level : nestingMembers more + depth ≤ maxDepth := by omega
      have others := readMembers_text plain.2 last level (show _ ≤ fuel by omega) rest
      rw [toList_membersText_cons _ last, List.append_assoc, List.cons_append]
      simp only [memberText, List.cons_append, List.append_assoc]
      rw [readMembers, skipBlanks_cons (by decide)]
      simp only [name, skipBlanks_cons (show isBlank ':' = false from rfl)]
      rw [item (by omega) (ends_cons (by simp))]
      simp only [skipBlanks_cons (show isBlank ',' = false from rfl), member_of_joined joined,
        others]

end

/-- **A text that was written for a document is that document**, and nothing
follows it. -/
theorem read_text {j : Json} (plain : Plain j) (nested : nesting j ≤ maxDepth) :
    read (text j) = (j, true) := by
  have whole := readValue_text plain (show nesting j + 0 ≤ maxDepth from nested)
    (show _ ≤ 2 * (text j).toList.length + 2 by omega) ends_nil
  rw [List.append_nil] at whole
  unfold read
  simp only [whole]
  rfl

end HaCluster.Json
