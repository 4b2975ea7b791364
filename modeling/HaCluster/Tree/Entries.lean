/-!
# Sorted entries

A mapping of the shared tree is a list of entries in ascending order of
their keys. The order is that of the code points, which is also the order of
the UTF-8 bytes, so two mappings with the same content are the same list.

Look-up does not use the order: it takes the first entry with the key. The
laws `get?_insert_self`, `get?_insert_of_ne`, `get?_erase_self` and
`get?_erase_of_ne` therefore hold of every list, sorted or not, and
`Sorted` is needed only where two mappings are compared as lists.
-/

namespace HaCluster

/-- A mapping from texts, written as a list of entries. -/
abbrev Entries (α : Type) := List (String × α)

namespace Entries

variable {α β : Type}

/-- The value stored under a key. -/
def get? : Entries α → String → Option α
  | [], _ => none
  | (k, v) :: rest, key => if k = key then some v else get? rest key

/-- Whether some entry has the key. -/
def contains (m : Entries α) (key : String) : Bool :=
  (get? m key).isSome

/-- Stores a value under a key, replacing the entry that has the key or else
placing a new one before the first greater key. -/
def insert : Entries α → String → α → Entries α
  | [], key, x => [(key, x)]
  | (k, v) :: rest, key, x =>
    if k = key then (key, x) :: rest
    else if key < k then (key, x) :: (k, v) :: rest
    else (k, v) :: insert rest key x

/-- Drops every entry that has the key. -/
def erase (m : Entries α) (key : String) : Entries α :=
  m.filter (fun e => e.1 ≠ key)

/-- The keys, in the order of the entries. -/
def keys (m : Entries α) : List String :=
  m.map Prod.fst

/-- Applies a function to every stored value. -/
def mapValues (f : α → β) (m : Entries α) : Entries β :=
  m.map (fun e => (e.1, f e.2))

/-- The mapping that holds the given entries; of two entries with one key the
later one counts. -/
def ofList (l : List (String × α)) : Entries α :=
  l.foldl (fun m e => insert m e.1 e.2) []

/-- The texts of a list in ascending order, each once. -/
def keySet (l : List String) : List String :=
  keys (ofList (l.map (fun s => (s, ()))))

/-- The keys ascend strictly. -/
def Sorted (m : Entries α) : Prop :=
  (keys m).Pairwise (· < ·)

@[simp] theorem get?_nil (key : String) : get? ([] : Entries α) key = none :=
  rfl

theorem get?_cons (k : String) (v : α) (rest : Entries α) (key : String) :
    get? ((k, v) :: rest) key = if k = key then some v else get? rest key :=
  rfl

/-- What was just stored is found again. -/
@[simp] theorem get?_insert_self (m : Entries α) (key : String) (x : α) :
    get? (insert m key x) key = some x := by
  induction m with
  | nil => simp [insert, get?]
  | cons e rest ih =>
    obtain ⟨k, v⟩ := e
    by_cases h : k = key
    · simp [insert, get?, h]
    · by_cases lt : key < k
      · simp [insert, get?, h, lt]
      · simp [insert, get?, h, lt, ih]

/-- Storing under one key leaves every other key as it was. -/
theorem get?_insert_of_ne (m : Entries α) {key other : String} (x : α)
    (ne : other ≠ key) : get? (insert m key x) other = get? m other := by
  induction m with
  | nil => simp [insert, get?, Ne.symm ne]
  | cons e rest ih =>
    obtain ⟨k, v⟩ := e
    by_cases h : k = key
    · subst h
      simp [insert, get?, Ne.symm ne]
    · by_cases lt : key < k
      · simp [insert, get?, h, lt, Ne.symm ne]
      · simp [insert, get?, h, lt, ih]

/-- An erased key is gone. -/
@[simp] theorem get?_erase_self (m : Entries α) (key : String) :
    get? (erase m key) key = none := by
  induction m with
  | nil => rfl
  | cons e rest ih =>
    obtain ⟨k, v⟩ := e
    by_cases h : k = key <;> simp_all [erase, get?]

/-- Erasing one key leaves every other key as it was. -/
theorem get?_erase_of_ne (m : Entries α) {key other : String}
    (ne : other ≠ key) : get? (erase m key) other = get? m other := by
  induction m with
  | nil => rfl
  | cons e rest ih =>
    obtain ⟨k, v⟩ := e
    by_cases h : k = key
    · subst h
      have step : get? ((k, v) :: rest) other = get? rest other := by
        simp [get?, Ne.symm ne]
      rw [step, ← ih]
      simp [erase]
    · by_cases ho : k = other <;> simp_all [erase, get?]

end Entries

end HaCluster
