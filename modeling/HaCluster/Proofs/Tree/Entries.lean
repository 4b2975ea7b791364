import HaCluster.Tree.Entries

/-!
# The theory of sorted entries

Entries whose keys ascend strictly are determined by what is found under each
key (`ext`). Storing and erasing keep them sorted, so every law about two
edits of one mapping follows from what look-up says about the edits. Where
only storing is involved the order of the entries does not matter
(`insert_insert`, `insert_comm`).
-/

namespace HaCluster.Entries

variable {α β : Type}

/-! ## Look-up -/

theorem get?_insert (m : Entries α) (key other : String) (x : α) :
    get? (insert m key x) other = if other = key then some x else get? m other := by
  split
  · rename_i h
    rw [h, get?_insert_self]
  · rename_i h
    exact get?_insert_of_ne m x h

theorem get?_erase (m : Entries α) (key other : String) :
    get? (erase m key) other = if other = key then none else get? m other := by
  split
  · rename_i h
    rw [h, get?_erase_self]
  · rename_i h
    exact get?_erase_of_ne m h

/-- What is found is stored. -/
theorem mem_of_get? {m : Entries α} {key : String} {x : α}
    (h : get? m key = some x) : (key, x) ∈ m := by
  induction m with
  | nil => cases h
  | cons e rest ih =>
    obtain ⟨k, v⟩ := e
    rw [get?_cons] at h
    split at h
    · rename_i hk
      cases h
      exact hk ▸ List.mem_cons_self
    · exact List.mem_cons_of_mem _ (ih h)

/-- Nothing is found under a key that no entry has. -/
theorem get?_eq_none_iff {m : Entries α} {key : String} :
    get? m key = none ↔ ∀ e ∈ m, e.1 ≠ key := by
  induction m with
  | nil => simp
  | cons e rest ih =>
    obtain ⟨k, v⟩ := e
    rw [get?_cons]
    by_cases hk : k = key
    · simp [hk]
    · simp [hk, ih]

/-- What is found is under one of the keys. -/
theorem isSome_get?_iff {m : Entries α} {key : String} :
    (get? m key).isSome ↔ key ∈ keys m := by
  rw [← Option.ne_none_iff_isSome, Ne, get?_eq_none_iff]
  simp [keys]

theorem mem_of_mem_insert {m : Entries α} {key : String} {x : α} {e : String × α}
    (h : e ∈ insert m key x) : e = (key, x) ∨ e ∈ m := by
  induction m with
  | nil => exact .inl (List.mem_singleton.1 h)
  | cons a rest ih =>
    obtain ⟨k, v⟩ := a
    unfold insert at h
    split at h
    · rcases List.mem_cons.1 h with h | h
      · exact .inl h
      · exact .inr (List.mem_cons_of_mem _ h)
    · split at h
      · rcases List.mem_cons.1 h with h | h
        · exact .inl h
        · exact .inr h
      · rcases List.mem_cons.1 h with h | h
        · exact .inr (h ▸ List.mem_cons_self)
        · exact (ih h).imp_right (List.mem_cons_of_mem _)

theorem mem_of_mem_erase {m : Entries α} {key : String} {e : String × α}
    (h : e ∈ erase m key) : e ∈ m :=
  (List.mem_filter.1 h).1

/-- Erasing a key that no entry has changes nothing. -/
theorem erase_of_get?_eq_none {m : Entries α} {key : String}
    (h : get? m key = none) : erase m key = m :=
  List.filter_eq_self.2 (fun e he => by simpa using get?_eq_none_iff.1 h e he)

/-- Keeping the entries with some keys keeps what is found under them. -/
theorem get?_filter (keep : String → Bool) (m : Entries α) (key : String) :
    get? (m.filter (fun e => keep e.1)) key = if keep key then get? m key else none := by
  induction m with
  | nil => simp
  | cons e rest ih =>
    obtain ⟨k, v⟩ := e
    by_cases hk : k = key
    · subst hk
      cases h : keep k <;> simp [h, get?_cons, ih]
    · cases h : keep k <;> simp [h, get?_cons, hk, ih]

/-! ## Sorted entries -/

theorem sorted_cons {k : String} {v : α} {m : Entries α} :
    Sorted ((k, v) :: m) ↔ (∀ e ∈ m, k < e.1) ∧ Sorted m := by
  show List.Pairwise _ (k :: keys m) ↔ _
  rw [List.pairwise_cons]
  exact and_congr_left' (by simp [keys])

theorem Sorted.nil : Sorted ([] : Entries α) := List.Pairwise.nil

/-- In sorted entries what is stored is found. -/
theorem Sorted.get?_of_mem {m : Entries α} (hm : Sorted m) {key : String} {x : α}
    (h : (key, x) ∈ m) : get? m key = some x := by
  induction m with
  | nil => cases h
  | cons e rest ih =>
    obtain ⟨k, v⟩ := e
    obtain ⟨lt, hrest⟩ := sorted_cons.1 hm
    rw [get?_cons]
    rcases List.mem_cons.1 h with h | h
    · cases h
      exact if_pos rfl
    · rw [if_neg (String.ne_of_lt (lt _ h))]
      exact ih hrest h

/-- Storing keeps entries sorted. -/
theorem Sorted.insert {m : Entries α} (hm : Sorted m) (key : String) (x : α) :
    Sorted (insert m key x) := by
  induction m with
  | nil => exact sorted_cons.2 ⟨by simp, Sorted.nil⟩
  | cons e rest ih =>
    obtain ⟨k, v⟩ := e
    obtain ⟨lt, hrest⟩ := sorted_cons.1 hm
    unfold Entries.insert
    split
    · rename_i hk
      exact sorted_cons.2 ⟨hk ▸ lt, hrest⟩
    · rename_i hk
      split
      · rename_i hlt
        refine sorted_cons.2 ⟨fun e he => ?_, hm⟩
        rcases List.mem_cons.1 he with rfl | he
        · exact hlt
        · exact String.lt_trans hlt (lt e he)
      · rename_i hlt
        refine sorted_cons.2 ⟨fun e he => ?_, ih hrest⟩
        rcases mem_of_mem_insert he with rfl | he
        · exact String.not_le.1 (fun hle => hk (String.le_antisymm (String.not_lt.1 hlt) hle))
        · exact lt e he

/-- Erasing keeps entries sorted. -/
theorem Sorted.erase {m : Entries α} (hm : Sorted m) (key : String) :
    Sorted (erase m key) :=
  List.Pairwise.sublist (List.filter_sublist.map Prod.fst) hm

theorem Sorted.filter {m : Entries α} (hm : Sorted m) (keep : String × α → Bool) :
    Sorted (m.filter keep) :=
  List.Pairwise.sublist (List.filter_sublist.map Prod.fst) hm

/-- What is kept of sorted entries is what is found and kept. -/
theorem Sorted.get?_filter {m : Entries α} (hm : Sorted m) (keep : α → Bool) (key : String) :
    get? (m.filter fun e => keep e.2) key = (get? m key).filter keep := by
  refine Option.ext fun x => ?_
  rw [Option.filter_eq_some_iff]
  constructor
  · intro found
    obtain ⟨mem, kept⟩ := List.mem_filter.1 (mem_of_get? found)
    exact ⟨hm.get?_of_mem mem, kept⟩
  · rintro ⟨found, kept⟩
    exact (hm.filter _).get?_of_mem (List.mem_filter.2 ⟨mem_of_get? found, kept⟩)

/-- **Sorted entries are determined by look-up.** -/
theorem Sorted.ext {m n : Entries α} (hm : Sorted m) (hn : Sorted n)
    (h : ∀ key, get? m key = get? n key) : m = n := by
  induction m generalizing n with
  | nil =>
    cases n with
    | nil => rfl
    | cons e rest =>
      obtain ⟨k, v⟩ := e
      simpa [get?_cons] using h k
  | cons e rest ih =>
    obtain ⟨k, v⟩ := e
    cases n with
    | nil => simpa [get?_cons] using h k
    | cons e' rest' =>
      obtain ⟨k', v'⟩ := e'
      obtain ⟨lt, hrest⟩ := sorted_cons.1 hm
      obtain ⟨lt', hrest'⟩ := sorted_cons.1 hn
      have hv : (k, v) ∈ (k', v') :: rest' :=
        mem_of_get? ((h k).symm.trans (by simp [get?_cons]))
      have hv' : (k', v') ∈ (k, v) :: rest :=
        mem_of_get? ((h k').trans (by simp [get?_cons]))
      -- the least key of one list is a key of the other, so the heads agree
      have heads : (k, v) = (k', v') := by
        rcases List.mem_cons.1 hv with hv | hv
        · exact hv
        · rcases List.mem_cons.1 hv' with hv' | hv'
          · exact hv'.symm
          · exact absurd (lt _ hv') (String.lt_asymm (lt' _ hv))
      cases heads
      refine congrArg _ (ih hrest hrest' (fun key => ?_))
      by_cases hk : k = key
      · subst hk
        rw [get?_eq_none_iff.2 (fun e he => (String.ne_of_lt (lt e he)).symm),
          get?_eq_none_iff.2 (fun e he => (String.ne_of_lt (lt' e he)).symm)]
      · simpa [get?_cons, hk] using h key

/-! ## One change of a mapping

A value is stored under a key or the key is dropped. Both are one operation
with the new content of the key as its argument, so that two changes are
compared in one case and not in four. -/

/-- The mapping in which a key holds a value, or nothing. -/
def change (m : Entries α) (key : String) : Option α → Entries α
  | some x => insert m key x
  | none => erase m key

@[simp] theorem change_some (m : Entries α) (key : String) (x : α) :
    change m key (some x) = insert m key x := rfl

@[simp] theorem change_none (m : Entries α) (key : String) :
    change m key none = erase m key := rfl

theorem get?_change (m : Entries α) (key other : String) (x : Option α) :
    get? (change m key x) other = if other = key then x else get? m other := by
  cases x with
  | none => exact get?_erase m key other
  | some x => exact get?_insert m key other x

theorem mem_of_mem_change {m : Entries α} {key : String} {x : Option α}
    {e : String × α} (h : e ∈ change m key x) : (e.1 = key ∧ x = some e.2) ∨ e ∈ m := by
  cases x with
  | none => exact .inr (mem_of_mem_erase h)
  | some x =>
    rcases mem_of_mem_insert h with rfl | h
    · exact .inl ⟨rfl, rfl⟩
    · exact .inr h

theorem Sorted.change {m : Entries α} (hm : Sorted m) (key : String) (x : Option α) :
    Sorted (change m key x) := by
  cases x with
  | none => exact hm.erase key
  | some x => exact hm.insert key x

/-- Storing again what is already found changes nothing. -/
theorem Sorted.change_get? {m : Entries α} (hm : Sorted m) (key : String) :
    Entries.change m key (get? m key) = m := by
  refine (hm.change key _).ext hm (fun other => ?_)
  rw [get?_change]
  split
  · rename_i ho
    rw [ho]
  · rfl

/-- Of two changes of one key the later one counts. -/
theorem Sorted.change_change {m : Entries α} (hm : Sorted m) (key : String)
    (x y : Option α) :
    Entries.change (Entries.change m key x) key y = Entries.change m key y := by
  refine ((hm.change key x).change key y).ext (hm.change key y) (fun other => ?_)
  simp only [get?_change]
  split <;> rfl

/-- Changes of two keys may be made in either order. -/
theorem Sorted.change_comm {m : Entries α} (hm : Sorted m) {k l : String}
    (ne : k ≠ l) (x y : Option α) :
    Entries.change (Entries.change m k x) l y
      = Entries.change (Entries.change m l y) k x := by
  refine ((hm.change k x).change l y).ext ((hm.change l y).change k x) (fun other => ?_)
  simp only [get?_change]
  by_cases hk : other = k
  · simp [hk, ne]
  · simp [hk]

/-! ## Several changes of a mapping -/

/-- Several values stored, one after the other. -/
def insertAll (m es : Entries α) : Entries α :=
  es.foldl (fun m e => insert m e.1 e.2) m

/-- Several keys erased, one after the other. -/
def eraseAll (m : Entries α) (ks : List String) : Entries α :=
  ks.foldl erase m

theorem get?_insertAll {es : Entries α} (sorted : Sorted es) (m : Entries α) (key : String) :
    get? (insertAll m es) key = (get? es key).or (get? m key) := by
  induction es generalizing m with
  | nil => rfl
  | cons e es ih =>
    obtain ⟨k, v⟩ := e
    obtain ⟨lt, sorted⟩ := sorted_cons.1 sorted
    show get? (insertAll (insert m k v) es) key = _
    rw [ih sorted, get?_insert, get?_cons]
    by_cases same : k = key
    · -- the key does not come again
      subst same
      rw [get?_eq_none_iff.2 fun e he => (String.ne_of_lt (lt e he)).symm, if_pos rfl, if_pos rfl]
      rfl
    · rw [if_neg same, if_neg (Ne.symm same)]

theorem Sorted.insertAll {m : Entries α} (hm : Sorted m) (es : Entries α) :
    Sorted (insertAll m es) := by
  induction es generalizing m with
  | nil => exact hm
  | cons e es ih => exact ih (hm.insert e.1 e.2)

theorem get?_eraseAll (m : Entries α) (ks : List String) (key : String) :
    get? (eraseAll m ks) key = if key ∈ ks then none else get? m key := by
  induction ks generalizing m with
  | nil => rfl
  | cons k ks ih =>
    show get? (eraseAll (erase m k) ks) key = _
    rw [ih, get?_erase]
    by_cases same : key = k <;> simp [same]

theorem Sorted.eraseAll {m : Entries α} (hm : Sorted m) (ks : List String) :
    Sorted (eraseAll m ks) := by
  induction ks generalizing m with
  | nil => exact hm
  | cons k ks ih => exact ih (hm.erase k)

/-! ## Two values stored -/

/-- Of two values stored under one key the later one counts. -/
theorem insert_insert (m : Entries α) (k : String) (x y : α) :
    insert (insert m k x) k y = insert m k y := by
  induction m with
  | nil => simp [insert]
  | cons e rest ih =>
    obtain ⟨l, z⟩ := e
    by_cases same : l = k
    · simp [insert, same]
    · by_cases lt : k < l
      · simp [insert, same, lt]
      · simp [insert, same, lt, ih]

/-- Values may be stored under two keys in either order. -/
theorem insert_comm (m : Entries α) {k l : String} (ne : k ≠ l) (x y : α) :
    insert (insert m k x) l y = insert (insert m l y) k x := by
  have ordered {k l : String} (x y : α) (lt : k < l) :
      insert (insert m k x) l y = insert (insert m l y) k x := by
    have ne : k ≠ l := String.ne_of_lt lt
    have nlt : ¬ l < k := String.lt_asymm lt
    induction m with
    | nil => simp [insert, ne, ne.symm, lt, nlt]
    | cons e rest ih =>
      obtain ⟨h, z⟩ := e
      by_cases same : h = k
      · simp [insert, same, ne, nlt]
      · by_cases after : k < h
        · by_cases last : h = l
          · simp [insert, last, lt, ne, ne.symm, nlt]
          · by_cases first : l < h <;> simp [insert, ne, ne.symm, lt, nlt, same, after, last, first]
        · -- the head comes before both keys
          have before : h < k := String.not_le.1 fun le =>
            same (String.le_antisymm (String.not_lt.1 after) le)
          have other : h ≠ l := String.ne_of_lt (String.lt_trans before lt)
          have nbefore : ¬ l < h := String.lt_asymm (String.lt_trans before lt)
          simp [insert, same, after, other, nbefore, ih]
  by_cases lt : k < l
  · exact ordered x y lt
  · refine (ordered y x (String.not_le.1 fun le => ne ?_)).symm
    exact String.le_antisymm le (String.not_lt.1 lt)

/-! ## Changing every value -/

theorem get?_mapValues (f : α → β) (m : Entries α) (key : String) :
    get? (mapValues f m) key = (get? m key).map f := by
  induction m with
  | nil => rfl
  | cons e rest ih =>
    show get? ((e.1, f e.2) :: mapValues f rest) key = _
    rw [get?_cons, get?_cons, ih]
    split <;> rfl

theorem mapValues_insert (f : α → β) (m : Entries α) (key : String) (x : α) :
    mapValues f (insert m key x) = insert (mapValues f m) key (f x) := by
  induction m with
  | nil => rfl
  | cons e rest ih =>
    show mapValues f (insert (e :: rest) key x)
      = insert ((e.1, f e.2) :: mapValues f rest) key (f x)
    unfold insert
    split
    · rfl
    · split
      · rfl
      · exact congrArg _ ih

theorem mapValues_erase (f : α → β) (m : Entries α) (key : String) :
    mapValues f (erase m key) = erase (mapValues f m) key := by
  simp only [mapValues, erase, List.filter_map]
  rfl

theorem mapValues_change (f : α → β) (m : Entries α) (key : String) (x : Option α) :
    mapValues f (change m key x) = change (mapValues f m) key (x.map f) := by
  cases x with
  | none => exact mapValues_erase f m key
  | some x => exact mapValues_insert f m key x

theorem keys_mapValues (f : α → β) (m : Entries α) : keys (mapValues f m) = keys m := by
  simp [keys, mapValues]

theorem sorted_mapValues {f : α → β} {m : Entries α} :
    Sorted (mapValues f m) ↔ Sorted m := by
  rw [Sorted, keys_mapValues, Sorted]

end HaCluster.Entries
