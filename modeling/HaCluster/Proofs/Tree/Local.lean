import HaCluster.Proofs.Tree.Edit

/-!
# Edits are local

Two paths of which neither lies on the way to the other part at some step, and an edit
at one of them changes the node before that step in one step only (`step?_edit?_of_ne`).
What is found along the other path is therefore found there after the edit
(`lookup_enact?_parted`). The one exception is an item taken out of a list: the items
after it move up (`lookup_enact?_removedItem`).

Together with the exact conditions under which an edit succeeds this says all that
`store` and `remove` do to a tree (`edits_local`).
-/

namespace HaCluster

namespace Path

variable {p q : Path}

/-- Neither of two paths is above the other one. -/
def Apart (p q : Path) : Prop := ¬ p.startsWith q = true ∧ ¬ q.startsWith p = true

/-- Such paths have a way in common, and then part. -/
theorem Apart.parted (h : p.Apart q) :
    ∃ r s p' t q', p = r ++ s :: p' ∧ q = r ++ t :: q' ∧ t ≠ s := by
  induction p generalizing q with
  | nil => exact absurd rfl h.2
  | cons s p ih =>
    cases q with
    | nil => exact absurd rfl h.1
    | cons t q =>
      by_cases same : t = s
      · subst same
        have further : Apart p q := by simpa [Apart, startsWith] using h
        obtain ⟨r, s, p', u, q', rfl, rfl, ne⟩ := ih further
        exact ⟨t :: r, s, p', u, q', rfl, rfl, ne⟩
      · exact ⟨[], s, p, t, q, rfl, rfl, same⟩

end Path

namespace Value

variable {v v' c c' : Value} {s t : Segment} {p q r : Path} {x : Option Value}

/-! ## One step -/

/-- Whether a container takes a value at a step: a mapping at every key, a list at its
indices and directly after its last one. -/
def Admits : Value → Segment → Prop
  | .map _, .key _ => True
  | .list l, .index i => i ≤ l.length
  | _, _ => False

/-- A change of one step moves nothing: something is stored there, or one of the steps
is a key, which has no place among others. -/
def Steady (x : Option Value) (s t : Segment) : Prop :=
  x.isSome ∨ (∃ k, s = .key k) ∨ ∃ k, t = .key k

/-- A container that is changed in one step is unchanged in the others. -/
theorem step?_edit?_of_ne (h : v.edit? s x = some v') (ne : t ≠ s) (steady : Steady x s t) :
    v'.step? t = v.step? t := by
  cases v <;> cases s <;> try cases h
  case map.key m k =>
    obtain ⟨-, rfl⟩ := edit?_map_eq_some.1 h
    cases t with
    | index j => rfl
    | key l =>
      rw [step?_map, step?_map, Entries.get?_change, if_neg (fun same => ne (congrArg _ same))]
  case list.index l i =>
    cases t with
    | key k =>
      obtain ⟨l', rfl⟩ : ∃ l', v' = .list l' := by
        simp only [edit?] at h
        repeat' split at h
        all_goals first | exact ⟨_, (Option.some.inj h).symm⟩ | cases h
      rfl
    | index j =>
      have other : j ≠ i := fun same => ne (congrArg _ same)
      cases x with
      | none =>
        rcases steady with stored | ⟨k, key⟩ | ⟨k, key⟩
        · cases stored
        · cases key
        · cases key
      | some x =>
        simp only [edit?] at h
        split at h
        · cases h
          exact List.getElem?_set_ne (Ne.symm other)
        · split at h
          · next last =>
            cases h
            show (l ++ [x])[j]? = l[j]?
            grind
          · cases h

/-- **What is found beside an edit**: along a path that parts from that of the edit
everything is as before, unless an item is taken out of the list where they part. -/
theorem lookup_enact?_parted (h : v.enact? ⟨r ++ s :: p, x⟩ = some v') (ne : t ≠ s)
    (steady : p = [] → Steady x s t) : v'.lookup (r ++ t :: q) = v.lookup (r ++ t :: q) := by
  rw [enact?_append (List.cons_ne_nil s p)] at h
  obtain ⟨d, hd, h⟩ := Option.bind_eq_some_iff.1 h
  obtain ⟨d', change, rfl⟩ := Option.map_eq_some_iff.1 h
  have found : d'.step? t = d.step? t := by
    by_cases last : p = []
    · subst last
      exact step?_edit?_of_ne ((enact?_step x).symm.trans change) ne (steady rfl)
    · -- the step is there, so that another node is stored in its place
      rw [enact?_cons last] at change
      obtain ⟨e, he, change⟩ := Option.bind_eq_some_iff.1 change
      obtain ⟨e', -, rfl⟩ := Option.map_eq_some_iff.1 change
      exact step?_edit?_of_ne (edit?_of_step? he e') ne (.inl rfl)
  rw [lookup_append, lookup_append, lookup_plug hd, hd, Option.bind_some, Option.bind_some,
    lookup_cons, lookup_cons, found]

/-- What is stored somewhere changes nothing apart from there. -/
theorem lookup_enact?_stored {y : Value} (h : v.enact? ⟨p, some y⟩ = some v')
    (apart : p.Apart q) : v'.lookup q = v.lookup q := by
  obtain ⟨r, s, p', t, q', rfl, rfl, ne⟩ := apart.parted
  exact lookup_enact?_parted h ne fun _ => .inl rfl

/-- What is taken out of a mapping changes nothing apart from there. -/
theorem lookup_enact?_removedKey {k : String} (h : v.enact? ⟨p.key k, none⟩ = some v')
    (apart : (p.key k).Apart q) : v'.lookup q = v.lookup q := by
  obtain ⟨r, s, p', t, q', way, rfl, ne⟩ := apart.parted
  rw [way] at h
  refine lookup_enact?_parted h ne fun last => .inr (.inl ⟨k, ?_⟩)
  subst last
  exact (List.cons.inj (List.append_inj_right' way rfl)).1.symm

/-- What is taken out of a list changes nothing beside the list. -/
theorem lookup_enact?_besideList (h : v.enact? ⟨p.child s, x⟩ = some v') (apart : p.Apart q) :
    v'.lookup q = v.lookup q := by
  obtain ⟨r, u, p', t, q', rfl, rfl, ne⟩ := apart.parted
  rw [Path.child, List.append_assoc, List.cons_append] at h
  exact lookup_enact?_parted h ne fun none => absurd none (by simp)

/-! ## What is taken out -/

theorem lookup_enact?_goneKey {k : String} (h : v.enact? ⟨p.key k, none⟩ = some v') :
    v'.lookup (p.key k) = none := by
  obtain ⟨d, d', hd, change, rfl⟩ := enact?_concat_eq_some.1 h
  rw [Path.key, Path.child, lookup_append, lookup_plug hd, Option.bind_some, lookup_cons]
  cases d <;> try cases change
  case map m =>
    obtain ⟨-, rfl⟩ := edit?_map_eq_some.1 change
    rw [step?_map, Entries.get?_change, if_pos rfl]
    rfl

/-- **The items of a list from which one is taken out**: those before it stay, and those
after it move up. -/
theorem lookup_enact?_removedItem {i : Nat} (h : v.enact? ⟨p.child (.index i), none⟩ = some v')
    (j : Nat) (rest : Path) :
    v'.lookup (p ++ .index j :: rest)
      = v.lookup (p ++ .index (if j < i then j else j + 1) :: rest) := by
  obtain ⟨d, d', hd, change, rfl⟩ := enact?_concat_eq_some.1 h
  rw [lookup_append, lookup_append, lookup_plug hd, hd, Option.bind_some, Option.bind_some,
    lookup_cons, lookup_cons]
  cases d <;> try cases change
  case list l =>
    simp only [edit?] at change
    split at change <;> cases change
    have moved : (l.eraseIdx i)[j]? = l[if j < i then j else j + 1]? := by
      rw [List.getElem?_eraseIdx]
      split <;> rfl
    exact congrArg (fun found : Option Value => found.bind fun d => d.lookup rest) moved

/-! ## When an edit succeeds -/

theorem edit?_isSome_iff {y : Value} : (∃ v', v.edit? s (some y) = some v') ↔ v.Admits s := by
  cases v <;> cases s <;> simp only [edit?, Admits, reduceCtorEq, exists_false]
  case list.index l i =>
    by_cases before : i < l.length
    · simp [before, before.le]
    · by_cases last : i = l.length
      · simp [last]
      · simp only [before, last, if_false, reduceCtorEq, exists_false, false_iff]
        omega
  case map.key m k => simp

/-- A value can be stored at the root, and where the node above takes it. -/
theorem enact?_isSome_iff {y : Value} :
    (∃ v', v.enact? ⟨p, some y⟩ = some v')
      ↔ p = [] ∨ ∃ (q : Path) (s : Segment) (c : Value),
        p = q.child s ∧ v.lookup q = some c ∧ c.Admits s := by
  induction p using List.reverseRecOn with
  | nil => exact iff_of_true ⟨y, rfl⟩ (.inl rfl)
  | append_singleton q s _ =>
    simp only [enact?_concat_eq_some]
    constructor
    · rintro ⟨-, c, c', hc, change, -⟩
      exact .inr ⟨q, s, c, rfl, hc, edit?_isSome_iff.1 ⟨c', change⟩⟩
    · rintro (none | ⟨q', s', c, way, hc, admits⟩)
      · exact absurd none (by simp)
      · obtain ⟨rfl, last⟩ := List.append_inj' way rfl
        obtain rfl := (List.cons.inj last).1
        obtain ⟨c', change⟩ := edit?_isSome_iff.2 admits
        exact ⟨_, c, c', hc, change, rfl⟩

/-- What is there can be taken out. -/
theorem enact?_none_of_lookup {old : Value} (h : v.lookup p = some old) :
    ∃ v', v.enact? ⟨p, none⟩ = some v' := by
  induction p using List.reverseRecOn with
  | nil => exact ⟨.null, rfl⟩
  | append_singleton q s _ =>
    rw [lookup_append] at h
    obtain ⟨d, hd, h⟩ := Option.bind_eq_some_iff.1 h
    obtain ⟨e, he, -⟩ := Option.bind_eq_some_iff.1 h
    rw [enact?_append (List.cons_ne_nil _ _), hd, Option.bind_some, enact?_step]
    cases d <;> cases s <;> try cases he
    case list.index l i =>
      obtain ⟨inside, -⟩ := List.getElem?_eq_some_iff.1 he
      simp [edit?, inside]
    case map.key m k =>
      rw [edit?_map_eq_some.2 ⟨.inr (Option.isSome_iff_exists.2 ⟨e, he⟩), rfl⟩]
      exact ⟨_, rfl⟩

/-! ## Storing and removing -/

/-- What is so after a value was stored at a path. -/
structure Stored (t : Value) (p : Path) (x t' : Value) : Prop where
  /-- The value is found where it was stored. -/
  there : t'.lookup p = some x
  /-- Everything that lies neither above nor below is as it was. -/
  elsewhere : ∀ q, p.Apart q → t'.lookup q = t.lookup q

/-- What is so after the node at a path was removed. -/
structure Removed (t : Value) (p : Path) (old t' : Value) : Prop where
  /-- The answer is the node that was there. -/
  answer : t.lookup p = some old
  /-- Of a tree that is removed as a whole nothing is left. -/
  root : p = [] → t' = .null
  /-- A key is gone, and everything that lies neither above nor below is as it was. -/
  key : ∀ (q : Path) (k : String), p = q.key k →
    t'.lookup p = none ∧ ∀ r, p.Apart r → t'.lookup r = t.lookup r
  /-- The items before the one that was taken out are as they were, those after it are
  found one index lower, and so is everything as it was that lies neither above nor below
  the list. -/
  index : ∀ (q : Path) (i : Nat), p = q.child (.index i) →
    (∀ j rest, j < i → t'.lookup (q ++ .index j :: rest) = t.lookup (q ++ .index j :: rest))
      ∧ (∀ j rest, i ≤ j →
        t'.lookup (q ++ .index j :: rest) = t.lookup (q ++ .index (j + 1) :: rest))
      ∧ ∀ r, q.Apart r → t'.lookup r = t.lookup r

theorem stored_of_enact? {t t' y : Value} (h : t.enact? ⟨p, some y⟩ = some t') :
    Stored t p y t' :=
  ⟨lookup_enact?_self h, fun _ apart => lookup_enact?_stored h apart⟩

theorem removed_of_enact? {t t' old : Value} (there : t.lookup p = some old)
    (h : t.enact? ⟨p, none⟩ = some t') : Removed t p old t' where
  answer := there
  root := by
    rintro rfl
    exact (Option.some.inj h).symm
  key := by
    rintro q k rfl
    exact ⟨lookup_enact?_goneKey h, fun r apart => lookup_enact?_removedKey h apart⟩
  index := by
    rintro q i rfl
    have items := lookup_enact?_removedItem h
    refine ⟨fun j rest before => ?_, fun j rest after => ?_, fun r => lookup_enact?_besideList h⟩
    · rw [items, if_pos before]
    · rw [items, if_neg (Nat.not_lt.2 after)]

/-- **Edits of a tree are local.** A value that is stored at a path is found there, and a
node that is removed is the answer and gone, or followed by the items after it; what lies
neither above nor below is as it was. A value can be stored at the root, at any key of a
mapping and at any index up to the length of a list, and nowhere else. A node can be
removed exactly if it is there. -/
theorem edits_local (t : Value) (p : Path) :
    (∀ x t', t.store p x = .ok t' → Stored t p x t')
      ∧ (∀ old t', t.remove p = .ok (old, t') → Removed t p old t')
      ∧ (∀ x, (∃ t', t.store p x = .ok t')
          ↔ p = [] ∨ ∃ (q : Path) (s : Segment) (c : Value),
            p = q.child s ∧ t.lookup q = some c ∧ c.Admits s)
      ∧ ((∃ r, t.remove p = .ok r) ↔ ∃ c, t.lookup p = some c) := by
  refine ⟨fun x t' run => ?_, fun old t' run => ?_, fun x => ?_, ?_⟩
  · exact stored_of_enact? (store_eq_ok_iff.1 run)
  · obtain ⟨there, change⟩ := remove_eq_ok_iff.1 run
    exact removed_of_enact? there change
  · simp only [store_eq_ok_iff]
    exact enact?_isSome_iff
  · constructor
    · rintro ⟨⟨old, t'⟩, run⟩
      exact ⟨old, (remove_eq_ok_iff.1 run).1⟩
    · rintro ⟨old, there⟩
      obtain ⟨t', change⟩ := enact?_none_of_lookup there
      exact ⟨(old, t'), remove_eq_ok_iff.2 ⟨there, change⟩⟩

/-- An item is appended to a list below a key, and the first one of the list is taken
out. -/
theorem edits_local_list :
    let t : Value := .map [("a", .list [.int 1, .map [("k", .null)]]), ("b", .bool true)]
    let p : Path := [.key "a"]
    (∃ t', t.store (p.child (.index 2)) (.int 3) = .ok t'
        ∧ Stored t (p.child (.index 2)) (.int 3) t')
      ∧ ∃ t', t.remove (p.child (.index 0)) = .ok (.int 1, t')
        ∧ Removed t (p.child (.index 0)) (.int 1) t' := by
  intro t p
  exact ⟨⟨_, rfl, (edits_local t (p.child (.index 2))).1 (.int 3) _ rfl⟩,
    _, rfl, (edits_local t (p.child (.index 0))).2.1 (.int 1) _ rfl⟩

end Value

end HaCluster
