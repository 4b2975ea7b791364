import HaCluster.Proofs.Tree.Keep
import HaCluster.Proofs.Tree.Local

/-!
# What an edit does to one node

A node that is reached by keys alone keeps its place in every edit. Seen from
it there is a value, or there is none, and a fragment whose path goes through
it says what becomes of it (`follow?`, `follow?_lookup`). A fragment for a node
above it replaces it as a whole (`lookup_enact?_above`), and any other one
leaves it alone (`lookup_enact?_aside`).
-/

namespace HaCluster

namespace Path

variable {p base e r : Path} {k : String}

/-- Every step of the path is a key. -/
def AllKeys (p : Path) : Prop := ∀ s ∈ p, ∃ k, s = .key k

theorem AllKeys.cons {s : Segment} (h : AllKeys (s :: p)) : (∃ k, s = .key k) ∧ AllKeys p :=
  ⟨h s List.mem_cons_self, fun t ht => h t (List.mem_cons_of_mem s ht)⟩

theorem allKeys_ofKeys (ks : List String) : (ofKeys ks).AllKeys := by
  intro s hs
  obtain ⟨k, -, rfl⟩ := List.mem_map.1 hs
  exact ⟨k, rfl⟩

theorem startsWith_iff : p.startsWith base = true ↔ ∃ rest, p = base ++ rest := by
  unfold startsWith
  rw [List.isPrefixOf_iff_prefix]
  exact exists_congr (fun _ => eq_comm)

/-- What lies above a path lies above its keys. -/
theorem startsWith_key (h : p.startsWith base = true) : (p.key k).startsWith base = true := by
  obtain ⟨rest, rfl⟩ := startsWith_iff.1 h
  exact startsWith_iff.2 ⟨rest ++ [.key k], List.append_assoc base rest _⟩

/-- A path above another one, and not below it, lies properly above it. -/
theorem exists_rest_of_above (above : base.startsWith p = true)
    (below : ¬ p.startsWith base = true) : ∃ rest, base = p ++ rest ∧ rest ≠ [] := by
  obtain ⟨rest, hp⟩ := startsWith_iff.1 above
  refine ⟨rest, hp, ?_⟩
  rintro rfl
  exact below (startsWith_iff.2 ⟨[], by rw [hp, List.append_nil, List.append_nil]⟩)

theorem below?_eq_none_iff : p.below? base = none ↔ ¬ p.startsWith base = true := by
  unfold below?
  split <;> simp_all

theorem below?_cons (s : Segment) : below? (s :: p) (s :: base) = p.below? base := by
  simp [below?, startsWith]

theorem below?_cons_of_ne {s t : Segment} (h : s ≠ t) : below? (s :: p) (t :: base) = none := by
  rw [below?_eq_none_iff]
  simp [startsWith, List.isPrefixOf, Ne.symm h]

end Path

namespace Value

variable {v v' c c' : Value} {k : String} {p q r rest : Path} {x y old : Option Value}
  {f : Fragment}

/-! ## What a key holds -/

/-- What becomes of a node, or of none, by a fragment seen from it: a fragment
for the root says it, any other one edits a node that is there. -/
def follow? (old : Option Value) (f : Fragment) : Option (Option Value) :=
  if f.path = [] then some f.value else old.bind (fun c => (c.enact? f).map some)

theorem follow?_root (old x : Option Value) : follow? old ⟨[], x⟩ = some x := rfl

theorem follow?_eq_some_iff (hr : r ≠ []) :
    follow? old ⟨r, x⟩ = some y
      ↔ ∃ c c', old = some c ∧ c.enact? ⟨r, x⟩ = some c' ∧ y = some c' := by
  unfold follow?
  rw [if_neg hr, Option.bind_eq_some_iff]
  simp only [Option.map_eq_some_iff]
  constructor
  · rintro ⟨c, ho, c', he, rfl⟩
    exact ⟨c, c', ho, he, rfl⟩
  · rintro ⟨c, c', ho, he, rfl⟩
    exact ⟨c, ho, c', he, rfl⟩

/-- **An edit below a key of a mapping** changes what the key holds. Only the
removal of what is not there is no edit. -/
theorem enact?_key {m : Entries Value} :
    enact? (.map m) ⟨.key k :: r, x⟩ = some v'
      ↔ (x.isSome ∨ (Entries.get? m k).isSome)
        ∧ ∃ y, follow? (Entries.get? m k) ⟨r, x⟩ = some y ∧ v' = .map (Entries.change m k y) := by
  by_cases hr : r = []
  · subst hr
    rw [enact?_step, edit?_map_eq_some]
    simp [follow?_root]
  · rw [enact?_cons hr, step?_map, Option.bind_eq_some_iff]
    simp only [follow?_eq_some_iff hr, Option.map_eq_some_iff]
    constructor
    · rintro ⟨c, hc, c', he, rfl⟩
      exact ⟨.inr (hc ▸ rfl), some c', ⟨c, c', hc, he, rfl⟩, rfl⟩
    · rintro ⟨-, y, ⟨c, c', hc, he, rfl⟩, rfl⟩
      exact ⟨c, hc, c', he, rfl⟩

/-- Only a mapping can be edited below a key. -/
theorem exists_map_of_enact?_key (h : v.enact? ⟨.key k :: r, x⟩ = some v') :
    ∃ m, v = .map m := by
  by_cases hr : r = []
  · subst hr
    rw [enact?_step] at h
    cases v <;> first | exact ⟨_, rfl⟩ | cases h
  · rw [enact?_cons hr] at h
    obtain ⟨c, hc, -⟩ := Option.bind_eq_some_iff.1 h
    cases v <;> first | exact ⟨_, rfl⟩ | cases hc

/-- Only a list can be edited below an index, and it stays one. -/
theorem exists_list_of_enact?_index {i : Nat} (h : v.enact? ⟨.index i :: r, x⟩ = some v') :
    (∃ l, v = .list l) ∧ ∃ l', v' = .list l' := by
  by_cases hr : r = []
  · subst hr
    rw [enact?_step] at h
    cases v <;> try cases h
    simp only [edit?] at h
    repeat' split at h
    all_goals first | exact ⟨⟨_, rfl⟩, _, (Option.some.inj h).symm⟩ | cases h
  · rw [enact?_cons hr] at h
    obtain ⟨c, hc, h⟩ := Option.bind_eq_some_iff.1 h
    obtain ⟨c', -, rfl⟩ := Option.map_eq_some_iff.1 h
    cases v <;> try cases hc
    exact ⟨⟨_, rfl⟩, _, rfl⟩

/-- What becomes of a node, or of none, by several fragments. -/
def followAll? (old : Option Value) (fs : List Fragment) : Option (Option Value) :=
  fs.foldlM follow? old

theorem followAll?_cons (old : Option Value) (f : Fragment) (fs : List Fragment) :
    followAll? old (f :: fs) = (follow? old f).bind (fun y => followAll? y fs) := rfl

theorem followAll?_append (old : Option Value) (fs gs : List Fragment) :
    followAll? old (fs ++ gs) = (followAll? old fs).bind (fun y => followAll? y gs) :=
  List.foldlM_append

/-- Fragments that say what becomes of a node can be enacted on it, and on `null` where
there is none. -/
theorem enactAll?_of_followAll? {old y : Option Value} {fs : List Fragment}
    (h : followAll? old fs = some y) :
    (old.getD .null).enactAll? fs = some (y.getD .null) := by
  induction fs generalizing old with
  | nil =>
    cases h
    rfl
  | cons f fs ih =>
    obtain ⟨z, hz, h⟩ := Option.bind_eq_some_iff.1 h
    have first : (old.getD .null).enact? f = some (z.getD .null) := by
      obtain ⟨p, x⟩ := f
      by_cases hp : p = []
      · subst hp
        cases hz
        rfl
      · obtain ⟨c, c', rfl, hc, rfl⟩ := (follow?_eq_some_iff hp).1 hz
        exact hc
    rw [enactAll?_cons, first]
    exact ih h

theorem follow?_plain (old : Option Value) (f : Fragment) :
    follow? (old.map plain) f.plain = (follow? old f).map (Option.map plain) := by
  unfold follow?
  show (if f.path = [] then _ else _) = _
  split
  · rfl
  · rw [Option.bind_map, Option.map_bind]
    refine congrArg _ (funext (fun c => ?_))
    rw [Function.comp_apply, Function.comp_apply, enact?_plain, Option.map_map, Option.map_map]
    rfl

theorem followAll?_plain (old : Option Value) (fs : List Fragment) :
    followAll? (old.map plain) (fs.map Fragment.plain)
      = (followAll? old fs).map (Option.map plain) := by
  induction fs generalizing old with
  | nil => rfl
  | cons f fs ih =>
    rw [List.map_cons, followAll?_cons, followAll?_cons, follow?_plain, Option.bind_map,
      Option.map_bind]
    exact congrArg _ (funext ih)

/-- Replaying a fragment below a key changes what the key holds, also where the
fragment removes what is not there. -/
theorem apply_follow? {m : Entries Value} (h : v.lookup p = some (.map m))
    (hy : follow? (Entries.get? m k) f = some y) :
    ∃ v', v.apply (f.rebase (p.key k)) = .ok v'
      ∧ v'.lookup p = some (.map (Entries.change m k y)) := by
  obtain ⟨r, x⟩ := f
  by_cases there : x.isSome ∨ (Entries.get? m k).isSome
  · have inMap : enact? (.map m) ⟨.key k :: r, x⟩ = some (.map (Entries.change m k y)) :=
      enact?_key.2 ⟨there, y, hy, rfl⟩
    refine ⟨v.plug p (.map (Entries.change m k y)), apply_of_enact? ?_, lookup_plug h⟩
    show v.enact? ⟨p ++ [.key k] ++ r, x⟩ = _
    rw [List.append_assoc, List.singleton_append, enact?_append (List.cons_ne_nil _ _), h,
      Option.bind_some, inMap, Option.map_some]
  · -- nothing is there and nothing is stored, so the root is removed
    rw [not_or, Bool.not_eq_true, Bool.not_eq_true, Option.isSome_eq_false_iff,
      Option.isSome_eq_false_iff, Option.isNone_iff_eq_none, Option.isNone_iff_eq_none] at there
    obtain ⟨rfl, absent⟩ := there
    have hr : r = [] := by
      by_contra hr
      obtain ⟨c, -, hc, -⟩ := (follow?_eq_some_iff hr).1 hy
      rw [absent] at hc
      cases hc
    subst hr
    cases hy
    refine ⟨v, ?_, ?_⟩
    · show v.apply ⟨p.key k ++ [], none⟩ = _
      rw [List.append_nil]
      exact apply_unset_absent h absent
    · rw [h, Entries.change_none, Entries.erase_of_get?_eq_none absent]

/-! ## The node at a path of keys -/

/-- **A fragment whose path goes through a node** says what becomes of it. -/
theorem follow?_lookup (hq : q.AllKeys) (hq0 : q ≠ []) (h : v.enact? ⟨q ++ r, x⟩ = some v') :
    follow? (v.lookup q) ⟨r, x⟩ = some (v'.lookup q) := by
  obtain ⟨p, s, rfl⟩ : ∃ p s, q = p ++ [s] :=
    ⟨q.dropLast, q.getLast hq0, (List.dropLast_concat_getLast hq0).symm⟩
  obtain ⟨k, rfl⟩ := hq s (by simp)
  rw [List.append_assoc, List.singleton_append, enact?_append (List.cons_ne_nil _ _)] at h
  obtain ⟨d, hd, h⟩ := Option.bind_eq_some_iff.1 h
  obtain ⟨d', he, rfl⟩ := Option.map_eq_some_iff.1 h
  obtain ⟨m, rfl⟩ := exists_map_of_enact?_key he
  obtain ⟨-, y, hy, rfl⟩ := enact?_key.1 he
  have last (t : Value) : t.lookup [.key k] = t.step? (.key k) := Option.bind_fun_some _
  rw [lookup_append, lookup_append, hd, lookup_plug hd, Option.bind_some, Option.bind_some,
    last, last, step?_map, step?_map, Entries.get?_change, if_pos rfl]
  exact hy

/-- A key of a mapping is changed by putting another mapping in its place. -/
theorem enact?_key_plug {m : Entries Value} (h : v.lookup p = some (.map m))
    (there : x.isSome ∨ (Entries.get? m k).isSome) :
    v.enact? ⟨p.key k, x⟩ = some (v.plug p (.map (Entries.change m k x))) := by
  rw [Path.key, Path.child, enact?_append (List.cons_ne_nil _ _), h, Option.bind_some,
    enact?_key.2 ⟨there, x, rfl, rfl⟩]
  rfl

/-- A key of a mapping can be changed; only one that is not there cannot be
removed. -/
theorem enact?_key_ok {m : Entries Value} (h : v.lookup p = some (.map m))
    (there : x.isSome ∨ (Entries.get? m k).isSome) : ∃ v', v.enact? ⟨p.key k, x⟩ = some v' :=
  ⟨_, enact?_key_plug h there⟩

/-- **A fragment below a mapping** changes what one of its keys holds. -/
theorem lookup_enact?_map {m : Entries Value} (hq : q.AllKeys) (hq0 : q ≠ [])
    (hm : v.lookup q = some (.map m)) (h : v.enact? ⟨q ++ .key k :: r, x⟩ = some v') :
    ∃ y, follow? (Entries.get? m k) ⟨r, x⟩ = some y
      ∧ v'.lookup q = some (.map (Entries.change m k y)) := by
  have through := follow?_lookup hq hq0 h
  rw [hm] at through
  obtain ⟨c, c', hc, he, there⟩ := (follow?_eq_some_iff (List.cons_ne_nil _ _)).1 through
  cases hc
  obtain ⟨-, y, hy, rfl⟩ := enact?_key.1 he
  exact ⟨y, hy, there⟩

/-- A fragment above a node replaces it by what it has there. -/
theorem lookup_enact?_above (hq : (q ++ rest).AllKeys) (hrest : rest ≠ [])
    (h : v.enact? ⟨q, x⟩ = some v') :
    v'.lookup (q ++ rest) = x.bind (fun d => d.lookup rest) := by
  by_cases hq0 : q = []
  · subst hq0
    cases h
    cases x with
    | some x => rfl
    | none =>
      obtain ⟨s, rest, rfl⟩ := List.exists_cons_of_ne_nil hrest
      rfl
  · have follow := follow?_lookup (r := []) (fun s hs => hq s (List.mem_append_left rest hs)) hq0
      ((List.append_nil q).symm ▸ h)
    rw [lookup_append, ← Option.some.inj follow]

/-- A fragment that lies neither above nor below a node leaves it alone, if one of the two
is reached by keys. In a list the items move up when one before them is removed. -/
theorem lookup_enact?_apart (keys : q.AllKeys ∨ r.AllKeys) (above : ¬ q.startsWith r = true)
    (below : ¬ r.startsWith q = true) (h : v.enact? ⟨r, x⟩ = some v') :
    v'.lookup q = v.lookup q := by
  have apart : r.Apart q := ⟨below, above⟩
  obtain ⟨w, s, r', t, q', rfl, rfl, ne⟩ := apart.parted
  refine lookup_enact?_parted h ne fun _ => .inr ?_
  rcases keys with keys | keys
  · exact .inr (keys t (by simp))
  · exact .inl (keys s (by simp))

/-- A fragment that lies neither above nor below a node that is reached by keys leaves it
alone. -/
theorem lookup_enact?_aside (hq : q.AllKeys) (above : ¬ q.startsWith r = true)
    (below : ¬ r.startsWith q = true) (h : v.enact? ⟨r, x⟩ = some v') :
    v'.lookup q = v.lookup q :=
  lookup_enact?_apart (.inl hq) above below h

/-- A fragment that lies beyond another key of some mapping leaves a node
alone. -/
theorem lookup_enact?_beside {l : String} (hq : (p ++ .key k :: q).AllKeys) (ne : k ≠ l)
    (h : v.enact? ⟨p ++ .key l :: r, x⟩ = some v') :
    v'.lookup (p ++ .key k :: q) = v.lookup (p ++ .key k :: q) := by
  have apart {a b : String} {s t : Path} (hab : a ≠ b) :
      ¬ Path.startsWith (p ++ .key a :: s) (p ++ .key b :: t) = true := by
    rw [Path.startsWith, List.isPrefixOf_iff_prefix, List.prefix_append_right_inj,
      List.cons_prefix_cons]
    exact fun same => hab (Segment.key.inj same.1).symm
  exact lookup_enact?_aside hq (apart ne) (apart ne.symm) h

end Value

end HaCluster
