import HaCluster.Proofs.Tree.Follow

/-!
# Replaying a patch on one node

Replaying is more tolerant than editing: the removal of what is not there
succeeds. A fragment that comes for a node of a mapping is therefore replayed on
the node alone (`amend?`), and it fails in the tree exactly when it fails there:
whether an edit finds its place missing or of the wrong kind depends on nothing
but the node that its path goes through (`missing_remove_append`,
`amend?_of_apply`).
-/

namespace HaCluster.Value

variable {v v' c c' : Value} {s : Segment} {p q r path path' visited visited' : Path}
  {k : String} {m : Entries Value} {f : Fragment}

/-! ## What is missing -/

section Missing

variable {α β : Type} {x : Except DataError α}

/-- The place of an edit is not there. -/
def Missing (x : Except DataError α) : Prop := ∃ e, x = .error e ∧ e.isNotFound = true

@[simp] theorem not_missing_ok (a : α) : ¬ Missing (.ok a : Except DataError α) :=
  fun ⟨_, h, _⟩ => nomatch h

@[simp] theorem missing_error (e : DataError) :
    Missing (.error e : Except DataError α) ↔ e.isNotFound = true :=
  ⟨fun ⟨_, h, found⟩ => Except.error.inj h ▸ found, fun h => ⟨e, rfl, h⟩⟩

theorem missing_map (g : α → β) : Missing (x.map g) ↔ Missing x := by
  cases x <;> simp [Except.map]

theorem missing_take :
    Missing (take path v s) ↔ Missing (take path' v s) := by
  cases v <;> cases s <;> simp only [take, missing_error, DataError.isNotFound]
  case list.index l i => cases l[i]? <;> simp [DataError.isNotFound]
  case map.key m k => cases Entries.get? m k <;> simp [DataError.isNotFound]

variable {f g : Value → Except DataError (α × Value)}

/-- Whether the place of an edit is missing does not depend on how the place is
named in the error. -/
theorem missing_editAt (same : ∀ d, Missing (f d) ↔ Missing (g d)) :
    Missing (editAt f visited p v) ↔ Missing (editAt g visited' p v) := by
  induction p generalizing v visited visited' with
  | nil => exact same v
  | cons s p ih =>
    cases hs : v.step? s with
    | some child =>
      rw [editAt_cons hs, editAt_cons hs, missing_map, missing_map]
      exact ih
    | none =>
      unfold editAt
      rw [hs]
      cases v.accepts s <;> simp [DataError.isNotFound]

/-- An edit further down is an edit of the node there. -/
theorem editAt_append (h : v.lookup p = some c) :
    editAt f visited (p ++ q) v
      = (editAt f (visited ++ p) q c).map (fun r => (r.1, v.plug p r.2)) := by
  induction p generalizing v visited with
  | nil =>
    cases h
    rw [List.nil_append, List.append_nil]
    exact (congrFun Except.map_id _).symm
  | cons s p ih =>
    obtain ⟨d, hd, h⟩ := Option.bind_eq_some_iff.1 h
    rw [List.cons_append, editAt_cons hd, ih h, Path.child, List.append_assoc,
      List.singleton_append]
    cases editAt f (visited ++ s :: p) q c with
    | error e => rfl
    | ok r => exact congrArg (fun t => Except.ok (r.1, t)) (plug_cons hd).symm

end Missing

theorem missing_remove_concat :
    Missing (v.remove (p ++ [s])) ↔ Missing (editAt (fun c => take [s] c s) [] p v) := by
  have named : Missing (editAt (fun c => take (p ++ [s]) c s) [] p v)
      ↔ Missing (editAt (fun c => take [s] c s) [] p v) := missing_editAt fun d => missing_take
  rw [← named]
  unfold remove
  rw [List.getLast?_concat, List.dropLast_concat]
  dsimp only
  cases editAt (fun c => take (p ++ [s]) c s) [] p v with
  | ok r => simp
  | error e => cases e <;> simp [DataError.isNotFound]

/-! Whether a node is missing does not depend on the signs of zeros either. -/

theorem missing_take_plain : Missing (take path v.plain s) ↔ Missing (take path v s) := by
  cases v <;> cases s <;> try exact Iff.rfl
  case list.index l i =>
    rw [plain_list]
    cases h : l[i]? <;> simp [take, h]
  case map.key m k =>
    rw [plain_map]
    cases h : Entries.get? m k <;> simp [take, Entries.get?_mapValues, h]

theorem missing_editAt_plain :
    Missing (editAt (fun c => take path c s) visited p v.plain)
      ↔ Missing (editAt (fun c => take path c s) visited p v) := by
  induction p generalizing v visited with
  | nil => exact missing_take_plain
  | cons t p ih =>
    have same := step?_plain v t
    cases ht : v.step? t with
    | some child =>
      rw [ht] at same
      rw [editAt_cons ht, editAt_cons same, missing_map, missing_map]
      exact ih
    | none =>
      rw [ht] at same
      have accepted : v.plain.accepts t = v.accepts t := by cases v <;> cases t <;> rfl
      unfold editAt
      rw [ht, same, Option.map_none, accepted]
      cases v.accepts t <;> simp [DataError.isNotFound]

theorem missing_remove_plain : Missing (v.plain.remove p) ↔ Missing (v.remove p) := by
  cases p using List.reverseRecOn with
  | nil => exact iff_of_false (not_missing_ok _) (not_missing_ok _)
  | append_singleton p s =>
    rw [missing_remove_concat, missing_remove_concat]
    exact missing_editAt_plain

/-- **What an edit below a node misses, it misses in the node.** -/
theorem missing_remove_append (h : v.lookup p = some c) (hr : r ≠ []) :
    Missing (v.remove (p ++ r)) ↔ Missing (c.remove r) := by
  obtain ⟨q, s, rfl⟩ : ∃ q s, r = q ++ [s] :=
    ⟨r.dropLast, r.getLast hr, (List.dropLast_concat_getLast hr).symm⟩
  rw [← List.append_assoc, missing_remove_concat, missing_remove_concat, editAt_append h,
    missing_map]
  exact missing_editAt (fun d => Iff.rfl)

/-- Replaying a fragment makes the edit that it names, or passes over the
removal of what is missing. -/
theorem apply_eq_ok_iff :
    v.apply f = .ok v'
      ↔ v.enact? f = some v' ∨ f.value = none ∧ Missing (v.remove f.path) ∧ v' = v := by
  obtain ⟨p, x⟩ := f
  cases x with
  | some x =>
    rw [or_iff_left (fun no => nomatch no.1)]
    exact store_eq_ok_iff
  | none =>
    unfold apply
    dsimp only
    cases hr : v.remove p with
    | ok r =>
      obtain ⟨-, change⟩ := remove_eq_ok_iff.1 hr
      rw [change]
      simp
    | error e =>
      have no : v.enact? ⟨p, none⟩ ≠ some v' := by
        intro change
        obtain ⟨old, ok⟩ := remove_of_enact?_none change
        rw [hr] at ok
        cases ok
      rw [or_iff_right no]
      cases e <;> simp [DataError.isNotFound, eq_comm]

/-! ## One node -/

/-- What becomes of a node, or of none, when a fragment seen from it is
replayed: a fragment for the root says it, and any other one is replayed on the
node. Where there is none, only a removal passes. -/
def amend? (old : Option Value) (f : Fragment) : Option (Option Value) :=
  if f.path = [] then some f.value
  else
    match old with
    | some c => (c.apply f).toOption.map some
    | none => if f.value.isNone then some none else none

/-- What becomes of a node, or of none, when fragments are replayed. -/
def amendAll? (old : Option Value) (fs : List Fragment) : Option (Option Value) :=
  fs.foldlM amend? old

variable {old y : Option Value}

theorem amendAll?_cons (old : Option Value) (f : Fragment) (fs : List Fragment) :
    amendAll? old (f :: fs) = (amend? old f).bind (fun y => amendAll? y fs) := rfl

theorem amendAll?_append (old : Option Value) (fs gs : List Fragment) :
    amendAll? old (fs ++ gs) = (amendAll? old fs).bind (fun y => amendAll? y gs) :=
  List.foldlM_append

/-- What can be followed is replayed. -/
theorem amend?_of_follow? (h : follow? old f = some y) : amend? old f = some y := by
  obtain ⟨r, x⟩ := f
  by_cases hr : r = []
  · subst hr
    exact h
  · obtain ⟨c, c', rfl, change, rfl⟩ := (follow?_eq_some_iff hr).1 h
    unfold amend?
    rw [if_neg hr]
    dsimp only
    rw [apply_of_enact? change]
    rfl

/-- The removal of something below a key that is missing is missing in what the
key holds, if it holds anything. -/
theorem amend?_of_missing (h : v.lookup p = some (.map m))
    (missing : Missing (v.remove (p.key k ++ r))) :
    amend? (Entries.get? m k) ⟨r, none⟩ = some (Entries.get? m k) := by
  have there := lookup_key h k
  cases hk : Entries.get? m k with
  | none =>
    unfold amend?
    split <;> rfl
  | some c =>
    rw [hk] at there
    by_cases hr : r = []
    · -- the key holds something, so it can be removed
      subst hr
      obtain ⟨w, gone⟩ := enact?_key_ok (k := k) (x := none) h (.inr (by rw [hk]; rfl))
      obtain ⟨old, ok⟩ := remove_of_enact?_none gone
      rw [List.append_nil, ok] at missing
      exact absurd missing (not_missing_ok _)
    · have passed : c.apply ⟨r, none⟩ = .ok c :=
        apply_eq_ok_iff.2 (.inr ⟨rfl, (missing_remove_append there hr).1 missing, rfl⟩)
      unfold amend?
      rw [if_neg hr]
      dsimp only
      rw [passed]
      rfl

/-- **A fragment that is replayed below a key** is replayed on what the key
holds, and leaves every other key alone. -/
theorem amend?_of_apply (h : v.lookup p = some (.map m))
    (done : v.apply (f.rebase (p.key k)) = .ok v') :
    ∃ m', v'.lookup p = some (.map m') ∧ amend? (Entries.get? m k) f = some (Entries.get? m' k)
      ∧ ∀ l, l ≠ k → Entries.get? m' l = Entries.get? m l := by
  obtain ⟨r, x⟩ := f
  rcases apply_eq_ok_iff.1 done with change | ⟨none, missing, rfl⟩
  · change v.enact? ⟨p ++ [.key k] ++ r, x⟩ = some v' at change
    rw [List.append_assoc, List.singleton_append, enact?_append (List.cons_ne_nil _ _), h,
      Option.bind_some] at change
    obtain ⟨d, hd, rfl⟩ := Option.map_eq_some_iff.1 change
    obtain ⟨-, y, hy, rfl⟩ := enact?_key.1 hd
    refine ⟨_, lookup_plug h, ?_, fun l hl => ?_⟩
    · rw [Entries.get?_change, if_pos rfl]
      exact amend?_of_follow? hy
    · rw [Entries.get?_change, if_neg hl]
  · obtain rfl : x = Option.none := none
    exact ⟨m, h, amend?_of_missing h missing, fun l hl => rfl⟩

end HaCluster.Value
