import HaCluster.Proofs.Tree.Amend
import HaCluster.Proofs.Tree.Keep

/-!
# Differences lead from one tree to the other

Replaying the difference of two trees on the older one gives the newer one
(`exists_replays`). Scalars that are equal as numbers are passed over, so what it
gives is the newer tree but for the signs of zeros; whatever the difference names is
exactly as the difference says (`Shows`).

Inside a mapping each key is dealt with on its own; what the replay has
reached is the mapping that holds the new values under the keys dealt with and
the old ones elsewhere. Inside a list it is the new items up to an index,
followed by the old ones from there on; the surplus is then taken off from the
tail.
-/

namespace HaCluster

namespace Value

variable {v o n : Value} {p : Path}

/-! ## Differences further down -/

theorem changesOfItems_cons (p : Path) (i : Nat) (o : List Value) (v : Value)
    (rest : List Value) :
    changesOfItems p i o (v :: rest)
      = (match o with
          | o :: _ => changes (p.child (.index i)) o v
          | [] => [Fragment.set (p.child (.index i)) v])
        ++ changesOfItems p (i + 1) o.tail rest := by
  cases o <;> rfl

mutual

/-- The difference at a path is the difference at the root, seen from there. -/
theorem changes_append (p q : Path) (o n : Value) :
    changes (p ++ q) o n = (changes q o n).map (Fragment.rebase p) := by
  match n with
  | .map n =>
    cases o <;> simp only [changes, List.map_cons, List.map_nil]
    case map o =>
      rw [changesOfEntries_append, List.map_append, List.map_map]
      refine congrArg (· ++ _) (List.map_congr_left (fun e _ => ?_))
      exact congrArg Fragment.unset (List.append_assoc ..)
    all_goals rfl
  | .list n =>
    cases o <;> simp only [changes, List.map_cons, List.map_nil]
    case list o =>
      rw [changesOfItems_append, List.map_append, List.map_map]
      refine congrArg (_ ++ ·) (List.map_congr_left (fun i _ => ?_))
      exact congrArg Fragment.unset (List.append_assoc ..)
    all_goals rfl
  | .null | .bool _ | .int _ | .float _ | .str _ =>
    simp only [changes]
    split <;> rfl

theorem changesOfEntries_append (p q : Path) (o n : List (String × Value)) :
    changesOfEntries (p ++ q) o n = (changesOfEntries q o n).map (Fragment.rebase p) := by
  match n with
  | [] => rfl
  | (k, v) :: rest =>
    have down : (p ++ q).key k = p ++ q.key k := List.append_assoc ..
    rw [changesOfEntries, changesOfEntries, List.map_append, changesOfEntries_append, down]
    cases Entries.get? o k with
    | none => rfl
    | some o => exact congrArg (· ++ _) (changes_append p (q.key k) o v)

theorem changesOfItems_append (p q : Path) (i : Nat) (o n : List Value) :
    changesOfItems (p ++ q) i o n = (changesOfItems q i o n).map (Fragment.rebase p) := by
  match n with
  | [] => rfl
  | v :: rest =>
    have down : (p ++ q).child (.index i) = p ++ q.child (.index i) := List.append_assoc ..
    rw [changesOfItems_cons, changesOfItems_cons, List.map_append, changesOfItems_append, down]
    cases o with
    | nil => rfl
    | cons o os => exact congrArg (· ++ _) (changes_append p (q.child (.index i)) o v)

end

theorem changes_eq_rebase (p : Path) (o n : Value) :
    changes p o n = (changes [] o n).map (Fragment.rebase p) := by
  rw [← changes_append, List.append_nil]

/-! ## What a difference stores -/

/-- A fragment fits a tree: what it stores is what the tree holds, and it does
not remove the root. -/
def Fits (n : Value) (f : Fragment) : Prop :=
  match f.value with
  | none => f.path ≠ []
  | some x => n.lookup f.path = some x

theorem Fits.isSome {f : Fragment} (h : n.Fits f) (hf : f.path = []) : f.value.isSome := by
  unfold Fits at h
  split at h
  · exact absurd hf h
  · rename_i hx
    rw [hx]
    rfl

theorem Fits.everywhere {r : Value → Prop} {f : Fragment} (h : n.Fits f)
    (hn : Everywhere r n) : f.Everywhere r := by
  intro x hx
  rw [Fits, hx] at h
  exact hn.lookup h

theorem Fits.rebase {f : Fragment} (h : v.Fits f) (hv : n.lookup p = some v) :
    n.Fits (f.rebase p) := by
  unfold Fits at h ⊢
  show match f.value with
    | none => p ++ f.path ≠ []
    | some x => n.lookup (p ++ f.path) = some x
  split
  · rename_i hx
    rw [hx] at h
    exact List.append_ne_nil_of_right_ne_nil p h
  · rename_i x hx
    rw [hx] at h
    rw [lookup_append, hv]
    exact h

mutual

/-- Every fragment of a difference fits the newer tree. -/
theorem fits_of_mem_changes {o n : Value} (hn : Sorted n) {f : Fragment}
    (hf : f ∈ changes [] o n) : n.Fits f := by
  match n with
  | .map n =>
    have whole : Fits (.map n) (.set [] (.map n)) := rfl
    cases o <;> simp only [changes, List.mem_singleton] at hf
    case map o =>
      rcases List.mem_append.1 hf with hf | hf
      · obtain ⟨e, -, rfl⟩ := List.mem_map.1 hf
        exact List.cons_ne_nil _ _
      · exact fits_of_mem_changesOfEntries hn.2
          (fun e he => hn.entries.get?_of_mem he) hf
    all_goals exact hf ▸ whole
  | .list n =>
    have whole : Fits (.list n) (.set [] (.list n)) := rfl
    cases o <;> simp only [changes, List.mem_singleton] at hf
    case list o =>
      rcases List.mem_append.1 hf with hf | hf
      · exact fits_of_mem_changesOfItems hn.2 (fun j => by rw [Nat.zero_add]) hf
      · obtain ⟨i, -, rfl⟩ := List.mem_map.1 hf
        exact List.cons_ne_nil _ _
    all_goals exact hf ▸ whole
  | .null | .bool _ | .int _ | .float _ | .str _ =>
    simp only [changes] at hf
    split at hf
    · cases hf
    · rw [List.mem_singleton.1 hf]
      rfl

theorem fits_of_mem_changesOfEntries {o rest : List (String × Value)}
    {n : Entries Value} (hrest : EverywhereEntries isSorted rest)
    (there : ∀ e ∈ rest, Entries.get? n e.1 = some e.2) {f : Fragment}
    (hf : f ∈ changesOfEntries [] o rest) : Fits (.map n) f := by
  match rest with
  | [] => cases hf
  | (k, v) :: rest =>
    have hk : lookup (.map n) (Path.key [] k) = some v := by
      rw [Path.key, Path.child, List.nil_append, lookup_cons, step?_map,
        there (k, v) List.mem_cons_self]
      rfl
    rw [changesOfEntries] at hf
    rcases List.mem_append.1 hf with hf | hf
    · split at hf
      · rw [changes_eq_rebase] at hf
        obtain ⟨g, hg, rfl⟩ := List.mem_map.1 hf
        exact (fits_of_mem_changes hrest.1 hg).rebase hk
      · rw [List.mem_singleton.1 hf]
        exact hk
    · exact fits_of_mem_changesOfEntries hrest.2
        (fun e he => there e (List.mem_cons_of_mem _ he)) hf

theorem fits_of_mem_changesOfItems {o rest n : List Value} {i : Nat}
    (hrest : EverywhereItems isSorted rest)
    (there : ∀ j, n[i + j]? = rest[j]?) {f : Fragment}
    (hf : f ∈ changesOfItems [] i o rest) : Fits (.list n) f := by
  match rest with
  | [] => cases hf
  | v :: rest =>
    have hi : lookup (.list n) (Path.child [] (.index i)) = some v := by
      rw [Path.child, List.nil_append, lookup_cons]
      show (n[i]?).bind _ = _
      rw [show n[i]? = some v from there 0]
      rfl
    rw [changesOfItems_cons] at hf
    rcases List.mem_append.1 hf with hf | hf
    · split at hf
      · rw [changes_eq_rebase] at hf
        obtain ⟨g, hg, rfl⟩ := List.mem_map.1 hf
        exact (fits_of_mem_changes hrest.1 hg).rebase hi
      · rw [List.mem_singleton.1 hf]
        exact hi
    · refine fits_of_mem_changesOfItems hrest.2 (fun j => ?_) hf
      rw [Nat.add_assoc, Nat.add_comm 1 j]
      exact there (j + 1)

end

/-! ## Taking the surplus away -/

/-- Keys that a mapping has can be taken out one after the other. -/
theorem enactAll?_unsetKeys {gone : List (String × Value)} {m : Entries Value}
    (hg : Entries.Sorted gone) (hm : Sorted (.map m))
    (there : ∀ e ∈ gone, (Entries.get? m e.1).isSome) :
    ∃ m', enactAll? (.map m) (gone.map (fun e => Fragment.unset (Path.key [] e.1)))
        = some (.map m') ∧ Sorted (.map m')
      ∧ ∀ key, Entries.get? m' key
          = if Entries.contains gone key then none else Entries.get? m key := by
  induction gone generalizing m with
  | nil => exact ⟨m, rfl, hm, fun key => rfl⟩
  | cons e gone ih =>
    obtain ⟨k, x⟩ := e
    obtain ⟨lt, hg⟩ := Entries.sorted_cons.1 hg
    have first : enact? (.map m) (Fragment.unset (Path.key [] k))
        = some (.map (Entries.change m k none)) := by
      refine (enact?_step none).trans (edit?_map_eq_some.2 ⟨.inr ?_, rfl⟩)
      exact there (k, x) List.mem_cons_self
    have hm1 : Sorted (.map (Entries.change m k none)) :=
      hm.change closed_isSorted k (fun y hy => nomatch hy)
    obtain ⟨m', run, hm', get⟩ := ih hg hm1 (fun e he => by
      rw [Entries.get?_change, if_neg (String.ne_of_lt (lt e he)).symm]
      exact there e (List.mem_cons_of_mem _ he))
    refine ⟨m', ?_, hm', fun key => ?_⟩
    · rw [List.map_cons, enactAll?_cons, first, Option.bind_some]
      exact run
    · rw [get, Entries.get?_change, Entries.contains, Entries.contains, Entries.get?_cons]
      by_cases hk : k = key
      · simp [hk]
      · rw [if_neg hk, if_neg (Ne.symm hk)]

/-- The items from an index on are taken off from the tail. -/
theorem enactAll?_unsetTail (done surplus : List Value) :
    enactAll? (.list (done ++ surplus))
      (((List.range (done ++ surplus).length).drop done.length).reverse.map
        (fun i => Fragment.unset (Path.child [] (.index i)))) = some (.list done) := by
  induction surplus using List.reverseRecOn with
  | nil =>
    rw [List.append_nil, List.drop_of_length_le (by simp)]
    rfl
  | append_singleton surplus x ih =>
    have len : (done ++ (surplus ++ [x])).length = (done ++ surplus).length + 1 := by
      simp [Nat.add_assoc]
    have last : enact? (.list (done ++ (surplus ++ [x])))
        (Fragment.unset (Path.child [] (.index (done ++ surplus).length)))
          = some (.list (done ++ surplus)) := by
      refine (enact?_step none).trans ?_
      simp only [edit?]
      rw [if_pos (len ▸ Nat.lt_succ_self _), ← List.append_assoc,
        List.eraseIdx_append_of_length_le (Nat.le_refl _), Nat.sub_self]
      simp
    rw [len, List.range_succ, List.drop_append_of_le_length (by simp), List.reverse_append,
      List.map_append, enactAll?_append]
    show (enactAll? _ [_]).bind _ = _
    rw [enactAll?_cons, last, Option.bind_some, enactAll?_nil, Option.bind_some]
    exact ih

/-! ## Replaying a difference -/

/-- What a fragment says is so already: the value that it stores is there, or the node that
it removes is missing. -/
def Shows (v : Value) (f : Fragment) : Prop :=
  match f.value with
  | some x => v.lookup f.path = some x
  | none => Missing (v.remove f.path)

/-- What a fragment says of a node, the fragment seen from further up says of the tree. -/
theorem Shows.rebase {v c : Value} {f : Fragment} (h : c.Shows f) (hc : v.lookup p = some c) :
    v.Shows (f.rebase p) := by
  obtain ⟨q, x⟩ := f
  cases x with
  | some x =>
    show v.lookup (p ++ q) = some x
    rw [lookup_append, hc]
    exact h
  | none =>
    have below : q ≠ [] := by
      rintro rfl
      exact not_missing_ok _ h
    exact (missing_remove_append hc below).2 h

theorem shows_unset_key {m : Entries Value} {k : String} (h : Entries.get? m k = none) :
    Shows (.map m) (.unset (Path.key [] k)) :=
  ⟨_, remove_absent (p := []) rfl h, rfl⟩

theorem shows_unset_index {l : List Value} {i : Nat} (h : l.length ≤ i) :
    Shows (.list l) (.unset (Path.child [] (.index i))) := by
  refine (missing_remove_concat (p := [])).2 ⟨.notFound [.index i], ?_, rfl⟩
  simp only [editAt, take]
  rw [List.getElem?_eq_none h]

/-- **What replaying the difference of two trees on the older one makes**: a tree that is the
newer one but for the signs of zeros, and in which every fragment of the difference shows. -/
structure Replays (o n r : Value) : Prop where
  run : o.enactAll? (changes [] o n) = some r
  sorted : r.Sorted
  plain : r.plain = n.plain
  shows : ∀ f ∈ changes [] o n, r.Shows f

namespace Replays

variable {o n r w : Value}

/-- A difference that is replayed at the root is replayed further down. -/
theorem below (h : Replays o n r) (hn : Sorted n) (hw : Sorted w) (there : w.lookup p = some o) :
    w.enactAll? (changes p o n) = some (w.plug p r) := by
  rw [changes_eq_rebase]
  exact enactAll?_rebase hw there (fun f hf => (fits_of_mem_changes hn hf).isSome) h.run

/-- Wherever the result lies, the fragments of the difference show. -/
theorem shows_below (h : Replays o n r) (there : w.lookup p = some r) :
    ∀ f ∈ changes p o n, w.Shows f := by
  intro f hf
  rw [changes_eq_rebase] at hf
  obtain ⟨g, hg, rfl⟩ := List.mem_map.1 hf
  exact (h.shows g hg).rebase there

/-- A node that is set as a whole. -/
theorem whole (hn : Sorted n) (set : changes [] o n = [.set [] n]) : Replays o n n where
  run := by
    rw [set]
    rfl
  sorted := hn
  plain := rfl
  shows f hf := by
    rw [set] at hf
    obtain rfl := List.mem_singleton.1 hf
    rfl

/-- A scalar is set unless it is there already. -/
theorem of_scalar (ho : Sorted o) (hn : Sorted n)
    (set : changes [] o n = if o == n then [] else [.set [] n]) : ∃ r, Replays o n r := by
  by_cases same : (o == n) = true
  · rw [if_pos same] at set
    exact ⟨o, by rw [set]; rfl, ho, plain_eq_of_beq same, by rw [set]; exact fun f hf => nomatch hf⟩
  · rw [if_neg same] at set
    exact ⟨n, whole hn set⟩

/-- The difference of what a key holds gives the key its new value. -/
theorem key {m : Entries Value} {k : String} (h : Replays o n r) (hn : Sorted n)
    (hm : Sorted (.map m)) (hk : Entries.get? m k = some o) :
    enactAll? (.map m) (changes (Path.key [] k) o n) = some (.map (Entries.insert m k r)) := by
  rw [h.below hn hm]
  · exact congrArg some (plug_cons hk)
  · exact lookup_cons.trans (by rw [step?_map, hk]; rfl)

/-- The difference of two items gives the place its new item. -/
theorem item {l os : List Value} (h : Replays o n r) (hn : Sorted n)
    (hl : Sorted (.list (l ++ o :: os))) :
    enactAll? (.list (l ++ o :: os)) (changes (Path.child [] (.index l.length)) o n)
      = some (.list (l ++ r :: os)) := by
  have there : step? (.list (l ++ o :: os)) (.index l.length) = some o := by
    show (l ++ o :: os)[l.length]? = some o
    rw [List.getElem?_append_right (Nat.le_refl _), Nat.sub_self]
    rfl
  rw [h.below hn hl]
  · refine congrArg some ((plug_cons there).trans ?_)
    show Value.list ((l ++ o :: os).set l.length r) = _
    rw [List.set_append_right _ _ (Nat.le_refl _), Nat.sub_self]
    rfl
  · exact lookup_cons.trans (by rw [there]; rfl)

end Replays

/-- An item stored at the end of a list is appended to it. -/
theorem enactAll?_append_item (l : List Value) (v : Value) :
    enactAll? (.list l) [.set (Path.child [] (.index l.length)) v] = some (.list (l ++ [v])) := by
  rw [enactAll?_cons]
  refine Option.bind_eq_some_iff.2 ⟨_, (enact?_step (some v)).trans ?_, rfl⟩
  simp [edit?]

/-- What lies at a place of a list after items that are passed over. -/
theorem lookup_item (l os : List Value) (v : Value) :
    lookup (.list (l ++ v :: os)) (Path.child [] (.index l.length)) = some v := by
  show (step? (.list (l ++ v :: os)) (.index l.length)).bind some = some v
  rw [Option.bind_fun_some]
  show (l ++ v :: os)[l.length]? = some v
  rw [List.getElem?_append_right (Nat.le_refl _), Nat.sub_self]
  rfl

/-- **What the changes of the entries of a newer mapping make of a mapping**: its keys get their
values, up to the signs of zeros, and the other keys keep theirs. -/
structure EntriesReplayed (o rest m m' : Entries Value) : Prop where
  run : enactAll? (.map m) (changesOfEntries [] o rest) = some (.map m')
  sorted : Sorted (.map m')
  values : ∀ key v, Entries.get? rest key = some v →
    (Entries.get? m' key).map Value.plain = some v.plain
  kept : ∀ key, Entries.get? rest key = none → Entries.get? m' key = Entries.get? m key
  shows : ∀ f ∈ changesOfEntries [] o rest, Shows (.map m') f

/-- **What the changes of the items of a newer list make of a list**: behind the items `l` that
came before, one item for each, up to the signs of zeros, and then what is left over. -/
structure ItemsReplayed (o rest l rs : List Value) : Prop where
  plain : rs.map Value.plain = rest.map Value.plain
  sorted : ∀ v ∈ rs, Sorted v
  run : enactAll? (.list (l ++ o)) (changesOfItems [] l.length o rest)
    = some (.list (l ++ rs ++ o.drop rest.length))
  shows (t : List Value) : ∀ f ∈ changesOfItems [] l.length o rest, Shows (.list (l ++ rs ++ t)) f

/-- Two mappings: the keys that went away are taken out first, then every key of the newer one
gets its value. -/
theorem Replays.of_map {o n : Entries Value} (ho : Sorted (.map o)) (hn : Sorted (.map n))
    (entries : ∀ m : Entries Value, Sorted (.map m) →
      (∀ e ∈ n, Entries.get? m e.1 = Entries.get? o e.1) → ∃ m', EntriesReplayed o n m m') :
    ∃ r, Replays (.map o) (.map n) r := by
  have hgone : Entries.Sorted (o.filter (fun e => !Entries.contains n e.1)) :=
    ho.entries.filter _
  have inGone (key : String) :
      Entries.contains (o.filter (fun e => !Entries.contains n e.1)) key
        = (!(Entries.get? n key).isSome && (Entries.get? o key).isSome) := by
    rw [Entries.contains, Entries.get?_filter (fun key => !Entries.contains n key),
      Entries.contains]
    cases (Entries.get? n key).isSome <;> rfl
  obtain ⟨m, removed, hm, get⟩ := enactAll?_unsetKeys hgone ho (fun e he => by
    rw [ho.entries.get?_of_mem (List.mem_filter.1 he).1]
    rfl)
  have agree : ∀ e ∈ n, Entries.get? m e.1 = Entries.get? o e.1 := by
    intro e he
    rw [get, inGone, hn.entries.get?_of_mem he]
    rfl
  obtain ⟨m', replayed⟩ := entries m hm agree
  have elsewhere {key : String} (absent : Entries.get? n key = none) :
      Entries.get? m' key = none := by
    rw [replayed.kept key absent, get, inGone, absent]
    cases Entries.get? o key <;> rfl
  refine ⟨.map m', ?_, replayed.sorted, ?_, fun f hf => ?_⟩
  · simp only [changes]
    rw [enactAll?_append, removed, Option.bind_some, replayed.run]
  · rw [plain_map, plain_map]
    refine congrArg Value.map ((Entries.sorted_mapValues.2 replayed.sorted.entries).ext
      (Entries.sorted_mapValues.2 hn.entries) fun key => ?_)
    rw [Entries.get?_mapValues, Entries.get?_mapValues]
    cases hkey : Entries.get? n key with
    | none => rw [elsewhere hkey]
    | some v => exact replayed.values key v hkey
  · simp only [changes] at hf
    rcases List.mem_append.1 hf with hf | hf
    · obtain ⟨e, he, rfl⟩ := List.mem_map.1 hf
      refine shows_unset_key (elsewhere (Option.not_isSome_iff_eq_none.1 ?_))
      simpa [Entries.contains] using (List.mem_filter.1 he).2
    · exact replayed.shows f hf

/-- Two lists: every place of the newer one gets its item, then what is left over is taken off
from the tail. -/
theorem Replays.of_list {o n rs : List Value} (replayed : ItemsReplayed o n [] rs) :
    ∃ r, Replays (.list o) (.list n) r := by
  have len : rs.length = n.length := by simpa using congrArg List.length replayed.plain
  have surplus : (List.range (rs ++ o.drop n.length).length).drop rs.length
      = (List.range o.length).drop n.length := by
    rw [List.length_append, List.length_drop, len]
    rcases Nat.le_total n.length o.length with le | le
    · rw [Nat.add_sub_cancel' le]
    · rw [Nat.sub_eq_zero_of_le le, List.drop_of_length_le (by simp),
        List.drop_of_length_le (by simpa using le)]
  have taken := enactAll?_unsetTail rs (o.drop n.length)
  rw [surplus] at taken
  refine ⟨.list rs, ?_, everywhere_list.2 ⟨trivial, replayed.sorted⟩, ?_, fun f hf => ?_⟩
  · simp only [changes]
    have run := replayed.run
    rw [List.nil_append, List.nil_append] at run
    rw [enactAll?_append, ← List.length_nil (α := Value), run, Option.bind_some]
    exact taken
  · rw [plain_list, plain_list, replayed.plain]
  · simp only [changes] at hf
    rcases List.mem_append.1 hf with hf | hf
    · simpa using replayed.shows [] f hf
    · obtain ⟨i, hi, rfl⟩ := List.mem_map.1 hf
      refine shows_unset_index ?_
      rw [len]
      obtain ⟨j, hj, rfl⟩ := List.mem_iff_getElem.1 (List.mem_reverse.1 hi)
      simp

/-- One key after the other: the first gets its value by the fragments `fs`. -/
theorem EntriesReplayed.cons {o rest m m' : Entries Value} {k : String} {v r : Value}
    {fs : List Fragment} (lt : ∀ e ∈ rest, k < e.1)
    (split : changesOfEntries [] o ((k, v) :: rest) = fs ++ changesOfEntries [] o rest)
    (first : enactAll? (.map m) fs = some (.map (Entries.insert m k r)))
    (plain : r.plain = v.plain)
    (shows : ∀ m', Entries.get? m' k = some r → ∀ f ∈ fs, Shows (.map m') f)
    (later : EntriesReplayed o rest (Entries.insert m k r) m') :
    EntriesReplayed o ((k, v) :: rest) m m' := by
  have notLater : Entries.get? rest k = none :=
    Entries.get?_eq_none_iff.2 (fun e he => (String.ne_of_lt (lt e he)).symm)
  have there : Entries.get? m' k = some r := by
    rw [later.kept k notLater, Entries.get?_insert_self]
  refine ⟨?_, later.sorted, fun key w hw => ?_, fun key absent => ?_, fun f hf => ?_⟩
  · rw [split, enactAll?_append, first, Option.bind_some, later.run]
  · rw [Entries.get?_cons] at hw
    by_cases hkey : k = key
    · subst hkey
      rw [if_pos rfl] at hw
      obtain rfl := Option.some.inj hw
      rw [there, Option.map_some, plain]
    · rw [if_neg hkey] at hw
      exact later.values key w hw
  · rw [Entries.get?_cons] at absent
    by_cases hkey : k = key
    · rw [if_pos hkey] at absent
      cases absent
    · rw [if_neg hkey] at absent
      rw [later.kept key absent, Entries.get?_insert_of_ne _ _ (Ne.symm hkey)]
  · rw [split] at hf
    rcases List.mem_append.1 hf with hf | hf
    · exact shows m' there f hf
    · exact later.shows f hf

/-- One item after the other: the first gets its place by the fragments `fs`. -/
theorem ItemsReplayed.cons {o rest l rs : List Value} {v r : Value} {fs : List Fragment}
    (split : changesOfItems [] l.length o (v :: rest)
      = fs ++ changesOfItems [] (l.length + 1) o.tail rest)
    (first : enactAll? (.list (l ++ o)) fs = some (.list (l ++ r :: o.tail)))
    (sorted : r.Sorted) (plain : r.plain = v.plain)
    (shows : ∀ os, ∀ f ∈ fs, Shows (.list (l ++ r :: os)) f)
    (later : ItemsReplayed o.tail rest (l ++ [r]) rs) : ItemsReplayed o (v :: rest) l (r :: rs) := by
  have next : (l ++ [r]).length = l.length + 1 := by simp
  refine ⟨by rw [List.map_cons, List.map_cons, plain, later.plain], fun w hw => ?_, ?_,
    fun t f hf => ?_⟩
  · rcases List.mem_cons.1 hw with rfl | hw
    · exact sorted
    · exact later.sorted w hw
  · have run := later.run
    rw [next] at run
    rw [split, enactAll?_append, first, Option.bind_some]
    simpa [List.append_assoc] using run
  · rw [split] at hf
    rcases List.mem_append.1 hf with hf | hf
    · simpa [List.append_assoc] using shows (rs ++ t) f hf
    · rw [← next] at hf
      simpa [List.append_assoc] using later.shows t f hf

mutual

/-- **Replaying the difference of two trees on the older one** gives the newer
one, up to the signs of zeros. -/
theorem exists_replays {o n : Value} (ho : Sorted o) (hn : Sorted n) :
    ∃ r, Replays o n r := by
  match n with
  | .map n =>
    cases o
    case map o =>
      exact Replays.of_map ho hn fun m hm agree => exists_entriesReplayed ho.2 hn.2 hn.entries hm agree
    all_goals exact ⟨_, .whole hn (by simp only [changes])⟩
  | .list n =>
    cases o
    case list o =>
      obtain ⟨rs, replayed⟩ := exists_itemsReplayed (l := []) ho.2 hn.2 (fun v hv => nomatch hv)
      exact Replays.of_list replayed
    all_goals exact ⟨_, .whole hn (by simp only [changes])⟩
  | .null | .bool _ | .int _ | .float _ | .str _ =>
    exact Replays.of_scalar ho hn (by simp only [changes])

/-- The keys of a newer mapping get their values one after the other. -/
theorem exists_entriesReplayed {o rest : List (String × Value)} {m : Entries Value}
    (ho : EverywhereEntries isSorted o) (hrest : EverywhereEntries isSorted rest)
    (asc : Entries.Sorted rest) (hm : Sorted (.map m))
    (agree : ∀ e ∈ rest, Entries.get? m e.1 = Entries.get? o e.1) :
    ∃ m', EntriesReplayed o rest m m' := by
  match rest with
  | [] =>
    refine ⟨m, rfl, hm, fun key v h => ?_, fun key _ => rfl, fun f hf => ?_⟩
    · cases h
    · rw [changesOfEntries] at hf
      cases hf
  | (k, v) :: rest =>
    obtain ⟨lt, asc⟩ := Entries.sorted_cons.1 asc
    obtain ⟨fs, r, split, first, hr, plain, shows⟩ : ∃ fs r,
        changesOfEntries [] o ((k, v) :: rest) = fs ++ changesOfEntries [] o rest
          ∧ enactAll? (.map m) fs = some (.map (Entries.insert m k r))
          ∧ r.Sorted ∧ r.plain = v.plain
          ∧ ∀ m', Entries.get? m' k = some r → ∀ f ∈ fs, Shows (.map m') f := by
      have hk : Entries.get? m k = Entries.get? o k := agree (k, v) List.mem_cons_self
      have lies {m' : Entries Value} {r : Value} (there : Entries.get? m' k = some r) :
          lookup (.map m') (Path.key [] k) = some r :=
        lookup_cons.trans (by rw [step?_map, there]; rfl)
      cases hok : Entries.get? o k with
      | none =>
        refine ⟨_, v, by rw [changesOfEntries, hok], rfl, hrest.1, rfl, fun m' there f hf => ?_⟩
        obtain rfl := List.mem_singleton.1 hf
        exact lies there
      | some old =>
        have hold : Sorted old := everywhereEntries_iff.1 ho (k, old) (Entries.mem_of_get? hok)
        rw [hok] at hk
        obtain ⟨r, h⟩ := exists_replays hold hrest.1
        exact ⟨_, r, by rw [changesOfEntries, hok], h.key hrest.1 hm hk, h.sorted, h.plain,
          fun m' there => h.shows_below (lies there)⟩
    have hm1 : Sorted (.map (Entries.insert m k r)) :=
      hm.change closed_isSorted k (x := some r) (by
        rintro y ⟨⟩
        exact hr)
    obtain ⟨m', later⟩ := exists_entriesReplayed ho hrest.2 asc hm1 (fun e he => by
      rw [Entries.get?_insert, if_neg (String.ne_of_lt (lt e he)).symm]
      exact agree e (List.mem_cons_of_mem _ he))
    exact ⟨m', later.cons lt split first plain shows⟩

/-- The places of a newer list get their items one after the other. -/
theorem exists_itemsReplayed {o rest l : List Value} (ho : EverywhereItems isSorted o)
    (hrest : EverywhereItems isSorted rest) (hl : ∀ v ∈ l, Sorted v) :
    ∃ rs, ItemsReplayed o rest l rs := by
  match rest with
  | [] =>
    refine ⟨[], rfl, fun v hv => absurd hv List.not_mem_nil, ?_, fun t f hf => ?_⟩
    · simp [changesOfItems, enactAll?_nil]
    · rw [changesOfItems] at hf
      cases hf
  | v :: rest =>
    obtain ⟨fs, r, split, first, hr, plain, shows⟩ : ∃ fs r,
        changesOfItems [] l.length o (v :: rest)
            = fs ++ changesOfItems [] (l.length + 1) o.tail rest
          ∧ enactAll? (.list (l ++ o)) fs = some (.list (l ++ r :: o.tail))
          ∧ r.Sorted ∧ r.plain = v.plain
          ∧ ∀ os, ∀ f ∈ fs, Shows (.list (l ++ r :: os)) f := by
      cases o with
      | nil =>
        refine ⟨_, v, changesOfItems_cons .., ?_, hrest.1, rfl, fun os f hf => ?_⟩
        · rw [List.append_nil]
          exact enactAll?_append_item l v
        · obtain rfl := List.mem_singleton.1 hf
          exact lookup_item l os v
      | cons old os =>
        obtain ⟨r, h⟩ := exists_replays ho.1 hrest.1
        refine ⟨_, r, changesOfItems_cons .., h.item hrest.1 ?_, h.sorted, h.plain,
          fun os => h.shows_below (lookup_item l os r)⟩
        refine everywhere_list.2 ⟨trivial, fun w hw => ?_⟩
        rcases List.mem_append.1 hw with hw | hw
        · exact hl w hw
        · exact everywhereItems_iff.1 ho w hw
    have ho1 : EverywhereItems isSorted o.tail := by
      cases o with
      | nil => exact ho
      | cons o os => exact ho.2
    have hl1 : ∀ w ∈ l ++ [r], Sorted w := by
      intro w hw
      rcases List.mem_append.1 hw with hw | hw
      · exact hl w hw
      · exact List.mem_singleton.1 hw ▸ hr
    obtain ⟨rs, later⟩ := exists_itemsReplayed ho1 hrest.2 hl1
    exact ⟨r :: rs, later.cons split first hr plain shows⟩

end

end Value

end HaCluster
