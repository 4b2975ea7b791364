import HaCluster.Proofs.Tree.Diff

/-!
# Differences can be replayed, and replayed again

The difference of two nodes is empty exactly if they are equal (`changes_eq_nil_iff`).
Replayed on a tree that holds the older node, it makes of it what storing the newer one
makes, up to equality of values. Everything that the difference says is so then, so
replaying it once more finds nothing to do: what it stores is stored already, and what it
removes is missing, also where a list has become shorter (`replay_diff`).
-/

namespace HaCluster.Value

variable {v o n : Value} {f : Fragment} {fs : List Fragment}

/-! ## Nothing changes between equal values -/

mutual

/-- Values with one plain form have no differences. -/
theorem changes_of_plain_eq {p : Path} {o n : Value} (hn : Sorted n) (number : NoNaN n)
    (h : o.plain = n.plain) : changes p o n = [] := by
  match n with
  | .map n =>
    cases o <;> simp only [plain, reduceCtorEq] at h
    case map o =>
      have same : Entries.mapValues plain o = Entries.mapValues plain n := by
        rw [← plainEntries_eq, ← plainEntries_eq]
        exact Value.map.inj h
      have found (key : String) :
          (Entries.get? o key).map plain = (Entries.get? n key).map plain := by
        rw [← Entries.get?_mapValues, ← Entries.get?_mapValues, same]
      have none_gone : o.filter (fun e => !Entries.contains n e.1) = [] := by
        refine List.filter_eq_nil_iff.2 fun e he => ?_
        have there : (Entries.get? o e.1).isSome :=
          Entries.isSome_get?_iff.2 (List.mem_map_of_mem he)
        rw [← Option.isSome_map (f := plain), found, Option.isSome_map] at there
        simp [Entries.contains, there]
      simp only [changes]
      rw [none_gone, List.map_nil, List.nil_append]
      refine changesOfEntries_of_plain_eq hn.2 number.2 fun e he => ?_
      have there := found e.1
      rw [hn.entries.get?_of_mem he, Option.map_some] at there
      exact Option.map_eq_some_iff.1 there
  | .list n =>
    cases o <;> simp only [plain, reduceCtorEq] at h
    case list o =>
      have same : o.map plain = n.map plain := by
        rw [← plainItems_eq, ← plainItems_eq]
        exact Value.list.inj h
      have len : o.length = n.length := by simpa using congrArg List.length same
      simp only [changes]
      rw [changesOfItems_of_plain_eq hn.2 number.2 same, len,
        List.drop_of_length_le (by simp)]
      rfl
  | .null | .bool _ | .int _ | .float _ | .str _ =>
    simp only [changes]
    refine if_pos ?_
    exact beq_of_plain_eq (noNaN_plain.1 (h ▸ noNaN_plain.2 number)) h

theorem changesOfEntries_of_plain_eq {p : Path} {o rest : List (String × Value)}
    (hrest : EverywhereEntries isSorted rest) (numbers : EverywhereEntries isNumber rest)
    (same : ∀ e ∈ rest, ∃ v, Entries.get? o e.1 = some v ∧ v.plain = e.2.plain) :
    changesOfEntries p o rest = [] := by
  match rest with
  | [] => rw [changesOfEntries]
  | (k, v) :: rest =>
    obtain ⟨old, hold, plain⟩ := same (k, v) List.mem_cons_self
    rw [changesOfEntries, hold]
    dsimp only
    rw [changes_of_plain_eq hrest.1 numbers.1 plain, List.nil_append]
    exact changesOfEntries_of_plain_eq hrest.2 numbers.2
      fun e he => same e (List.mem_cons_of_mem _ he)

theorem changesOfItems_of_plain_eq {p : Path} {i : Nat} {o rest : List Value}
    (hrest : EverywhereItems isSorted rest) (numbers : EverywhereItems isNumber rest)
    (same : o.map plain = rest.map plain) : changesOfItems p i o rest = [] := by
  match rest with
  | [] => rw [changesOfItems]
  | v :: rest =>
    cases o with
    | nil => cases same
    | cons old os =>
      rw [changesOfItems_cons]
      dsimp only
      rw [changes_of_plain_eq hrest.1 numbers.1 (List.head_eq_of_cons_eq same), List.nil_append]
      exact changesOfItems_of_plain_eq hrest.2 numbers.2 (List.tail_eq_of_cons_eq same)

end

/-- **A difference is empty exactly if the values are equal.** -/
theorem changes_eq_nil_iff {p : Path} (ho : Sorted o) (number : NoNaN o) (hn : Sorted n)
    (number' : NoNaN n) : changes p o n = [] ↔ (o == n) = true := by
  rw [beq_iff_plain_eq number]
  constructor
  · intro h
    rw [changes_eq_rebase, List.map_eq_nil_iff] at h
    obtain ⟨r, replays⟩ := exists_replays ho hn
    have run := replays.run
    rw [h, enactAll?_nil] at run
    rw [Option.some.inj run, replays.plain]
  · exact changes_of_plain_eq hn number'

/-! ## Replaying what is so already -/

theorem apply_of_shows (hv : v.Sorted) (h : v.Shows f) : v.apply f = .ok v := by
  obtain ⟨p, x⟩ := f
  cases x with
  | some x =>
    refine apply_of_enact? ((enact?_set h x).trans ?_)
    rw [plug_lookup hv h]
  | none => exact apply_eq_ok_iff.2 (.inr ⟨rfl, h, rfl⟩)

/-- Replaying fragments that show already changes nothing. -/
theorem replay_of_shows (hv : v.Sorted) (h : ∀ f ∈ fs, v.Shows f) : v.replay fs = .ok v := by
  induction fs with
  | nil => rfl
  | cons f fs ih =>
    show (v.apply f).bind (fun w => w.replay fs) = _
    rw [apply_of_shows hv (h f List.mem_cons_self)]
    exact ih fun g hg => h g (List.mem_cons_of_mem _ hg)

/-- Whatever the difference of two trees says is so in the newer one. -/
theorem shows_of_mem_changes (ho : Sorted o) (hn : Sorted n) (hf : f ∈ changes [] o n) :
    n.Shows f := by
  have fits := fits_of_mem_changes hn hf
  obtain ⟨r, replays⟩ := exists_replays ho hn
  have shows := replays.shows f hf
  obtain ⟨q, x⟩ := f
  cases x with
  | some x => exact fits
  | none =>
    -- what is missing in the replayed tree, which has the plain form of the newer one, is
    -- missing in the newer one
    show Missing (n.remove q)
    rw [← missing_remove_plain, ← replays.plain, missing_remove_plain]
    exact shows

/-- A tree with a value at a path shows whatever led there from another value, or from none. -/
theorem shows_diff {p : Path} {old : Option Value} (ho : ∀ o, old = some o → o.Sorted)
    (hn : Sorted n) (there : v.lookup p = some n) : ∀ f ∈ diff p old (some n), v.Shows f := by
  intro f hf
  cases old with
  | none =>
    obtain rfl := List.mem_singleton.1 hf
    exact there
  | some o =>
    change f ∈ changes p o n at hf
    rw [changes_eq_rebase] at hf
    obtain ⟨g, hg, rfl⟩ := List.mem_map.1 hf
    exact (shows_of_mem_changes (ho o rfl) hn hg).rebase there

/-- **A difference can be replayed, and replayed again.** On a tree that holds the older of
two values somewhere, every fragment of their difference can be replayed in order, and the
tree becomes, up to equality, the one with the newer value stored there. Replaying all of it
once more succeeds as well and leaves the tree exactly as it is. There is nothing to replay
exactly if the two values are equal. -/
theorem replay_diff {t old new : Value} {p : Path} (sorted : t.Sorted) (number : t.NoNaN)
    (there : t.lookup p = some old) (sorted' : new.Sorted) (number' : new.NoNaN) :
    ∃ u w, t.replay (diff p (some old) (some new)) = .ok u
      ∧ t.store p new = .ok w ∧ (u == w) = true
      ∧ u.replay (diff p (some old) (some new)) = .ok u
      ∧ (diff p (some old) (some new) = [] ↔ (old == new) = true) := by
  obtain ⟨r, replays⟩ := exists_replays (sorted.lookup there) sorted'
  have plain : (t.plug p r).plain = (t.plug p new).plain := by
    rw [← plug_plain, replays.plain, plug_plain]
  have numbers : (t.plug p r).NoNaN := by
    rw [← noNaN_plain, plain, noNaN_plain]
    exact number.plug closed_isNumber number'
  refine ⟨t.plug p r, t.plug p new, ?_, ?_, ?_, ?_, ?_⟩
  · exact replay_of_enactAll? (replays.below sorted' sorted there)
  · exact store_eq_ok_iff.2 (enact?_set there new)
  · exact (beq_iff_plain_eq numbers).2 plain
  · exact replay_of_shows (sorted.plug closed_isSorted replays.sorted)
      (replays.shows_below (lookup_plug there))
  · exact changes_eq_nil_iff (sorted.lookup there) (number.lookup there) sorted' number'

/-- A key goes away, a list becomes shorter, an item becomes a mapping, and a zero changes
its sign. -/
theorem replay_diff_mixed :
    let old : Value := .map [("gone", .null), ("l", .list [.int 1, .int 2, .int 3]),
      ("zero", .float 0)]
    let new : Value := .map [("l", .list [.map [("k", .null)], .int 2]), ("new", .str "v"),
      ("zero", .float (-0))]
    let t : Value := .map [("a", old), ("b", .bool true)]
    let fs := diff [.key "a"] (some old) (some new)
    fs.length = 4 ∧ ∃ u w, t.replay fs = .ok u ∧ t.store [.key "a"] new = .ok w
      ∧ (u == w) = true ∧ u.replay fs = .ok u ∧ (fs = [] ↔ (old == new) = true) := by
  refine ⟨by decide, replay_diff ?_ ?_ rfl ?_ ?_⟩
  · simp only [Everywhere, EverywhereEntries, EverywhereItems, isSorted, Entries.Sorted]
    decide
  · simp only [Everywhere, EverywhereEntries, EverywhereItems, isNumber]
    decide
  · simp only [Everywhere, EverywhereEntries, EverywhereItems, isSorted, Entries.Sorted]
    decide
  · simp only [Everywhere, EverywhereEntries, EverywhereItems, isNumber]
    decide

end HaCluster.Value
