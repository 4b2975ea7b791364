import HaCluster.Proofs.Store.Merge

/-!
# Replaying what an edit has done

The fragments that an edit makes say what the tree has become, so on that tree there is
nothing left for them to do. Where every one of them shows there, this is
`replay_of_shows`; a mapping that was made first is made anew, and filled again
(`enactAll?_setKeys`).

One removal is different. Where an item is taken out of a list that goes on after it, the
next item has moved up into its place, and replaying the removal takes that one out as
well (`replay_unset_iff`). No other edit fails to be replayed on its own result
(`repeatable_iff`).
-/

namespace HaCluster

open Value

namespace Value

variable {v w c : Value} {p : Path} {m : Entries Value}

/-! ## A removal, once more -/

/-- The node at a path is an item of a list, and another item comes after it. -/
def Followed (v : Value) (p : Path) : Prop :=
  ∃ q i l, p = q.child (.index i) ∧ v.lookup q = some (.list l) ∧ i + 1 < l.length

/-- Such a node is there. -/
theorem Followed.lookup (h : v.Followed p) : ∃ c, v.lookup p = some c := by
  obtain ⟨q, i, l, rfl, hl, hi⟩ := h
  refine ⟨l[i], ?_⟩
  rw [Path.child, lookup_append, hl]
  exact (Option.bind_fun_some _).trans (List.getElem?_eq_getElem (Nat.lt_of_succ_lt hi))

theorem not_followed_nil : ¬ v.Followed [] := by
  rintro ⟨q, i, l, root, -⟩
  exact List.cons_ne_nil _ _ (List.append_eq_nil_iff.1 root.symm).2

theorem followed_concat {s : Segment} (h : v.lookup p = some c) :
    v.Followed (p ++ [s]) ↔ ∃ i l, s = .index i ∧ c = .list l ∧ i + 1 < l.length := by
  constructor
  · rintro ⟨q, i, l, same, hl, hi⟩
    obtain ⟨rfl, last⟩ := List.append_inj' same rfl
    exact ⟨i, l, List.head_eq_of_cons_eq last, Option.some.inj (h.symm.trans hl), hi⟩
  · rintro ⟨i, l, rfl, rfl, hi⟩
    exact ⟨p, i, l, rfl, h, hi⟩

theorem replay_singleton (v : Value) (f : Fragment) : v.replay [f] = v.apply f := by
  show (v.apply f).bind (fun w => .ok w) = _
  cases v.apply f <;> rfl

/-- An item that is there is taken out. -/
theorem apply_unset_item_ne {l : List Value} {i : Nat} (hl : v.lookup p = some (.list l))
    (hi : i < l.length) : v.apply (.unset (p.child (.index i))) ≠ .ok v := by
  intro stays
  have change : edit? (.list l) (.index i) none = some (.list (l.eraseIdx i)) := if_pos hi
  have gone := apply_of_enact? (enact?_concat_eq_some.2 ⟨_, _, hl, change, rfl⟩)
  have same := congrArg (fun t => lookup t p) (Except.ok.inj (gone.symm.trans stays))
  simp only [lookup_plug hl, hl, Option.some.injEq, Value.list.injEq] at same
  have shorter := congrArg List.length same
  rw [List.length_eraseIdx_of_lt hi] at shorter
  omega

/-- **A removal can be replayed on what it leaves** unless another item has moved up into the
place of the one that was taken out. -/
theorem replay_unset_iff (hv : v.Sorted) (h : v.enact? (.unset p) = some w) :
    w.replay [.unset p] = .ok w ↔ ¬ v.Followed p := by
  have hw : w.Sorted := hv.enact? closed_isSorted (fun y hy => by cases hy) h
  rw [replay_singleton]
  rcases List.eq_nil_or_concat p with rfl | ⟨q, s, concat⟩
  · cases h
    exact iff_of_true rfl not_followed_nil
  · obtain rfl : p = q ++ [s] := concat.trans List.concat_eq_append
    obtain ⟨d, d', hd, change, rfl⟩ := enact?_concat_eq_some.1 h
    have left : (v.plug q d').lookup q = some d' := lookup_plug hd
    rw [followed_concat hd]
    clear h concat
    cases d <;> cases s <;> try cases change
    case map.key m k =>
      obtain ⟨-, rfl⟩ := edit?_map_eq_some.1 change
      refine iff_of_true (apply_of_shows hw ?_) (by rintro ⟨i, l, key, -⟩; cases key)
      exact (shows_unset_key (Entries.get?_erase_self m k)).rebase left
    case list.index l i =>
      simp only [edit?] at change
      split at change <;> cases change
      rename_i hi
      have len : (l.eraseIdx i).length + 1 = l.length := by
        rw [List.length_eraseIdx_of_lt hi]
        omega
      by_cases more : i + 1 < l.length
      · refine iff_of_false ?_ (fun last => last ⟨i, l, rfl, rfl, more⟩)
        -- another item has moved up, and is there
        exact apply_unset_item_ne left (by omega)
      · refine iff_of_true (apply_of_shows hw ?_) ?_
        · exact (shows_unset_index (l := l.eraseIdx i) (by omega)).rebase left
        · rintro ⟨j, l', index, list, more'⟩
          cases index
          cases list
          exact more more'

/-! ## Filling a mapping -/

/-- Values stored under the keys of a mapping, one after the other. -/
theorem enactAll?_setKeys (there : v.lookup p = some c) (m es : Entries Value) :
    enactAll? (v.plug p (.map m)) (es.map fun e => Fragment.set (p.key e.1) e.2)
      = some (v.plug p (.map (Entries.insertAll m es))) := by
  induction es generalizing m with
  | nil => rfl
  | cons e es ih =>
    have first : (v.plug p (.map m)).enact? ⟨p.key e.1, some e.2⟩
        = some (v.plug p (.map (Entries.insert m e.1 e.2))) := by
      rw [enact?_key_plug (lookup_plug there) (.inl rfl), plug_plug there]
      rfl
    rw [List.map_cons, enactAll?_cons, Fragment.set, first, Option.bind_some]
    exact ih _

end Value

namespace Store

open Mutation

variable {s t : Store} {p : Path} {x v c : Value} {m es : Entries Value} {fs : List Fragment}
  {e : Edit}

/-! ## The fragments of an edit -/

/-- An edit, with the fragments that it makes. Counting answers the number, and makes the
fragments of storing it. -/
def Edit.run : Edit → Mutation (List Fragment)
  | .set p v => Store.set p v
  | .setIfAbsent p v => Store.setIfAbsent p v
  | .merge p es => Store.merge p es
  | .unset p => Store.unset p
  | .unsetIfPresent p => Store.unsetIfPresent p
  | .increment p => fun s =>
    match Store.increment p s with
    | .ok i t => .ok (diff p (s.data.lookup p) (some (.int i))) t
    | .error e t => .error e t

theorem after_run (e : Edit) (s : Store) : e.run.after s = e.perform s := by
  cases e with
  | increment p =>
    unfold Edit.perform Edit.run after
    dsimp only
    cases Store.increment p s <;> rfl
  | _ => rfl

/-- What an edit is given is sorted, as every value is that a store can hold. -/
def Edit.Orderly : Edit → Prop
  | .set _ v | .setIfAbsent _ v => v.Sorted
  | .merge _ es => Value.Sorted (.map es)
  | .unset _ | .unsetIfPresent _ | .increment _ => True

theorem Edit.Orderly.given (h : e.Orderly) : e.Given Value.Sorted := by
  cases e with
  | merge p es => exact (everywhere_map.1 h).2
  | _ => exact h

/-- The tree stays sorted. -/
theorem sorted_run (orderly : e.Orderly) (sorted : s.data.Sorted) (run : e.run s = .ok fs t) :
    t.data.Sorted := by
  have kept := (kept_everywhere closed_isSorted Entries.Sorted.nil (fun _ => trivial)).perform
    orderly.given s sorted
  rw [← after_run, after_of_ok run] at kept
  exact kept

theorem unset_eq_ok (run : Store.unset p s = .ok fs t) :
    s.data.enact? (.unset p) = some t.data ∧ fs = [.unset p]
      ∧ t = { s with data := t.data }.record fs := by
  unfold Store.unset at run
  cases removed : s.data.remove p with
  | error e =>
    rw [removed] at run
    cases run
  | ok r =>
    rw [removed] at run
    cases run
    rw [record_data]
    exact ⟨(remove_eq_ok_iff.1 removed).2, rfl, rfl⟩

/-- Only what is not there cannot be removed. -/
theorem unset_eq_error {err : DataError} (run : Store.unset p s = .error err t) :
    t = s ∧ s.data.lookup p = none := by
  unfold Store.unset at run
  cases removed : s.data.remove p with
  | ok r =>
    rw [removed] at run
    cases run
  | error err' =>
    rw [removed] at run
    cases run
    refine ⟨rfl, Option.eq_none_iff_forall_ne_some.2 fun c there => ?_⟩
    obtain ⟨w, change⟩ := enact?_none_of_lookup there
    obtain ⟨old, ok⟩ := remove_of_enact?_none change
    cases removed.symm.trans ok

theorem unset_ok (there : s.data.lookup p = some c) : ∃ fs t, Store.unset p s = .ok fs t := by
  cases run : Store.unset p s with
  | ok fs t => exact ⟨fs, t, rfl⟩
  | error err t => cases there.symm.trans (unset_eq_error run).2

theorem unsetIfPresent_eq_ok (run : Store.unsetIfPresent p s = .ok fs t) :
    fs = [] ∧ t = s ∨ Store.unset p s = .ok fs t := by
  unfold Store.unsetIfPresent at run
  cases removed : Store.unset p s with
  | ok gs u =>
    rw [removed] at run
    exact .inr run
  | error err u =>
    obtain ⟨rfl, -⟩ := unset_eq_error removed
    rw [removed] at run
    cases err <;> cases run
    exact .inl ⟨rfl, rfl⟩

theorem unsetIfPresent_of_ok (run : Store.unset p s = .ok fs t) :
    Store.unsetIfPresent p s = .ok fs t := by
  unfold Store.unsetIfPresent
  rw [run]

/-- Counting stores the number that it answers. -/
theorem run_increment_eq_ok (run : (Edit.increment p).run s = .ok fs t) :
    ∃ i, Store.set p (.int i) s = .ok fs t := by
  have answer {i j : Int64} (counted : (do let _ ← Store.set p (.int j); pure j : Mutation Int64) s
      = .ok i t) (made : fs = diff p (s.data.lookup p) (some (.int i))) :
      ∃ i, Store.set p (.int i) s = .ok fs t := by
    obtain ⟨gs, u, stored, done⟩ := bind_eq_ok counted
    cases done
    exact ⟨i, by rw [stored, (set_eq_ok stored).2.1, made]⟩
  unfold Edit.run at run
  dsimp only at run
  cases counted : Store.increment p s with
  | error err u =>
    rw [counted] at run
    cases run
  | ok i u =>
    rw [counted] at run
    injection run with made same
    subst same
    unfold Store.increment at counted
    cases there : s.data.lookup p with
    | none =>
      rw [there] at counted
      exact answer counted made.symm
    | some v =>
      rw [there] at counted
      dsimp only at counted
      cases number : v.asInt? with
      | none =>
        rw [number] at counted
        cases counted
      | some j =>
        rw [number] at counted
        exact answer counted made.symm

/-- The journal of a store stays the one it is, and takes up some fragments. -/
structure Queues (s : Store) (fs : List Fragment) (t : Store) : Prop where
  journal : t.journal = s.journal
  queue : t.queue = s.queue ++ s.queued fs

namespace Queues

variable {gs : List Fragment} {u : Store}

theorem nothing (s : Store) : Queues s [] s := ⟨rfl, by rw [queued_nil, List.append_nil]⟩

theorem trans (first : Queues s fs t) (second : Queues t gs u) : Queues s (fs ++ gs) u := by
  refine ⟨second.journal.trans first.journal, ?_⟩
  rw [second.queue, first.queue, queued_append, List.append_assoc]
  unfold queued
  rw [first.journal]

theorem of_record {data : Value} (recorded : t = { s with data }.record fs) : Queues s fs t := by
  rw [recorded]
  exact ⟨record_journal _ fs, record_queue _ fs⟩

theorem set (run : Store.set p x s = .ok fs t) : Queues s fs t := of_record (set_eq_ok run).2.2

theorem unset (run : Store.unset p s = .ok fs t) : Queues s fs t :=
  of_record (unset_eq_ok run).2.2

theorem setIfAbsent (run : Store.setIfAbsent p x s = .ok fs t) : Queues s fs t := by
  rcases setIfAbsent_eq_ok run with ⟨-, rfl, rfl⟩ | ⟨-, stored⟩
  · exact nothing t
  · exact set stored

theorem sets {fss : List (List Fragment)}
    (run : (es.mapM fun e => Store.set (p.key e.1) e.2) s = .ok fss t) :
    Queues s fss.flatten t := by
  induction es generalizing s fss with
  | nil =>
    cases run
    exact nothing _
  | cons e es ih =>
    rw [List.mapM_cons] at run
    obtain ⟨fs, u, first, rest⟩ := bind_eq_ok run
    obtain ⟨gss, u', others, done⟩ := bind_eq_ok rest
    cases done
    exact (set first).trans (ih others)

end Queues

/-- **What an edit answers is what it queues**: the journal takes up the fragments of the edit,
and nothing else. -/
theorem queues_run (run : e.run s = .ok fs t) : Queues s fs t := by
  cases e with
  | set p x => exact .set run
  | setIfAbsent p x => exact .setIfAbsent run
  | merge p es =>
    obtain ⟨made, u, first, rest⟩ := bind_eq_ok run
    obtain ⟨fss, u', second, done⟩ := bind_eq_ok rest
    cases done
    exact (Queues.setIfAbsent first).trans (.sets second)
  | unset p => exact .unset run
  | unsetIfPresent p =>
    rcases unsetIfPresent_eq_ok run with ⟨rfl, rfl⟩ | removed
    · exact .nothing t
    · exact .unset removed
  | increment p =>
    obtain ⟨i, stored⟩ := run_increment_eq_ok run
    exact .set stored

/-! ## Merging -/

/-- Values are stored under distinct keys of a mapping, each with the difference to what the
key held at the beginning. -/
theorem sets_ok (there : v.lookup p = some c) (asc : Entries.Sorted es) (h : Replaced v p m s) :
    ∃ t, (es.mapM fun e => Store.set (p.key e.1) e.2) s
        = .ok (es.map fun e => diff (p.key e.1) (Entries.get? m e.1) (some e.2)) t
      ∧ Replaced v p (Entries.insertAll m es) t := by
  induction es generalizing m s with
  | nil => exact ⟨s, rfl, h⟩
  | cons e es ih =>
    obtain ⟨k, x⟩ := e
    obtain ⟨lt, asc⟩ := Entries.sorted_cons.1 asc
    have found := h.lookup there
    obtain ⟨fs, s', run, h'⟩ := replaced_setKey there m k x s h
    obtain ⟨-, made, -⟩ := set_eq_ok run
    rw [lookup_key found] at made
    obtain ⟨t, sets, replaced⟩ := ih asc h'
    refine ⟨t, ?_, replaced⟩
    rw [List.mapM_cons]
    refine (bind_ok run).trans ((bind_ok sets).trans ?_)
    have later : ∀ e ∈ es, diff (p.key e.1) (Entries.get? (Entries.insert m k x) e.1) (some e.2)
        = diff (p.key e.1) (Entries.get? m e.1) (some e.2) := fun e he => by
      rw [Entries.get?_insert_of_ne m x (String.ne_of_lt (lt e he)).symm]
    rw [List.map_cons, ← made, ← List.map_congr_left later]
    rfl

section

variable {fss : List (List Fragment)} (sorted : s.data.Sorted)
  (orderly : Value.Sorted (.map es))
  (run : (es.mapM fun e => Store.set (p.key e.1) e.2) s = .ok fss t)

include sorted orderly run

/-- Where the mapping was there before, every fragment shows. -/
theorem replay_sets (there : s.data.lookup p = some (.map m)) (sorted' : t.data.Sorted) :
    t.data.replay fss.flatten = .ok t.data := by
  have start : Replaced s.data p m s := (plug_lookup sorted there).symm
  obtain ⟨t, run', replaced⟩ := sets_ok there orderly.entries start
  cases run.symm.trans run'
  have old : Value.Sorted (.map m) := sorted.lookup there
  refine replay_of_shows sorted' fun f hf => ?_
  obtain ⟨l, hl, hf⟩ := List.mem_flatten.1 hf
  obtain ⟨e, he, rfl⟩ := List.mem_map.1 hl
  refine shows_diff (fun o ho => ?_) ((everywhere_map.1 orderly).2 e he) ?_ f hf
  · exact (everywhere_map.1 old).2 _ (Entries.mem_of_get? ho)
  · rw [lookup_key (replaced.lookup there), Entries.get?_insertAll orderly.entries,
      orderly.entries.get?_of_mem he]
    rfl

/-- Where it was made first, it is made anew and filled again. -/
theorem replay_made (there : s.data.lookup p = some Value.empty) :
    t.data.replay (.set p Value.empty :: fss.flatten) = .ok t.data := by
  have start : Replaced s.data p [] s := (plug_lookup sorted there).symm
  obtain ⟨t, run', replaced⟩ := sets_ok there orderly.entries start
  cases run.symm.trans run'
  have sets : (es.map fun e => diff (p.key e.1) (Entries.get? [] e.1) (some e.2)).flatten
      = es.map fun e => Fragment.set (p.key e.1) e.2 := by
    rw [← List.flatMap_def]
    exact List.flatMap_pure_eq_map ..
  have emptied : t.data.enact? (.set p Value.empty) = some (s.data.plug p Value.empty) := by
    refine (enact?_set (replaced.lookup there) _).trans ?_
    rw [show t.data = _ from replaced, plug_plug there]
  refine replay_of_enactAll? ?_
  rw [sets, enactAll?_cons, emptied, Option.bind_some]
  exact (enactAll?_setKeys there [] es).trans (congrArg some replaced.symm)

end

/-- **A merge can be replayed on its own result.** -/
theorem replay_merge (sorted : s.data.Sorted) (orderly : Value.Sorted (.map es))
    (run : Store.merge p es s = .ok fs t) : t.data.replay fs = .ok t.data := by
  have sorted' : t.data.Sorted := sorted_run (e := .merge p es) orderly sorted run
  obtain ⟨made, u, first, rest⟩ := bind_eq_ok run
  obtain ⟨fss, t', second, done⟩ := bind_eq_ok rest
  cases done
  rcases setIfAbsent_eq_ok first with ⟨⟨c, there⟩, rfl, rfl⟩ | ⟨absent, stored⟩
  · cases es with
    | nil =>
      cases second
      rfl
    | cons e es =>
      -- what a key can be stored in is a mapping
      obtain ⟨m, hm⟩ : ∃ m, u.data.lookup p = some (.map m) := by
        rw [List.mapM_cons] at second
        obtain ⟨gs, u', set, -⟩ := bind_eq_ok second
        obtain ⟨change, -⟩ := set_eq_ok set
        obtain ⟨d, d', hd, he, -⟩ := enact?_concat_eq_some.1 change
        cases d <;> first | exact ⟨_, hd⟩ | cases he
      exact replay_sets sorted orderly second hm sorted'
  · obtain ⟨change, rfl, -⟩ := set_eq_ok stored
    rw [absent]
    have sorted'' : u.data.Sorted :=
      sorted_run (e := .setIfAbsent p Value.empty) (everywhere_map.2 ⟨Entries.Sorted.nil, nofun⟩)
        sorted first
    exact replay_made sorted'' orderly second (lookup_enact?_self change)

/-! ## Edits on their own results -/

/-- The fragments of an edit that succeeds can be replayed on its result, and leave it as it
is. -/
def Edit.Repeatable (e : Edit) (s : Store) : Prop :=
  ∀ fs t, e.run s = .ok fs t → t.data.replay fs = .ok t.data

/-- An edit takes an item out of a list that goes on after it, so that the items behind move
up. -/
def Edit.MovesUp (v : Value) : Edit → Prop
  | .unset p | .unsetIfPresent p => v.Followed p
  | .set _ _ | .setIfAbsent _ _ | .merge _ _ | .increment _ => False

theorem replay_set (sorted : s.data.Sorted) (hx : x.Sorted) (run : Store.set p x s = .ok fs t) :
    t.data.replay fs = .ok t.data := by
  obtain ⟨change, rfl, -⟩ := set_eq_ok run
  exact replay_of_shows (sorted_run (e := .set p x) hx sorted run)
    (shows_diff (fun o ho => sorted.lookup ho) hx (lookup_enact?_self change))

theorem repeatable_unset_iff (sorted : s.data.Sorted) :
    (Edit.unset p).Repeatable s ↔ ¬ s.data.Followed p := by
  constructor
  · intro again followed
    obtain ⟨c, there⟩ := followed.lookup
    obtain ⟨fs, t, run⟩ := unset_ok there
    obtain ⟨change, rfl, -⟩ := unset_eq_ok run
    exact (replay_unset_iff sorted change).1 (again _ t run) followed
  · intro last fs t run
    obtain ⟨change, rfl, -⟩ := unset_eq_ok run
    exact (replay_unset_iff sorted change).2 last

/-- **Which edits can be replayed on their own result**: all but the removal of an item that
another item follows. -/
theorem repeatable_iff (sorted : s.data.Sorted) (orderly : e.Orderly) :
    e.Repeatable s ↔ ¬ e.MovesUp s.data := by
  cases e with
  | set p x => exact iff_of_true (fun fs t run => replay_set sorted orderly run) id
  | setIfAbsent p x =>
    refine iff_of_true (fun fs t run => ?_) id
    rcases setIfAbsent_eq_ok run with ⟨-, rfl, rfl⟩ | ⟨-, stored⟩
    · rfl
    · exact replay_set sorted orderly stored
  | merge p es => exact iff_of_true (fun fs t run => replay_merge sorted orderly run) id
  | unset p => exact repeatable_unset_iff sorted
  | unsetIfPresent p =>
    refine Iff.trans ⟨fun again fs t run => ?_, fun again fs t run => ?_⟩
      (repeatable_unset_iff sorted)
    · exact again fs t (unsetIfPresent_of_ok run)
    · rcases unsetIfPresent_eq_ok run with ⟨rfl, rfl⟩ | run
      · rfl
      · exact again fs t run
  | increment p =>
    refine iff_of_true (fun fs t run => ?_) id
    obtain ⟨i, stored⟩ := run_increment_eq_ok run
    exact replay_set (x := .int i) sorted trivial stored

/-- A list of three items below a key. -/
def triple : Value := .map [("l", .list [.int 1, .int 2, .int 3])]

theorem sorted_triple : triple.Sorted := by
  simp [triple, Everywhere, EverywhereEntries, EverywhereItems, isSorted, Entries.Sorted,
    Entries.keys]

/-- The last item can be taken out once more, the first one cannot. -/
theorem repeatable_triple_iff :
    ((Edit.unset [.key "l", .index 2]).Repeatable (.new triple none)
        ↔ ¬ (Edit.unset [.key "l", .index 2]).MovesUp triple)
      ∧ ((Edit.unset [.key "l", .index 0]).Repeatable (.new triple none)
        ↔ ¬ (Edit.unset [.key "l", .index 0]).MovesUp triple) :=
  ⟨repeatable_iff (s := .new triple none) sorted_triple trivial,
    repeatable_iff (s := .new triple none) sorted_triple trivial⟩

/-- The first of three items is taken out, and the second one by replaying it. -/
theorem not_repeatable_first :
    ¬ ∀ (e : Edit) (s : Store), s.data.Sorted → s.data.NoNaN → e.Orderly → e.Repeatable s := by
  intro repeatable
  have numbers : triple.NoNaN := by
    simp [triple, Everywhere, EverywhereEntries, EverywhereItems, isNumber]
  have again := repeatable (.unset [.key "l", .index 0]) (.new triple none) sorted_triple numbers
    trivial _ _ rfl
  change Value.replay (.map [("l", .list [.int 2, .int 3])]) [.unset [.key "l", .index 0]]
    = .ok (.map [("l", .list [.int 2, .int 3])]) at again
  have lost : Value.replay (.map [("l", .list [.int 2, .int 3])]) [.unset [.key "l", .index 0]]
    = .ok (.map [("l", .list [.int 3])]) := rfl
  cases lost.symm.trans again

end Store

end HaCluster
