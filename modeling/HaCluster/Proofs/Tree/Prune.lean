import HaCluster.Proofs.Tree.Follow

/-!
# Edits of a tree and of its pruned copy

A copy of a tree leaves some nodes out, named by paths of keys. What an edit
of the tree means for the copy depends on where it lies: under a node that is
left out it means nothing (`prune_enact?_of_excluded`), elsewhere it is the
same edit, with the left-out nodes taken out of the value that it stores
(`enact?_prune`).

Both are proved for one left-out node, by induction on its path, and then for
all of them. So is what leaving out is for: the copy has no node at such a path
(`lookup_prune`).
-/

namespace HaCluster.Value

variable {v v' c c' : Value} {k : String} {p r e ex : Path} {x y old : Option Value}

/-! ## Leaving one node out -/

/-- The tree without the node at a path; the tree itself if there is none. -/
def without (v : Value) (ex : Path) : Value :=
  (v.enact? ⟨ex, none⟩).getD v

/-- What a key holds without the node at a path seen from it. -/
def withoutIn (old : Option Value) (e : Path) : Option Value :=
  if e = [] then none else old.map (fun c => c.without e)

/-- A value stored at `r` without the node at `ex`, both seen from one root. -/
def withoutBelow (ex r : Path) (x : Value) : Value :=
  match ex.below? r with
  | some rest => x.without rest
  | none => x

theorem withoutIn_of_ne (he : e ≠ []) : withoutIn old e = old.map (fun c => c.without e) :=
  if_neg he

theorem without_map {m : Entries Value} (hm : Entries.Sorted m) :
    without (.map m) (.key k :: e)
      = .map (Entries.change m k (withoutIn (Entries.get? m k) e)) := by
  unfold without
  cases h : enact? (.map m) ⟨.key k :: e, none⟩ with
  | some v' =>
    obtain ⟨-, y, hy, rfl⟩ := enact?_key.1 h
    by_cases he : e = []
    · subst he
      cases hy
      rfl
    · obtain ⟨c, c', hc, hc', rfl⟩ := (follow?_eq_some_iff he).1 hy
      rw [withoutIn_of_ne he, hc, Option.map_some, without, hc']
      rfl
  | none =>
    -- nothing is there to be left out, so the mapping stays as it is
    suffices same : withoutIn (Entries.get? m k) e = Entries.get? m k by
      rw [same, hm.change_get?]
      rfl
    cases hk : Entries.get? m k with
    | none =>
      unfold withoutIn
      split <;> rfl
    | some c =>
      by_cases he : e = []
      · subst he
        rw [enact?_step] at h
        simp [edit?, Entries.contains, hk] at h
      · rw [enact?_cons he, step?_map, hk, Option.bind_some, Option.map_eq_none_iff] at h
        rw [withoutIn_of_ne he, Option.map_some, without, h]
        rfl

theorem without_of_not_map (h : ∀ m, v ≠ .map m) : v.without (.key k :: e) = v := by
  unfold without
  cases hv : v.enact? ⟨.key k :: e, none⟩ with
  | none => rfl
  | some v' =>
    obtain ⟨m, rfl⟩ := exists_map_of_enact?_key hv
    exact absurd rfl (h m)

theorem Everywhere.without {q : Value → Prop} (hq : Closed q) (hv : Everywhere q v)
    (ex : Path) : Everywhere q (v.without ex) := by
  unfold Value.without
  cases h : v.enact? ⟨ex, none⟩ with
  | none => exact hv
  | some v' => exact hv.enact? hq (fun y hy => by cases hy) h

theorem without_plain (v : Value) (ex : Path) : v.plain.without ex = (v.without ex).plain := by
  have h : v.plain.enact? ⟨ex, none⟩ = (v.enact? ⟨ex, none⟩).map plain :=
    enact?_plain v ⟨ex, none⟩
  rw [without, without, h]
  cases v.enact? ⟨ex, none⟩ <;> rfl

/-! ## Edits beside a left-out node -/

theorem withoutBelow_root (hex : ex ≠ []) : withoutBelow ex [] = fun c => c.without ex := by
  cases ex with
  | nil => exact absurd rfl hex
  | cons s e => rfl

theorem withoutBelow_cons (s : Segment) : withoutBelow (s :: e) (s :: r) = withoutBelow e r := by
  funext x
  unfold withoutBelow
  rw [Path.below?_cons]

theorem withoutBelow_of_ne {s t : Segment} (h : t ≠ s) : withoutBelow (s :: e) (t :: r) = id := by
  funext x
  unfold withoutBelow
  rw [Path.below?_cons_of_ne (Ne.symm h)]
  rfl

/-- What holds of the edits of a node holds of what becomes of it. -/
theorem follow?_without (he : e ≠ [])
    (edits : ∀ c c', old = some c → c.enact? ⟨r, x⟩ = some c' →
      (c.without e).enact? ⟨r, x.map (withoutBelow e r)⟩ = some (c'.without e))
    (h : follow? old ⟨r, x⟩ = some y) :
    follow? (old.map (fun c => c.without e)) ⟨r, x.map (withoutBelow e r)⟩
      = some (y.map (fun c => c.without e)) := by
  by_cases hr : r = []
  · subst hr
    cases h
    rw [withoutBelow_root he, follow?_root]
  · obtain ⟨c, c', hc, hc', rfl⟩ := (follow?_eq_some_iff hr).1 h
    refine (follow?_eq_some_iff hr).2 ⟨c.without e, c'.without e, ?_, edits c c' hc hc', rfl⟩
    rw [hc, Option.map_some]

/-- An edit under one key and a node left out under another one do not
meet. -/
theorem enact?_without_of_ne {l : String} (hl : l ≠ k) (hv : Sorted v)
    (h : v.enact? ⟨.key l :: r, x⟩ = some v') :
    (v.without (.key k :: e)).enact? ⟨.key l :: r, x.map (withoutBelow (.key k :: e) (.key l :: r))⟩
      = some (v'.without (.key k :: e)) := by
  obtain ⟨m, rfl⟩ := exists_map_of_enact?_key h
  obtain ⟨there, y, hy, rfl⟩ := enact?_key.1 h
  have hkl : Segment.key l ≠ .key k := fun h => hl (Segment.key.inj h)
  rw [without_map hv.entries, without_map (hv.entries.change l y), enact?_key,
    withoutBelow_of_ne hkl, Option.map_id, Entries.get?_change, if_neg hl, Entries.get?_change,
    if_neg hl.symm]
  exact ⟨there, y, hy, congrArg Value.map (hv.entries.change_comm hl ..)⟩

/-- An edit that does not lie under the left-out node is the same edit of the
tree without it. -/
theorem enact?_without (hex : ex.AllKeys) (hv : Sorted v)
    (out : ¬ r.startsWith ex = true) (h : v.enact? ⟨r, x⟩ = some v') :
    (v.without ex).enact? ⟨r, x.map (withoutBelow ex r)⟩ = some (v'.without ex) := by
  induction r generalizing v v' ex with
  | nil =>
    cases ex with
    | nil => exact absurd rfl out
    | cons s e =>
      obtain ⟨⟨k, rfl⟩, -⟩ := hex.cons
      cases h
      rw [enact?_root]
      cases x with
      | none => exact congrArg some (without_of_not_map (fun m => Value.noConfusion)).symm
      | some x => rfl
  | cons t r ih =>
    cases ex with
    | nil => exact absurd rfl out
    | cons s e =>
      obtain ⟨⟨k, rfl⟩, he⟩ := hex.cons
      cases t with
      | index i =>
        -- a list has no keys, so nothing of it is left out
        obtain ⟨⟨l, rfl⟩, l', rfl⟩ := exists_list_of_enact?_index h
        rw [withoutBelow_of_ne (fun hs : Segment.index i = .key k => nomatch hs), Option.map_id,
          without_of_not_map (fun m => Value.noConfusion),
          without_of_not_map (fun m => Value.noConfusion)]
        exact h
      | key l =>
        by_cases hl : l = k
        · -- both go through one key, and its content is followed
          subst hl
          have out' : ¬ Path.startsWith r e = true := by simpa [Path.startsWith] using out
          have he0 : e ≠ [] := fun h0 => out' (h0 ▸ rfl)
          obtain ⟨m, rfl⟩ := exists_map_of_enact?_key h
          obtain ⟨there, y, hy, rfl⟩ := enact?_key.1 h
          rw [without_map hv.entries, without_map (hv.entries.change l y), enact?_key]
          simp only [Entries.get?_change, ite_true, withoutIn_of_ne he0, withoutBelow_cons]
          refine ⟨by simpa using there, _, follow?_without he0 (fun c c' hc hc' => ?_) hy, ?_⟩
          · exact ih he (hv.step? (s := .key l) hc) out' hc'
          · rw [hv.entries.change_change, hv.entries.change_change]
        · exact enact?_without_of_ne hl hv h

/-- An edit under the left-out node changes nothing without it. -/
theorem without_enact? (hex : ex.AllKeys) (hex0 : ex ≠ []) (hv : Sorted v)
    (h : v.enact? ⟨ex ++ r, x⟩ = some v') : v'.without ex = v.without ex := by
  induction ex generalizing v v' with
  | nil => exact absurd rfl hex0
  | cons s e ih =>
    obtain ⟨⟨k, rfl⟩, he⟩ := hex.cons
    obtain ⟨m, rfl⟩ := exists_map_of_enact?_key h
    obtain ⟨-, y, hy, rfl⟩ := enact?_key.1 h
    rw [without_map hv.entries, without_map (hv.entries.change k y),
      hv.entries.change_change, Entries.get?_change, if_pos rfl]
    suffices same : withoutIn y e = withoutIn (Entries.get? m k) e by rw [same]
    by_cases he0 : e = []
    · rw [he0]
      rfl
    · have hr : e ++ r ≠ [] := List.append_ne_nil_of_left_ne_nil he0 r
      obtain ⟨c, c', hc, hc', rfl⟩ := (follow?_eq_some_iff hr).1 hy
      rw [withoutIn_of_ne he0, withoutIn_of_ne he0, hc, Option.map_some, Option.map_some,
        ih he he0 (hv.step? (s := .key k) hc) hc']

/-! ## Leaving several nodes out -/

theorem prune_cons (v : Value) (ex : Path) (E : List Path) :
    v.prune (ex :: E) = (v.without ex).prune E := by
  refine congrArg (fun t => prune t E) ?_
  unfold without
  dsimp only
  cases h : v.enact? ⟨ex, none⟩ with
  | some v' =>
    obtain ⟨old, ho⟩ := remove_of_enact?_none h
    rw [ho]
    rfl
  | none =>
    cases hr : v.remove ex with
    | error e => rfl
    | ok r =>
      rw [(remove_eq_ok_iff.1 hr).2] at h
      cases h

theorem Everywhere.prune {q : Value → Prop} (hq : Closed q) (hv : Everywhere q v)
    (E : List Path) : Everywhere q (v.prune E) := by
  induction E generalizing v with
  | nil => exact hv
  | cons ex E ih =>
    rw [prune_cons]
    exact ih (hv.without hq ex)

theorem prune_plain (v : Value) (E : List Path) : v.plain.prune E = (v.prune E).plain := by
  induction E generalizing v with
  | nil => rfl
  | cons ex E ih => rw [prune_cons, prune_cons, without_plain, ih]

theorem null_without (ex : Path) : null.without ex = .null := by
  cases ex with
  | nil => rfl
  | cons s e =>
    unfold without
    cases h : null.enact? ⟨s :: e, none⟩ with
    | none => rfl
    | some v' =>
      cases s with
      | key k =>
        obtain ⟨m, hm⟩ := exists_map_of_enact?_key h
        cases hm
      | index i =>
        obtain ⟨⟨l, hl⟩, -⟩ := exists_list_of_enact?_index h
        cases hl

theorem null_prune (E : List Path) : null.prune E = .null := by
  induction E with
  | nil => rfl
  | cons ex E ih => rw [prune_cons, null_without, ih]

/-- Leaving out the root leaves nothing. -/
theorem prune_of_root_mem {E : List Path} (h : [] ∈ E) (v : Value) : v.prune E = .null := by
  induction E generalizing v with
  | nil => cases h
  | cons ex E ih =>
    rw [prune_cons]
    rcases List.mem_cons.1 h with rfl | h
    · exact null_prune E
    · exact ih h (v.without ex)

/-- The paths left out of a value stored at `r`, seen from the value. -/
def pathsBelow (E : List Path) (r : Path) : List Path :=
  (E.filterMap (fun ex => ex.below? r)).filter (fun p => !p.isEmpty)

theorem prune_pathsBelow_cons {E : List Path} (out : ¬ r.startsWith ex = true) (x : Value) :
    x.prune (pathsBelow (ex :: E) r) = (withoutBelow ex r x).prune (pathsBelow E r) := by
  unfold pathsBelow withoutBelow
  rw [List.filterMap_cons]
  cases h : ex.below? r with
  | none => rfl
  | some rest =>
    -- the rest is not empty, because the value does not lie under the path
    have hrest : rest ≠ [] := by
      rintro rfl
      rw [Path.below?_eq_some_iff.1 h, List.append_nil] at out
      exact out (Path.startsWith_iff.2 ⟨[], (List.append_nil r).symm⟩)
    rw [List.filter_cons_of_pos (by simpa using hrest), prune_cons]

/-- **An edit beside everything left out** is, with the left-out nodes taken
out of its value, the same edit of the pruned tree. -/
theorem enact?_prune {E : List Path} (hE : ∀ ex ∈ E, ex.AllKeys) (hv : Sorted v)
    (out : ∀ ex ∈ E, ¬ r.startsWith ex = true) (h : v.enact? ⟨r, x⟩ = some v') :
    (v.prune E).enact? ⟨r, x.map (fun y => y.prune (pathsBelow E r))⟩ = some (v'.prune E) := by
  induction E generalizing v v' x with
  | nil =>
    rw [show (fun y : Value => y.prune (pathsBelow [] r)) = id from rfl, Option.map_id]
    exact h
  | cons ex E ih =>
    have out1 := out ex List.mem_cons_self
    have step := enact?_without (hE ex List.mem_cons_self) hv out1 h
    have rest := ih (fun e he => hE e (List.mem_cons_of_mem ex he))
      (hv.without closed_isSorted ex) (fun e he => out e (List.mem_cons_of_mem ex he)) step
    rw [prune_cons, prune_cons, funext (prune_pathsBelow_cons out1)]
    rw [Option.map_map] at rest
    exact rest

/-- **An edit under something left out** changes nothing in the pruned
tree. -/
theorem prune_enact?_of_excluded {E : List Path} (hE : ∀ ex ∈ E, ex.AllKeys ∧ ex ≠ [])
    (hv : Sorted v) (under : ∃ ex ∈ E, r.startsWith ex = true)
    (h : v.enact? ⟨r, x⟩ = some v') : v'.prune E = v.prune E := by
  induction E generalizing v v' x with
  | nil =>
    obtain ⟨ex, hex, -⟩ := under
    cases hex
  | cons ex E ih =>
    obtain ⟨hkeys, hne⟩ := hE ex List.mem_cons_self
    rw [prune_cons, prune_cons]
    by_cases hr : r.startsWith ex = true
    · obtain ⟨t, rfl⟩ := Path.startsWith_iff.1 hr
      rw [without_enact? hkeys hne hv h]
    · refine ih (fun e he => hE e (List.mem_cons_of_mem ex he))
        (hv.without closed_isSorted ex) ?_ (enact?_without hkeys hv hr h)
      obtain ⟨e, he, hre⟩ := under
      rcases List.mem_cons.1 he with rfl | he
      · exact absurd hre hr
      · exact ⟨e, he, hre⟩

/-! ## What is left out is not there -/

theorem lookup_without (hex : ex.AllKeys) (hex0 : ex ≠ []) : (v.without ex).lookup ex = none := by
  unfold without
  cases h : v.enact? ⟨ex, none⟩ with
  | some v' =>
    have gone := follow?_lookup (r := []) hex hex0 ((List.append_nil ex).symm ▸ h)
    exact (Option.some.inj gone).symm
  | none =>
    -- a node that is there can be removed
    cases there : v.lookup ex with
    | none => exact there
    | some old =>
      obtain ⟨q, s, rfl⟩ : ∃ q s, ex = q ++ [s] :=
        ⟨ex.dropLast, ex.getLast hex0, (List.dropLast_concat_getLast hex0).symm⟩
      obtain ⟨k, rfl⟩ := hex s (by simp)
      rw [lookup_append] at there
      obtain ⟨d, hd, there⟩ := Option.bind_eq_some_iff.1 there
      obtain ⟨c, hc, -⟩ := Option.bind_eq_some_iff.1 there
      cases d <;> try cases hc
      case map m =>
        obtain ⟨v', removed⟩ := enact?_key_ok (x := none) (k := k) hd
          (.inr (Option.isSome_iff_exists.2 ⟨c, hc⟩))
        rw [Path.key, Path.child, h] at removed
        cases removed

/-- Leaving a node out brings nothing back. -/
theorem lookup_without_of_none (hr : r.AllKeys) (absent : v.lookup r = none) (hex : ex.AllKeys) :
    (v.without ex).lookup r = none := by
  unfold without
  cases h : v.enact? ⟨ex, none⟩ with
  | none => exact absent
  | some v' =>
    show v'.lookup r = none
    by_cases above : r.startsWith ex = true
    · obtain ⟨rest, rfl⟩ := Path.startsWith_iff.1 above
      by_cases hrest : rest = []
      · subst hrest
        rw [List.append_nil] at absent
        obtain ⟨old, there⟩ := lookup_of_enact?_none h
        rw [absent] at there
        cases there
      · exact lookup_enact?_above hr hrest h
    · by_cases below : ex.startsWith r = true
      · -- a node below what is not there cannot be removed
        obtain ⟨rest, rfl⟩ := Path.startsWith_iff.1 below
        obtain ⟨old, there⟩ := lookup_of_enact?_none h
        rw [lookup_append, absent] at there
        cases there
      · rw [lookup_enact?_aside hr above below h]
        exact absent

/-- Leaving a node out leaves the nodes alone that lie neither above nor below it. -/
theorem lookup_without_aside (hr : r.AllKeys) (above : ¬ r.startsWith ex = true)
    (below : ¬ ex.startsWith r = true) : (v.without ex).lookup r = v.lookup r := by
  unfold without
  cases h : v.enact? ⟨ex, none⟩ with
  | none => rfl
  | some v' => exact lookup_enact?_aside hr above below h

theorem lookup_prune_aside {E : List Path} (hr : r.AllKeys)
    (aside : ∀ ex ∈ E, ¬ r.startsWith ex = true ∧ ¬ ex.startsWith r = true) :
    (v.prune E).lookup r = v.lookup r := by
  induction E generalizing v with
  | nil => rfl
  | cons ex E ih =>
    obtain ⟨above, below⟩ := aside ex List.mem_cons_self
    rw [prune_cons, ih fun e he => aside e (List.mem_cons_of_mem ex he)]
    exact lookup_without_aside hr above below

theorem lookup_prune_of_none {E : List Path} (hE : ∀ ex ∈ E, ex.AllKeys) (hr : r.AllKeys)
    (absent : v.lookup r = none) : (v.prune E).lookup r = none := by
  induction E generalizing v with
  | nil => exact absent
  | cons ex E ih =>
    rw [prune_cons]
    exact ih (fun e he => hE e (List.mem_cons_of_mem ex he))
      (lookup_without_of_none hr absent (hE ex List.mem_cons_self))

/-- **A pruned tree has no node** at any of the paths left out. -/
theorem lookup_prune {E : List Path} (hE : ∀ ex ∈ E, ex.AllKeys ∧ ex ≠ []) (hr : r ∈ E) :
    (v.prune E).lookup r = none := by
  induction E generalizing v with
  | nil => cases hr
  | cons ex E ih =>
    have rest : ∀ e ∈ E, e.AllKeys ∧ e ≠ [] := fun e he => hE e (List.mem_cons_of_mem ex he)
    rw [prune_cons]
    rcases List.mem_cons.1 hr with rfl | hr
    · obtain ⟨keys, deep⟩ := hE r List.mem_cons_self
      exact lookup_prune_of_none (fun e he => (rest e he).1) keys (lookup_without keys deep)
    · exact ih rest hr

/-- The same of a value stored at a path: it has no node at what lies below. -/
theorem lookup_prune_pathsBelow {E : List Path} (hE : ∀ ex ∈ E, ex.AllKeys)
    (mem : p ++ r ∈ E) (deep : r ≠ []) : (v.prune (pathsBelow E p)).lookup r = none := by
  refine lookup_prune (fun q hq => ?_) ?_
  · obtain ⟨hq, nonempty⟩ := List.mem_filter.1 hq
    obtain ⟨ex, hex, below⟩ := List.mem_filterMap.1 hq
    rw [Path.below?_eq_some_iff] at below
    subst below
    exact ⟨fun s hs => hE _ hex s (List.mem_append_right p hs), by simpa using nonempty⟩
  · exact List.mem_filter.2
      ⟨List.mem_filterMap.2 ⟨p ++ r, mem, Path.below?_append p r⟩, by simpa using deep⟩

end HaCluster.Value
