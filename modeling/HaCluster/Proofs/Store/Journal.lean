import HaCluster.Store.Basic
import HaCluster.Proofs.Tree.Prune

/-!
# What the journal queues follows the head

The journal rewrites a change of the tree in one of three ways: a change below
the head is seen from the head, without what is excluded; a change of a node
above the head becomes a change of the whole head; any other change is
dropped. In each case what is queued leads from what the peers have of the
head (`image`) before the change to what they should have after it
(`image_enact?`), where "have" includes having nothing.
-/

namespace HaCluster.Journal

open Value

variable {j : Journal} {v v' : Value} {f g : Fragment}

/-- What the peers have when they are in step: the head without the excluded
paths, if there is one. -/
def image (j : Journal) (v : Value) : Option Value :=
  (v.lookup j.head).map (fun h => h.prune j.exclude)

/-- The settings name their nodes by keys alone. -/
structure ByKeys (j : Journal) : Prop where
  head : j.head.AllKeys
  exclude : ∀ ex ∈ j.exclude, ex.AllKeys

theorem journalHead_eq_image {s : Store} (h : s.journal = some j) :
    s.journalHead = j.image s.data := by
  rw [Store.journalHead, h]
  rfl

/-! ## The three ways a change is queued -/

theorem entry?_excluded {r : Path} (hf : f.path = j.head ++ r)
    (under : ∃ ex ∈ j.exclude, r.startsWith ex = true) : j.entry? f = none := by
  unfold entry?
  rw [hf, Path.below?_append]
  exact if_pos (List.any_eq_true.2 under)

theorem entry?_below {r : Path} (hf : f.path = j.head ++ r)
    (out : ∀ ex ∈ j.exclude, ¬ r.startsWith ex = true) :
    j.entry? f = some ⟨r, f.value.map (fun x => x.prune (pathsBelow j.exclude r))⟩ := by
  unfold entry?
  rw [hf, Path.below?_append]
  refine if_neg (fun under => ?_)
  obtain ⟨ex, hex, h⟩ := List.any_eq_true.1 under
  exact out ex hex h

theorem entry?_above {rest : Path} (hf : j.head = f.path ++ rest) (hrest : rest ≠ []) :
    j.entry? f
      = some ⟨[], (f.value.bind (fun x => x.lookup rest)).map (fun h => h.prune j.exclude)⟩ := by
  have notBelow : f.path.below? j.head = none := by
    rw [Path.below?_eq_none_iff]
    intro h
    obtain ⟨t, ht⟩ := Path.startsWith_iff.1 h
    have len := congrArg List.length (hf.trans (congrArg (· ++ rest) ht))
    have pos := List.length_pos_iff.2 hrest
    simp only [List.length_append] at len
    omega
  unfold entry?
  rw [notBelow, hf, Path.below?_append]
  cases h : f.value.bind (fun x => x.lookup rest) <;>
    simp [h, Fragment.set, Fragment.unset, Path.root]

theorem entry?_aside (above : ¬ j.head.startsWith f.path = true)
    (below : ¬ f.path.startsWith j.head = true) : j.entry? f = none := by
  unfold entry?
  rw [Path.below?_eq_none_iff.2 below, Path.below?_eq_none_iff.2 above]

/-! ## One change -/

theorem pathsBelow_root {E : List Path} (hE : [] ∉ E) : pathsBelow E [] = E := by
  have all : E.filterMap (fun ex => ex.below? []) = E := by
    rw [show (fun ex : Path => ex.below? []) = some from
      funext (fun ex => Path.below?_append [] ex)]
    exact List.filterMap_some
  rw [pathsBelow, all]
  refine List.filter_eq_self.2 (fun ex hex => ?_)
  have : ex ≠ [] := fun h => hE (h ▸ hex)
  simpa using this

/-- A change of what is excluded changes nothing for the peers. -/
theorem image_enact?_excluded {r : Path} (hj : j.ByKeys) (h0 : j.head ≠ [])
    (hE : [] ∉ j.exclude) (hv : v.Sorted) (hf : f.path = j.head ++ r)
    (under : ∃ ex ∈ j.exclude, r.startsWith ex = true) (h : v.enact? f = some v') :
    j.image v' = j.image v := by
  have exclude : ∀ ex ∈ j.exclude, ex.AllKeys ∧ ex ≠ [] := fun ex hex =>
    ⟨hj.exclude ex hex, fun h => hE (h ▸ hex)⟩
  have hr : r ≠ [] := by
    rintro rfl
    obtain ⟨ex, hex, h⟩ := under
    obtain ⟨t, ht⟩ := Path.startsWith_iff.1 h
    exact (exclude ex hex).2 (List.append_eq_nil_iff.1 ht.symm).1
  obtain ⟨p, x⟩ := f
  obtain rfl : p = j.head ++ r := hf
  obtain ⟨c, c', hc, hc', hc1⟩ := (follow?_eq_some_iff hr).1 (follow?_lookup hj.head h0 h)
  rw [image, image, hc, hc1, Option.map_some, Option.map_some,
    prune_enact?_of_excluded exclude (hv.lookup hc) under hc']

/-- Any other change below the head is, with the excluded paths taken out of
its value, the same change of what the peers have. -/
theorem follow?_image_below {r : Path} {x : Option Value} (hj : j.ByKeys) (h0 : j.head ≠ [])
    (hE : [] ∉ j.exclude) (hv : v.Sorted) (out : ∀ ex ∈ j.exclude, ¬ r.startsWith ex = true)
    (h : v.enact? ⟨j.head ++ r, x⟩ = some v') :
    follow? (j.image v) ⟨r, x.map (fun y => y.prune (pathsBelow j.exclude r))⟩
      = some (j.image v') := by
  have follow := follow?_lookup hj.head h0 h
  by_cases hr : r = []
  · subst hr
    rw [pathsBelow_root hE, follow?_root, image, ← Option.some.inj follow]
  · obtain ⟨c, c', hc, hc', hc1⟩ := (follow?_eq_some_iff hr).1 follow
    refine (follow?_eq_some_iff hr).2 ⟨c.prune j.exclude, c'.prune j.exclude, ?_, ?_, ?_⟩
    · rw [image, hc, Option.map_some]
    · exact enact?_prune hj.exclude (hv.lookup hc) out hc'
    · rw [image, hc1, Option.map_some]

/-- **What is queued for one change follows the head**: where nothing is
queued the peers lack nothing, and what is queued leads from what they have to
what they should have. -/
theorem image_enact? (hj : j.ByKeys) (h0 : j.head ≠ []) (hE : [] ∉ j.exclude)
    (hv : v.Sorted) (h : v.enact? f = some v') :
    match j.entry? f with
    | none => j.image v' = j.image v
    | some g => follow? (j.image v) g = some (j.image v') := by
  obtain ⟨p, x⟩ := f
  by_cases below : p.startsWith j.head = true
  · obtain ⟨r, rfl⟩ := Path.startsWith_iff.1 below
    by_cases under : ∃ ex ∈ j.exclude, r.startsWith ex = true
    · rw [entry?_excluded rfl under]
      exact image_enact?_excluded hj h0 hE hv rfl under h
    · have out : ∀ ex ∈ j.exclude, ¬ r.startsWith ex = true := fun ex hex h =>
        under ⟨ex, hex, h⟩
      rw [entry?_below rfl out]
      exact follow?_image_below hj h0 hE hv out h
  · by_cases above : j.head.startsWith p = true
    · obtain ⟨rest, hp, hrest⟩ := Path.exists_rest_of_above above below
      rw [entry?_above hp hrest]
      show follow? _ _ = _
      rw [follow?_root, image, hp, lookup_enact?_above (hp ▸ hj.head) hrest h]
    · rw [entry?_aside above below]
      show j.image v' = j.image v
      rw [image, image, lookup_enact?_aside hj.head above below h]

/-! ## Several changes -/

/-- **What is queued for several changes follows the head.** -/
theorem image_enactAll? {fs : List Fragment} (hj : j.ByKeys) (h0 : j.head ≠ [])
    (hE : [] ∉ j.exclude) (hv : v.Sorted) (hfs : ∀ f ∈ fs, f.Everywhere isSorted)
    (h : v.enactAll? fs = some v') :
    followAll? (j.image v) (fs.filterMap j.entry?) = some (j.image v') := by
  induction fs generalizing v with
  | nil =>
    cases h
    rfl
  | cons f fs ih =>
    obtain ⟨w, hw, h⟩ := Option.bind_eq_some_iff.1 h
    have rest := ih (hv.enact? closed_isSorted (hfs f List.mem_cons_self) hw)
      (fun g hg => hfs g (List.mem_cons_of_mem f hg)) h
    have first := image_enact? hj h0 hE hv hw
    rw [List.filterMap_cons]
    cases he : j.entry? f with
    | none =>
      rw [he] at first
      dsimp only at first ⊢
      rwa [← first]
    | some g =>
      rw [he] at first
      show (follow? (j.image v) g).bind (fun y => followAll? y _) = _
      rw [first, Option.bind_some]
      exact rest

/-! ## A copy of the head -/

/-- A copy of the head, which is `null` where there is no head. -/
def copy (j : Journal) (v : Value) : Value := (j.image v).getD .null

theorem image_everywhere {r : Value → Prop} (hr : Closed r) (hv : Everywhere r v) {h : Value}
    (hi : j.image v = some h) : Everywhere r h := by
  obtain ⟨c, hc, rfl⟩ := Option.map_eq_some_iff.1 hi
  exact (hv.lookup hc).prune hr j.exclude

theorem copy_everywhere {r : Value → Prop} (hr : Closed r) (hv : Everywhere r v) :
    Everywhere r (j.copy v) := by
  unfold copy
  cases hi : j.image v with
  | none => exact hr.null
  | some h => exact image_everywhere hr hv hi

theorem copy_of_root_excluded (hE : [] ∈ j.exclude) (v : Value) : j.copy v = .null := by
  unfold copy image
  cases v.lookup j.head with
  | none => rfl
  | some h => exact prune_of_root_mem hE h

theorem entry?_of_root_excluded (hE : [] ∈ j.exclude) (h : j.entry? f = some g) :
    ∃ x, g = ⟨[], x⟩ ∧ x.getD .null = .null := by
  by_cases below : f.path.startsWith j.head = true
  · obtain ⟨r, hr⟩ := Path.startsWith_iff.1 below
    rw [entry?_excluded hr ⟨[], hE, Path.startsWith_iff.2 ⟨r, rfl⟩⟩] at h
    cases h
  by_cases above : j.head.startsWith f.path = true
  · obtain ⟨rest, hp, hrest⟩ := Path.exists_rest_of_above above below
    rw [entry?_above hp hrest] at h
    refine ⟨_, (Option.some.inj h).symm, ?_⟩
    cases f.value.bind (fun x => x.lookup rest) with
    | none => rfl
    | some y => exact prune_of_root_mem hE y
  · rw [entry?_aside above below] at h
    cases h

/-- Where the whole head is excluded, nothing but the emptied root is ever
queued. -/
theorem copy_enact?_of_root_excluded (hE : [] ∈ j.exclude) :
    (j.copy v).enactAll? (j.entry? f).toList = some (j.copy v') := by
  rw [copy_of_root_excluded hE, copy_of_root_excluded hE]
  cases he : j.entry? f with
  | none => rfl
  | some g =>
    obtain ⟨x, rfl, hx⟩ := entry?_of_root_excluded hE he
    show (Value.null.enact? ⟨[], x⟩).bind some = _
    rw [enact?_root, hx]
    rfl

/-- Where the root of the tree is the head, every change lies below it. -/
theorem copy_enact?_of_root (h0 : j.head = []) (hj : j.ByKeys) (hE : [] ∉ j.exclude)
    (hv : v.Sorted) (h : v.enact? f = some v') :
    (j.copy v).enactAll? (j.entry? f).toList = some (j.copy v') := by
  have whole (t : Value) : j.copy t = t.prune j.exclude := by
    rw [copy, image, h0]
    rfl
  have hf : f.path = j.head ++ f.path := by rw [h0, List.nil_append]
  rw [whole, whole]
  by_cases under : ∃ ex ∈ j.exclude, f.path.startsWith ex = true
  · rw [entry?_excluded hf under,
      prune_enact?_of_excluded (fun ex hex => ⟨hj.exclude ex hex, fun h => hE (h ▸ hex)⟩) hv
        under h]
    rfl
  · have out : ∀ ex ∈ j.exclude, ¬ f.path.startsWith ex = true := fun ex hex h =>
      under ⟨ex, hex, h⟩
    rw [entry?_below hf out]
    show (enact? _ _).bind some = _
    rw [Option.bind_fun_some]
    exact enact?_prune hj.exclude hv out h

/-- What is queued for one change, replayed on a copy of the head, gives a copy
of the new head. This holds also of the settings under which no peer could be
served: a journal that excludes its whole head, and one whose head is the root
of the tree. -/
theorem copy_enact? (hj : j.ByKeys) (hv : v.Sorted) (h : v.enact? f = some v') :
    (j.copy v).enactAll? (j.entry? f).toList = some (j.copy v') := by
  by_cases hE : [] ∈ j.exclude
  · exact copy_enact?_of_root_excluded hE
  by_cases h0 : j.head = []
  · exact copy_enact?_of_root h0 hj hE hv h
  have step := image_enact? hj h0 hE hv h
  cases he : j.entry? f with
  | none =>
    rw [he] at step
    show some (j.copy v) = _
    rw [copy, copy, step]
  | some g =>
    rw [he] at step
    dsimp only at step
    show (enact? _ g).bind some = _
    rw [Option.bind_fun_some, copy, copy]
    obtain ⟨r, x⟩ := g
    by_cases hr : r = []
    · subst hr
      rw [enact?_root, ← Option.some.inj step]
    · obtain ⟨c, c', hc, hc', hc1⟩ := (follow?_eq_some_iff hr).1 step
      rw [hc, hc1]
      exact hc'

/-- **What is queued for several changes, replayed on a copy of the head**,
gives a copy of the new head. -/
theorem copy_enactAll? {fs : List Fragment} (hj : j.ByKeys) (hv : v.Sorted)
    (hfs : ∀ f ∈ fs, f.Everywhere isSorted) (h : v.enactAll? fs = some v') :
    (j.copy v).enactAll? (fs.filterMap j.entry?) = some (j.copy v') := by
  induction fs generalizing v with
  | nil =>
    cases h
    rfl
  | cons f fs ih =>
    obtain ⟨w, hw, h⟩ := Option.bind_eq_some_iff.1 h
    have split : (f :: fs).filterMap j.entry? = (j.entry? f).toList ++ fs.filterMap j.entry? := by
      rw [List.filterMap_cons]
      cases j.entry? f <;> rfl
    rw [split, enactAll?_append, copy_enact? hj hv hw, Option.bind_some]
    exact ih (hv.enact? closed_isSorted (hfs f List.mem_cons_self) hw)
      (fun g hg => hfs g (List.mem_cons_of_mem f hg)) h

/-! ## Plain trees -/

theorem image_plain (j : Journal) (v : Value) : j.image v.plain = (j.image v).map plain := by
  rw [image, image, lookup_plain, Option.map_map, Option.map_map]
  exact congrArg (fun k => Option.map k _) (funext (fun h => prune_plain h _))

theorem copy_plain (j : Journal) (v : Value) : j.copy v.plain = (j.copy v).plain := by
  rw [copy, image_plain, copy]
  cases j.image v <;> rfl

theorem entry?_plain (j : Journal) (f : Fragment) :
    j.entry? f.plain = (j.entry? f).map Fragment.plain := by
  unfold entry? Fragment.plain
  dsimp only
  cases f.path.below? j.head with
  | some r =>
    dsimp only
    split
    · rfl
    · rw [Option.map_some, Option.map_map, Option.map_map]
      exact congrArg (fun k => some (Fragment.mk r (Option.map k f.value)))
        (funext (fun x => prune_plain x _))
  | none =>
    cases j.head.below? f.path with
    | none => rfl
    | some rest =>
      dsimp only
      cases f.value with
      | none => rfl
      | some x =>
        rw [Option.map_some, Option.bind_some, Option.bind_some, lookup_plain]
        cases x.lookup rest with
        | none => rfl
        | some h =>
          exact congrArg (fun y => some (Fragment.set Path.root y)) (prune_plain h j.exclude)

theorem filterMap_entry?_plain (j : Journal) (fs : List Fragment) :
    (fs.map Fragment.plain).filterMap j.entry? = (fs.filterMap j.entry?).map Fragment.plain := by
  rw [List.filterMap_map, List.map_filterMap]
  exact congrArg (fun k => List.filterMap k fs) (funext (entry?_plain j))

end HaCluster.Journal
