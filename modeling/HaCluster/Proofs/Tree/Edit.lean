import HaCluster.Tree.Diff
import HaCluster.Proofs.Tree.Equality

/-!
# One edit of a tree

Storing, removing and replaying a fragment are one operation, `enact?`: the
container of the last step is looked up, changed in that step, and plugged
back in. Where it gives a tree, `store`, `remove` and `apply` give the same
one (`store_eq_ok_iff`, `remove_eq_ok_iff`, `apply_of_enact?`); where it gives none,
`store` and `remove` fail, and `apply` may still pass over the removal of what
is not there.

An edit at a path is an edit of the node at any prefix of it
(`enact?_append`), and every later proof goes along the path by that law.
-/

namespace HaCluster.Value

variable {v w c c' : Value} {s t : Segment} {p q : Path}

/-! ## One step -/

/-- The container with one of its steps changed: set to a value, or taken
out. A list takes a new item directly after its last one. -/
def edit? (v : Value) (s : Segment) (x : Option Value) : Option Value :=
  match v, s with
  | .map m, .key k =>
    if x.isSome || Entries.contains m k then some (.map (Entries.change m k x)) else none
  | .list l, .index i =>
    match x with
    | some x =>
      if i < l.length then some (.list (l.set i x))
      else if i = l.length then some (.list (l ++ [x]))
      else none
    | none => if i < l.length then some (.list (l.eraseIdx i)) else none
  | _, _ => none

theorem step?_map (m : Entries Value) (k : String) :
    step? (.map m) (.key k) = Entries.get? m k := rfl

theorem get?_eq_lookup (v : Value) (k : String) : v.get? k = v.lookup [.key k] := by
  show v.get? k = (v.step? (.key k)).bind some
  rw [Option.bind_fun_some]
  cases v <;> rfl

theorem Everywhere.step? {r : Value → Prop} (hv : Everywhere r v) (h : v.step? s = some c) :
    Everywhere r c := by
  cases v <;> cases s <;> try cases h
  case list.index l i => exact (everywhere_list.1 hv).2 c (List.mem_of_getElem? h)
  case map.key m k => exact (everywhere_map.1 hv).2 (k, c) (Entries.mem_of_get? h)

theorem edit?_map_eq_some {m : Entries Value} {k : String} {x : Option Value} {v' : Value} :
    edit? (.map m) (.key k) x = some v'
      ↔ (x.isSome ∨ (Entries.get? m k).isSome) ∧ v' = .map (Entries.change m k x) := by
  unfold edit?
  simp only [Entries.contains, Bool.or_eq_true]
  split
  · rename_i h
    rw [Option.some.injEq, and_iff_right h]
    exact eq_comm
  · rename_i h
    constructor
    · intro e
      cases e
    · intro e
      exact absurd e.1 h

/-- What a container holds at a step can be found again after it was put
there. -/
theorem step?_putStep (h : v.step? s = some c) : (v.putStep s c').step? s = some c' := by
  cases v <;> cases s <;> try cases h
  case list.index l i =>
    obtain ⟨hi, -⟩ := List.getElem?_eq_some_iff.1 h
    show (l.set i c')[i]? = some c'
    rw [List.getElem?_set_self hi]
  case map.key m k => exact Entries.get?_insert_self m k c'

/-- Setting a step that exists is putting the value in its place. -/
theorem edit?_of_step? (h : v.step? s = some c) (x : Value) :
    v.edit? s (some x) = some (v.putStep s x) := by
  cases v <;> cases s <;> try cases h
  case list.index l i =>
    obtain ⟨hi, -⟩ := List.getElem?_eq_some_iff.1 h
    exact if_pos hi
  case map.key m k => rfl

/-- What was put into a container is found there. -/
theorem step?_of_edit?_some {x v' : Value} (h : v.edit? s (some x) = some v') :
    v'.step? s = some x := by
  cases v <;> cases s <;> try cases h
  case list.index l i =>
    unfold edit? at h
    dsimp only at h
    split at h
    · rename_i hi
      cases h
      exact List.getElem?_set_self hi
    · split at h
      · rename_i hi
        cases h
        show (l ++ [x])[i]? = some x
        rw [hi, List.getElem?_concat_length]
      · cases h
  case map.key m k => exact Entries.get?_insert_self m k x

/-- What was put into a container can be exchanged. -/
theorem edit?_exchange {x : Value} (h : c.edit? s (some x) = some c') (y : Value) :
    c.edit? s (some y) = some (c'.putStep s y) := by
  cases c <;> cases s <;> try cases h
  case list.index l i =>
    unfold edit? at h ⊢
    dsimp only at h ⊢
    split at h
    · rename_i hi
      cases h
      rw [if_pos hi]
      exact congrArg (fun l => some (list l)) (List.set_set ..).symm
    · rename_i hi
      split at h
      · rename_i last
        cases h
        rw [if_neg hi, if_pos last]
        show _ = some (list ((l ++ [x]).set i y))
        simp [last]
      · cases h
  case map.key m k => exact congrArg (fun m => some (map m)) (Entries.insert_insert m k x y).symm

/-- Only a step that exists can be taken out. -/
theorem step?_of_edit?_none {v' : Value} (h : v.edit? s none = some v') :
    ∃ old, v.step? s = some old := by
  cases v <;> cases s <;> try cases h
  case list.index l i =>
    by_cases hi : i < l.length
    · exact ⟨l[i], List.getElem?_eq_getElem hi⟩
    · simp [edit?, hi] at h
  case map.key m k =>
    obtain ⟨hk, -⟩ := edit?_map_eq_some.1 h
    rw [step?_map]
    exact Option.isSome_iff_exists.1 (by simpa using hk)

theorem putStep_step? (hv : v.Sorted) (h : v.step? s = some c) : v.putStep s c = v := by
  cases v <;> cases s <;> try cases h
  case list.index l i =>
    obtain ⟨hi, rfl⟩ := List.getElem?_eq_some_iff.1 h
    exact congrArg Value.list (List.set_getElem_self hi)
  case map.key m k =>
    have keep := hv.entries.change_get? k
    rw [← step?_map, h] at keep
    exact congrArg Value.map keep

theorem putStep_putStep : (v.putStep s c).putStep s c' = v.putStep s c' := by
  cases v <;> cases s <;> try rfl
  case list.index l i => exact congrArg Value.list (List.set_set ..)
  case map.key m k => exact congrArg Value.map (Entries.insert_insert m k c c')

/-! ## The node at a path -/

/-- The tree in which another node stands at a path. A path that the tree
does not have is left alone. -/
def plug (v : Value) : Path → Value → Value
  | [], c => c
  | s :: rest, c =>
    match v.step? s with
    | some child => v.putStep s (child.plug rest c)
    | none => v

theorem lookup_nil : v.lookup [] = some v := rfl

theorem lookup_cons : v.lookup (s :: p) = (v.step? s).bind (fun d => d.lookup p) := rfl

theorem lookup_append :
    v.lookup (p ++ q) = (v.lookup p).bind (fun d => d.lookup q) := by
  induction p generalizing v with
  | nil => rfl
  | cons s p ih =>
    rw [List.cons_append, lookup_cons, lookup_cons, Option.bind_assoc]
    exact congrArg _ (funext (fun _ => ih))

/-- What lies at a key of a mapping. -/
theorem lookup_key {m : Entries Value} (h : v.lookup p = some (.map m)) (k : String) :
    v.lookup (p.key k) = Entries.get? m k := by
  rw [Path.key, Path.child, lookup_append, h]
  exact Option.bind_fun_some _

/-- What has a key is a mapping. -/
theorem exists_map_of_lookup_key {k : String} (h : v.lookup (p.key k) = some w) :
    ∃ m, v.lookup p = some (.map m) := by
  rw [Path.key, Path.child, lookup_append] at h
  obtain ⟨c, hc, h⟩ := Option.bind_eq_some_iff.1 h
  obtain ⟨d, hd, -⟩ := Option.bind_eq_some_iff.1 h
  cases c <;> first | exact ⟨_, hc⟩ | cases hd

theorem plug_cons (h : v.step? s = some c) :
    v.plug (s :: p) w = v.putStep s (c.plug p w) := by
  rw [plug, h]

theorem plug_append (h : v.lookup p = some c) :
    v.plug (p ++ q) w = v.plug p (c.plug q w) := by
  induction p generalizing v with
  | nil =>
    cases h
    rfl
  | cons s p ih =>
    obtain ⟨d, hd, h⟩ := Option.bind_eq_some_iff.1 h
    rw [List.cons_append, plug_cons hd, plug_cons hd, ih h]

theorem lookup_plug (h : v.lookup p = some c) : (v.plug p c').lookup p = some c' := by
  induction p generalizing v with
  | nil => rfl
  | cons s p ih =>
    obtain ⟨d, hd, h⟩ := Option.bind_eq_some_iff.1 h
    rw [plug_cons hd, lookup_cons, step?_putStep hd]
    exact ih h

theorem plug_lookup (hv : v.Sorted) (h : v.lookup p = some c) : v.plug p c = v := by
  induction p generalizing v with
  | nil =>
    cases h
    rfl
  | cons s p ih =>
    obtain ⟨d, hd, h⟩ := Option.bind_eq_some_iff.1 h
    rw [plug_cons hd, ih (hv.step? hd) h, putStep_step? hv hd]

theorem plug_plug (h : v.lookup p = some c) :
    (v.plug p w).plug p c' = v.plug p c' := by
  induction p generalizing v with
  | nil => rfl
  | cons s p ih =>
    obtain ⟨d, hd, h⟩ := Option.bind_eq_some_iff.1 h
    rw [plug_cons hd, plug_cons hd, plug_cons (step?_putStep hd), ih h, putStep_putStep]

/-! ## One edit at a path -/

/-- The tree after one fragment: a set root is the value, a removed root is
`null`, and elsewhere the container of the last step is changed. -/
def enact? (v : Value) (f : Fragment) : Option Value :=
  match f.path.getLast? with
  | none => some (f.value.getD .null)
  | some s =>
    (v.lookup f.path.dropLast).bind (fun d =>
      (d.edit? s f.value).map (v.plug f.path.dropLast))

/-- The tree after several fragments. -/
def enactAll? (v : Value) (fs : List Fragment) : Option Value :=
  fs.foldlM enact? v

theorem enact?_root (x : Option Value) : v.enact? ⟨[], x⟩ = some (x.getD .null) := rfl

theorem enact?_step (x : Option Value) : v.enact? ⟨[s], x⟩ = v.edit? s x := by
  show (some v).bind (fun d => (d.edit? s x).map (v.plug [])) = v.edit? s x
  rw [Option.bind_some]
  exact Option.map_id'

/-- **An edit below a node is an edit of the node**, plugged back in. -/
theorem enact?_append (hq : q ≠ []) (x : Option Value) :
    v.enact? ⟨p ++ q, x⟩
      = (v.lookup p).bind (fun d => (d.enact? ⟨q, x⟩).map (v.plug p)) := by
  obtain ⟨q, s, rfl⟩ : ∃ q' s, q = q' ++ [s] :=
    ⟨q.dropLast, q.getLast hq, (List.dropLast_concat_getLast hq).symm⟩
  have last (d : Value) (r : Path) : d.enact? ⟨r ++ [s], x⟩
      = (d.lookup r).bind (fun e => (e.edit? s x).map (d.plug r)) := by
    simp [enact?]
  rw [← List.append_assoc, last, lookup_append, Option.bind_assoc]
  refine Option.bind_congr (fun d hd => ?_)
  rw [last, Option.map_bind]
  refine congrArg _ (funext (fun e => ?_))
  rw [Function.comp_apply, Option.map_map]
  exact congrArg (fun g => Option.map g _) (funext (fun _ => plug_append hd))

/-- **An edit in its last step**: the container above is changed in that step, and plugged
back in. -/
theorem enact?_concat_eq_some {x : Option Value} {v' : Value} :
    v.enact? ⟨p ++ [s], x⟩ = some v'
      ↔ ∃ d d', v.lookup p = some d ∧ d.edit? s x = some d' ∧ v' = v.plug p d' := by
  rw [enact?_append (List.cons_ne_nil s [])]
  simp only [enact?_step, Option.bind_eq_some_iff, Option.map_eq_some_iff]
  constructor
  · rintro ⟨d, hd, d', change, rfl⟩
    exact ⟨d, d', hd, change, rfl⟩
  · rintro ⟨d, d', hd, change, rfl⟩
    exact ⟨d, hd, d', change, rfl⟩

theorem enact?_cons (hp : p ≠ []) (x : Option Value) :
    v.enact? ⟨s :: p, x⟩
      = (v.step? s).bind (fun d => (d.enact? ⟨p, x⟩).map (v.putStep s)) := by
  rw [show s :: p = [s] ++ p from rfl, enact?_append hp, lookup_cons, Option.bind_assoc]
  refine Option.bind_congr (fun d hd => ?_)
  rw [lookup_nil, Option.bind_some]
  exact congrArg (fun g => Option.map g _) (funext (fun _ => plug_cons hd))

/-- Setting a node that exists plugs the value in. -/
theorem enact?_set (h : v.lookup p = some c) (x : Value) :
    v.enact? ⟨p, some x⟩ = some (v.plug p x) := by
  induction p using List.reverseRecOn with
  | nil => rfl
  | append_singleton p s _ =>
    rw [lookup_append] at h
    obtain ⟨d, hd, h⟩ := Option.bind_eq_some_iff.1 h
    obtain ⟨e, he, -⟩ := Option.bind_eq_some_iff.1 h
    rw [enact?_append (List.cons_ne_nil s []), hd, Option.bind_some, enact?_step,
      edit?_of_step? he, Option.map_some, plug_append hd, plug_cons he]
    rfl

/-- What was stored is found where it was stored. -/
theorem lookup_enact?_self {x v' : Value} (h : v.enact? ⟨p, some x⟩ = some v') :
    v'.lookup p = some x := by
  induction p using List.reverseRecOn with
  | nil =>
    cases h
    rfl
  | append_singleton p s _ =>
    obtain ⟨d, d', hd, he, rfl⟩ := enact?_concat_eq_some.1 h
    rw [lookup_append, lookup_plug hd, Option.bind_some, lookup_cons, step?_of_edit?_some he]
    rfl

/-- **What was stored can be exchanged**: it is as if the other value had been stored
at once. -/
theorem enact?_exchange {x v' : Value} (h : v.enact? ⟨p, some x⟩ = some v') (y : Value) :
    v.enact? ⟨p, some y⟩ = some (v'.plug p y) := by
  induction p using List.reverseRecOn with
  | nil => rfl
  | append_singleton p s _ =>
    obtain ⟨d, d', hd, he, rfl⟩ := enact?_concat_eq_some.1 h
    refine enact?_concat_eq_some.2 ⟨d, _, hd, edit?_exchange he y, ?_⟩
    rw [plug_append (lookup_plug hd), plug_plug hd, plug_cons (step?_of_edit?_some he)]
    rfl

/-- A change of a node, seen from further up. Only the removal of the node
itself is not one. -/
theorem enact?_rebase {f : Fragment} (h : v.lookup p = some c)
    (hf : f.path = [] → f.value.isSome) :
    v.enact? (f.rebase p) = (c.enact? f).map (v.plug p) := by
  obtain ⟨q, x⟩ := f
  by_cases hq : q = []
  · subst hq
    obtain ⟨x, rfl⟩ := Option.isSome_iff_exists.1 (hf rfl)
    show v.enact? ⟨p ++ [], some x⟩ = _
    rw [List.append_nil, enact?_set h]
    rfl
  · exact (enact?_append hq x).trans (by rw [h, Option.bind_some])

theorem enactAll?_nil : v.enactAll? [] = some v := rfl

theorem enactAll?_cons (f : Fragment) (fs : List Fragment) :
    v.enactAll? (f :: fs) = (v.enact? f).bind (fun w => w.enactAll? fs) := rfl

theorem enactAll?_append (fs gs : List Fragment) :
    v.enactAll? (fs ++ gs) = (v.enactAll? fs).bind (fun w => w.enactAll? gs) :=
  List.foldlM_append

/-- **Changes of a node, seen from further up**, lead to the tree with the
changed node in its place. -/
theorem enactAll?_rebase {fs : List Fragment} (hv : v.Sorted) (h : v.lookup p = some c)
    (hfs : ∀ f ∈ fs, f.path = [] → f.value.isSome) (hc : c.enactAll? fs = some c') :
    v.enactAll? (fs.map (Fragment.rebase p)) = some (v.plug p c') := by
  -- the tree stays the old one with the node in its place, so that only the
  -- old tree has to be sorted
  have run : ∀ d, d.enactAll? fs = some c' →
      (v.plug p d).enactAll? (fs.map (Fragment.rebase p)) = some (v.plug p c') := by
    clear hc
    induction fs with
    | nil =>
      intro d hd
      cases hd
      rfl
    | cons f fs ih =>
      intro d hd
      obtain ⟨e, he, hd⟩ := Option.bind_eq_some_iff.1 hd
      rw [List.map_cons, enactAll?_cons,
        enact?_rebase (lookup_plug h) (hfs f List.mem_cons_self), he, Option.map_some,
        plug_plug h, Option.bind_some]
      exact ih (fun g hg => hfs g (List.mem_cons_of_mem f hg)) e hd
  rw [← run c hc, plug_lookup hv h]

/-! ## Storing, removing and replaying -/

section EditAt

variable {α : Type} {f : Value → Except DataError (α × Value)} {visited : Path} {a : α}

/-- An edit further down edits the child and puts it back. -/
theorem editAt_cons {child : Value} (hs : v.step? s = some child) :
    editAt f visited (s :: p) v
      = (editAt f (visited.child s) p child).map (fun r => (r.1, v.putStep s r.2)) := by
  rw [editAt, hs]
  rfl

theorem editAt_cons_ne_ok {r : α × Value} (hs : v.step? s = none) :
    editAt f visited (s :: p) v ≠ .ok r := by
  rw [editAt, hs]
  dsimp only
  split <;> exact nofun

theorem editAt_eq_ok_iff {v' : Value} :
    editAt f visited p v = .ok (a, v')
      ↔ ∃ d d', v.lookup p = some d ∧ f d = .ok (a, d') ∧ v' = v.plug p d' := by
  induction p generalizing visited v v' with
  | nil =>
    rw [editAt]
    constructor
    · intro h
      exact ⟨v, v', rfl, h, rfl⟩
    · rintro ⟨d, d', hd, h, rfl⟩
      cases hd
      exact h
  | cons s p ih =>
    rw [lookup_cons]
    cases hs : v.step? s with
    | none =>
      refine iff_of_false (editAt_cons_ne_ok hs) ?_
      rintro ⟨d, d', hd, -⟩
      cases hd
    | some child =>
      rw [Option.bind_some, editAt_cons hs]
      constructor
      · intro h
        cases he : editAt f (visited.child s) p child with
        | error e =>
          rw [he] at h
          cases h
        | ok r =>
          rw [he] at h
          cases h
          obtain ⟨d, d', hd, hf, same⟩ := ih.1 he
          exact ⟨d, d', hd, hf, by rw [plug_cons hs, same]⟩
      · rintro ⟨d, d', hd, hf, rfl⟩
        rw [ih.2 ⟨d, d', hd, hf, rfl⟩, plug_cons hs]
        rfl

theorem editAt_of_error {d : Value} {e : DataError} (h : v.lookup p = some d)
    (hf : f d = .error e) : editAt f visited p v = .error e := by
  induction p generalizing visited v with
  | nil =>
    cases h
    exact hf
  | cons s p ih =>
    obtain ⟨child, hs, h⟩ := Option.bind_eq_some_iff.1 h
    rw [editAt_cons hs, ih h]
    rfl

end EditAt

theorem place_eq_ok_iff {x v' : Value} : place p v s x = .ok v' ↔ v.edit? s (some x) = some v' := by
  cases v <;> cases s <;> simp only [place, edit?, reduceCtorEq]
  case list.index l i =>
    split
    · simp
    · split <;> simp
  case map.key m k => simp

theorem take_eq_ok_iff {old v' : Value} :
    take p v s = .ok (old, v') ↔ v.step? s = some old ∧ v.edit? s none = some v' := by
  cases v <;> cases s <;> simp only [take, edit?, step?, reduceCtorEq, and_false]
  case list.index l i =>
    by_cases h : i < l.length <;> simp [h]
  case map.key m k =>
    cases h : Entries.get? m k <;> simp [Entries.contains, h]

/-- `store` gives the tree of the edit, or fails where there is none. -/
theorem store_eq_ok_iff {x v' : Value} :
    v.store p x = .ok v' ↔ v.enact? ⟨p, some x⟩ = some v' := by
  unfold store enact?
  dsimp only
  cases p.getLast? with
  | none => simp
  | some s =>
    dsimp only
    have ok : editAt (fun d => (place p d s x).map ((), ·)) [] p.dropLast v = .ok ((), v')
        ↔ (v.lookup p.dropLast).bind (fun d =>
            (d.edit? s (some x)).map (v.plug p.dropLast)) = some v' := by
      rw [editAt_eq_ok_iff]
      simp only [Option.bind_eq_some_iff, Option.map_eq_some_iff]
      constructor
      · rintro ⟨d, d', hd, hp, rfl⟩
        refine ⟨d, hd, d', ?_, rfl⟩
        cases hpl : place p d s x with
        | error e =>
          rw [hpl] at hp
          cases hp
        | ok r =>
          rw [hpl] at hp
          cases hp
          exact place_eq_ok_iff.1 hpl
      · rintro ⟨d, hd, d', he, rfl⟩
        refine ⟨d, d', hd, ?_, rfl⟩
        rw [place_eq_ok_iff.2 he]
        rfl
    rw [← ok]
    cases editAt (fun d => (place p d s x).map ((), ·)) [] p.dropLast v with
    | ok r => simp [Prod.ext_iff]
    | error e => cases e <;> simp

/-- `remove` gives the node and the tree of the edit, or fails where there is
none. -/
theorem remove_eq_ok_iff {old v' : Value} :
    v.remove p = .ok (old, v') ↔ v.lookup p = some old ∧ v.enact? ⟨p, none⟩ = some v' := by
  induction p using List.reverseRecOn with
  | nil => simp [remove, enact?, lookup]
  | append_singleton p s _ =>
    have ok : editAt (fun d => take (p ++ [s]) d s) [] p v = .ok (old, v')
        ↔ v.lookup (p ++ [s]) = some old ∧ v.enact? ⟨p ++ [s], none⟩ = some v' := by
      rw [editAt_eq_ok_iff, enact?_append (List.cons_ne_nil s []), lookup_append]
      simp only [take_eq_ok_iff, enact?_step, lookup_cons, lookup_nil,
        Option.bind_eq_some_iff, Option.map_eq_some_iff]
      constructor
      · rintro ⟨d, d', hd, ⟨ho, he⟩, rfl⟩
        exact ⟨⟨d, hd, old, ho, rfl⟩, d, hd, d', he, rfl⟩
      · rintro ⟨⟨d, hd, e, ho, he⟩, d', hd', e', he', rfl⟩
        obtain rfl := Option.some.inj (hd.symm.trans hd')
        obtain rfl := Option.some.inj he
        exact ⟨d, e', hd, ⟨ho, he'⟩, rfl⟩
    rw [← ok]
    unfold remove
    simp only [List.getLast?_concat, List.dropLast_concat]
    cases editAt (fun d => take (p ++ [s]) d s) [] p v with
    | ok r => simp
    | error e => cases e <;> simp

/-- Only a node that is there can be taken out. -/
theorem lookup_of_enact?_none {v' : Value} (h : v.enact? ⟨p, none⟩ = some v') :
    ∃ old, v.lookup p = some old := by
  cases p using List.reverseRecOn with
  | nil => exact ⟨v, rfl⟩
  | append_singleton p s =>
    obtain ⟨d, d', hd, he, -⟩ := enact?_concat_eq_some.1 h
    obtain ⟨old, ho⟩ := step?_of_edit?_none he
    exact ⟨old, by rw [lookup_append, hd, Option.bind_some, lookup_cons, ho]; rfl⟩

theorem remove_of_enact?_none {v' : Value} (h : v.enact? ⟨p, none⟩ = some v') :
    ∃ old, v.remove p = .ok (old, v') := by
  obtain ⟨old, ho⟩ := lookup_of_enact?_none h
  exact ⟨old, remove_eq_ok_iff.2 ⟨ho, h⟩⟩

theorem apply_of_enact? {f : Fragment} {v' : Value} (h : v.enact? f = some v') :
    v.apply f = .ok v' := by
  obtain ⟨p, x⟩ := f
  cases x with
  | some x => exact store_eq_ok_iff.2 h
  | none =>
    obtain ⟨old, ho⟩ := remove_of_enact?_none h
    unfold apply
    rw [ho]

/-- Replaying a fragment makes the edit that it names, or none. -/
theorem enact?_of_apply {f : Fragment} {v' : Value} (h : v.apply f = .ok v') :
    v' = v ∨ v.enact? f = some v' := by
  obtain ⟨p, x⟩ := f
  unfold apply at h
  cases x with
  | some x => exact .inr (store_eq_ok_iff.1 h)
  | none =>
    dsimp only at h
    cases hr : v.remove p with
    | ok r =>
      rw [hr] at h
      cases h
      exact .inr (remove_eq_ok_iff.1 hr).2
    | error e =>
      rw [hr] at h
      cases e <;> cases h
      exact .inl rfl

/-- A key that its mapping does not have cannot be removed. -/
theorem remove_absent {m : Entries Value} {k : String} (h : v.lookup p = some (.map m))
    (hk : Entries.get? m k = none) : v.remove (p.key k) = .error (.notFound (p.key k)) := by
  have missing : editAt (fun d => take (p.key k) d (.key k)) [] p v
      = .error (.notFound (p.key k)) := by
    refine editAt_of_error h ?_
    simp only [take, hk]
  unfold remove
  simp only [Path.key, Path.child, List.getLast?_concat, List.dropLast_concat]
  simp only [Path.key, Path.child] at missing
  rw [missing]

/-- Removing a key that its mapping does not have changes nothing. -/
theorem apply_unset_absent {m : Entries Value} {k : String} (h : v.lookup p = some (.map m))
    (hk : Entries.get? m k = none) : v.apply (Fragment.unset (p.key k)) = .ok v := by
  unfold apply
  simp only [Fragment.unset, remove_absent h hk]

/-- Fragments that lead to a tree are replayed without a failure. -/
theorem replay_of_enactAll? {fs : List Fragment} {v' : Value}
    (h : v.enactAll? fs = some v') : v.replay fs = .ok v' := by
  induction fs generalizing v with
  | nil =>
    cases h
    rfl
  | cons f fs ih =>
    obtain ⟨w, hw, h⟩ := Option.bind_eq_some_iff.1 h
    show (v.apply f >>= fun w => w.replay fs) = .ok v'
    rw [apply_of_enact? hw]
    exact ih h

end HaCluster.Value
