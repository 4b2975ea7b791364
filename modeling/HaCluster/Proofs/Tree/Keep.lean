import HaCluster.Proofs.Tree.Edit

/-!
# What an edit keeps

A property of single values that no change of a container can break holds
everywhere in a tree after an edit, if it held everywhere before and in what
was stored. That every number is one and that every mapping is sorted are such
properties.

An edit also does not see the signs of zeros: the plain form of the edited
tree is the plain tree, edited. Changes can therefore be followed on plain
trees, where being equal is being the same.
-/

namespace HaCluster

/-- A fragment without the signs of the zeros in its value. -/
def Fragment.plain (f : Fragment) : Fragment :=
  ⟨f.path, f.value.map Value.plain⟩

/-- A property holds everywhere in what a fragment stores. -/
def Fragment.Everywhere (r : Value → Prop) (f : Fragment) : Prop :=
  ∀ x ∈ f.value, Value.Everywhere r x

namespace Value

variable {r : Value → Prop} {v c v' : Value} {s : Segment} {p : Path} {f : Fragment}

/-! ## Properties of every value in the tree -/

/-- No change of a container breaks the property of single values. -/
structure Closed (r : Value → Prop) : Prop where
  null : r .null
  list (l : List Value) : r (.list l)
  change {m : Entries Value} (k : String) (x : Option Value) (h : r (.map m)) :
    r (.map (Entries.change m k x))

theorem closed_isNumber : Closed isNumber where
  null := trivial
  list _ := trivial
  change _ _ _ := trivial

theorem closed_isSorted : Closed isSorted where
  null := trivial
  list _ := trivial
  change k x h := Entries.Sorted.change h k x

theorem Everywhere.change (hr : Closed r) {m : Entries Value} (hm : Everywhere r (.map m))
    (k : String) {x : Option Value} (hx : ∀ y ∈ x, Everywhere r y) :
    Everywhere r (.map (Entries.change m k x)) := by
  obtain ⟨hm, hes⟩ := everywhere_map.1 hm
  refine everywhere_map.2 ⟨hr.change k x hm, fun e he => ?_⟩
  rcases Entries.mem_of_mem_change he with ⟨-, rfl⟩ | he
  · exact hx e.2 rfl
  · exact hes e he

theorem Everywhere.edit? (hr : Closed r) (hv : Everywhere r v) {x : Option Value}
    (hx : ∀ y ∈ x, Everywhere r y) (h : v.edit? s x = some v') : Everywhere r v' := by
  cases v <;> cases s <;> try cases h
  case list.index l i =>
    have hl := (everywhere_list.1 hv).2
    -- every item of the new list is an old one or the new value
    have items : ∃ l', v' = .list l' ∧ ∀ w ∈ l', w ∈ l ∨ x = some w := by
      simp only [Value.edit?] at h
      split at h
      · split at h
        · obtain rfl := Option.some.inj h
          refine ⟨_, rfl, fun w hw => ?_⟩
          rcases List.mem_or_eq_of_mem_set hw with hw | rfl
          · exact .inl hw
          · exact .inr rfl
        · split at h
          · obtain rfl := Option.some.inj h
            refine ⟨_, rfl, fun w hw => ?_⟩
            rcases List.mem_append.1 hw with hw | hw
            · exact .inl hw
            · exact .inr (congrArg some (List.mem_singleton.1 hw).symm)
          · cases h
      · split at h
        · obtain rfl := Option.some.inj h
          exact ⟨_, rfl, fun w hw => .inl (List.mem_of_mem_eraseIdx hw)⟩
        · cases h
    obtain ⟨l', rfl, items⟩ := items
    refine everywhere_list.2 ⟨hr.list l', fun w hw => ?_⟩
    rcases items w hw with hw | rfl
    · exact hl w hw
    · exact hx w rfl
  case map.key m k =>
    obtain ⟨-, rfl⟩ := edit?_map_eq_some.1 h
    exact hv.change hr k hx

theorem Everywhere.lookup (hv : Everywhere r v) (h : v.lookup p = some c) :
    Everywhere r c := by
  induction p generalizing v with
  | nil =>
    cases h
    exact hv
  | cons s p ih =>
    obtain ⟨d, hd, h⟩ := Option.bind_eq_some_iff.1 h
    exact ih (hv.step? hd) h

theorem Everywhere.putStep (hr : Closed r) (hv : Everywhere r v) (hc : Everywhere r c)
    (h : (v.step? s).isSome) : Everywhere r (v.putStep s c) := by
  obtain ⟨d, hd⟩ := Option.isSome_iff_exists.1 h
  refine hv.edit? hr ?_ (edit?_of_step? hd c)
  rintro y ⟨⟩
  exact hc

theorem Everywhere.plug (hr : Closed r) (hv : Everywhere r v) (hc : Everywhere r c) :
    Everywhere r (v.plug p c) := by
  induction p generalizing v with
  | nil => exact hc
  | cons s p ih =>
    unfold Value.plug
    cases hd : v.step? s with
    | none => exact hv
    | some d => exact hv.putStep hr (ih (hv.step? hd)) (hd ▸ rfl)

/-- **An edit keeps** what holds everywhere in the tree and in the new
value. -/
theorem Everywhere.enact? (hr : Closed r) (hv : Everywhere r v) (hf : f.Everywhere r)
    (h : v.enact? f = some v') : Everywhere r v' := by
  unfold Value.enact? at h
  split at h
  · cases h
    cases hx : f.value with
    | none => exact hr.null
    | some x => exact hf x hx
  · obtain ⟨d, hd, h⟩ := Option.bind_eq_some_iff.1 h
    obtain ⟨d', he, rfl⟩ := Option.map_eq_some_iff.1 h
    exact hv.plug hr ((hv.lookup hd).edit? hr hf he)

/-! ## Plain trees -/

mutual

/-- What does not see the signs of zeros holds everywhere in the plain form
exactly if it holds everywhere in the value. -/
theorem everywhere_plain (hr : ∀ v, r v.plain ↔ r v) (v : Value) :
    Everywhere r v.plain ↔ Everywhere r v := by
  cases v with
  | list l =>
    have whole := hr (.list l)
    rw [plain_list, ← plainItems_eq] at *
    exact and_congr whole (everywhereItems_plain hr l)
  | map m =>
    have whole := hr (.map m)
    rw [plain_map, ← plainEntries_eq] at *
    exact and_congr whole (everywhereEntries_plain hr m)
  | _ => exact hr _

theorem everywhereItems_plain (hr : ∀ v, r v.plain ↔ r v) (l : List Value) :
    EverywhereItems r (plainItems l) ↔ EverywhereItems r l := by
  match l with
  | [] => exact Iff.rfl
  | v :: rest => exact and_congr (everywhere_plain hr v) (everywhereItems_plain hr rest)

theorem everywhereEntries_plain (hr : ∀ v, r v.plain ↔ r v) (m : List (String × Value)) :
    EverywhereEntries r (plainEntries m) ↔ EverywhereEntries r m := by
  match m with
  | [] => exact Iff.rfl
  | (_, v) :: rest => exact and_congr (everywhere_plain hr v) (everywhereEntries_plain hr rest)

end

theorem sorted_plain {v : Value} : v.plain.Sorted ↔ v.Sorted :=
  everywhere_plain (fun v => by
    cases v with
    | map m =>
      rw [plain_map]
      exact Entries.sorted_mapValues
    | _ => exact Iff.rfl) v

theorem Sorted.plain (hv : v.Sorted) : v.plain.Sorted := sorted_plain.2 hv

theorem sorted_fragment_plain (h : f.Everywhere isSorted) : f.plain.Everywhere isSorted := by
  intro y hy
  obtain ⟨x, hx, rfl⟩ := Option.map_eq_some_iff.1 hy
  exact Sorted.plain (h x hx)

theorem noNaN_plain {v : Value} : v.plain.NoNaN ↔ v.NoNaN :=
  everywhere_plain (fun v => by
    cases v with
    | float x => exact iff_of_eq (congrArg (· = true) (Number.beq_self_plain x))
    | _ => exact Iff.rfl) v

theorem step?_plain (v : Value) (s : Segment) : v.plain.step? s = (v.step? s).map plain := by
  cases v <;> cases s <;> try rfl
  case list.index l i =>
    rw [plain_list]
    exact List.getElem?_map
  case map.key m k =>
    rw [plain_map]
    exact Entries.get?_mapValues plain m k

theorem lookup_plain (v : Value) (p : Path) : v.plain.lookup p = (v.lookup p).map plain := by
  induction p generalizing v with
  | nil => rfl
  | cons s p ih =>
    rw [lookup_cons, lookup_cons, step?_plain, Option.map_bind, Option.bind_map]
    exact congrArg _ (funext ih)

theorem edit?_plain (v : Value) (s : Segment) (x : Option Value) :
    v.plain.edit? s (x.map plain) = (v.edit? s x).map plain := by
  cases v <;> cases s <;> try rfl
  case list.index l i =>
    rw [plain_list]
    cases x with
    | none =>
      simp only [edit?, Option.map_none, List.length_map]
      split
      · rw [Option.map_some, plain_list, List.eraseIdx_map]
      · rfl
    | some x =>
      simp only [edit?, Option.map_some, List.length_map]
      split
      · rw [Option.map_some, plain_list, List.map_set]
      · split
        · rw [Option.map_some, plain_list, List.map_append]
          rfl
        · rfl
  case map.key m k =>
    rw [plain_map]
    have there : Entries.contains (Entries.mapValues plain m) k = Entries.contains m k := by
      rw [Entries.contains, Entries.get?_mapValues, Option.isSome_map]
      rfl
    simp only [edit?, there, Option.isSome_map]
    split
    · rw [Option.map_some, plain_map, Entries.mapValues_change]
    · rfl

theorem plug_plain (v : Value) (p : Path) (c : Value) :
    v.plain.plug p c.plain = (v.plug p c).plain := by
  induction p generalizing v with
  | nil => rfl
  | cons s p ih =>
    rw [plug, plug, step?_plain]
    cases hd : v.step? s with
    | none => rfl
    | some d =>
      have put := edit?_plain v s (some (d.plug p c))
      rw [edit?_of_step? hd, Option.map_some, Option.map_some, ← ih,
        edit?_of_step? (by rw [step?_plain, hd, Option.map_some])] at put
      exact Option.some.inj put

/-- **Editing the plain tree** gives the plain form of the edited tree. -/
theorem enact?_plain (v : Value) (f : Fragment) :
    v.plain.enact? f.plain = (v.enact? f).map plain := by
  unfold enact? Fragment.plain
  dsimp only
  cases f.path.getLast? with
  | none => cases f.value <;> rfl
  | some s =>
    dsimp only
    rw [lookup_plain, Option.bind_map, Option.map_bind]
    refine congrArg _ (funext (fun d => ?_))
    rw [Function.comp_apply, Function.comp_apply, edit?_plain, Option.map_map, Option.map_map]
    exact congrArg (fun g => Option.map g _) (funext (fun e => plug_plain v _ e))

theorem enactAll?_plain (v : Value) (fs : List Fragment) :
    v.plain.enactAll? (fs.map Fragment.plain) = (v.enactAll? fs).map plain := by
  induction fs generalizing v with
  | nil => rfl
  | cons f fs ih =>
    rw [List.map_cons, enactAll?_cons, enactAll?_cons, enact?_plain, Option.bind_map,
      Option.map_bind]
    exact congrArg _ (funext ih)

end Value

end HaCluster
