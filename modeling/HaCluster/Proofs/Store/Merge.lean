import HaCluster.Proofs.Store.Keys
import HaCluster.Proofs.Tree.Replay

/-!
# Replacing a mapping key by key

To remove keys of a mapping and to store others there, one after the other, comes to
putting one other mapping in its place (`Replaced`, `replaced_merge`). To store what is
stored already changes nothing and queues nothing, as long as every number in it is one
(`set_same`, `merge_same`).

A mapping that is missing is made first. What is stored in its place afterwards is then
stored as if nothing had been made (`store_of_make`).
-/

namespace HaCluster

/-! ## A mapping that may be missing -/

namespace Value

variable {v : Value} {p q : Path}

/-- The tree with an empty mapping at a path, if nothing was there. -/
def withMapping (v : Value) (p : Path) : Value :=
  match v.lookup p with
  | some _ => v
  | none => (v.store p Value.empty).toOption.getD v

/-- Such a tree is the old one, or an edit of it. -/
theorem withMapping_split (v : Value) (p : Path) :
    v.withMapping p = v
      ∨ v.lookup p = none ∧ v.enact? ⟨p, some Value.empty⟩ = some (v.withMapping p) := by
  unfold withMapping
  cases v.lookup p with
  | some c => exact .inl rfl
  | none =>
    dsimp only
    cases made : v.store p Value.empty with
    | error e => exact .inl rfl
    | ok w => exact .inr ⟨rfl, store_eq_ok_iff.1 made⟩

/-- Making a mapping leaves alone whatever does not lie above it. -/
theorem lookup_withMapping (keys : p.AllKeys) (outside : ¬ p.startsWith q = true) :
    (v.withMapping p).lookup q = v.lookup q := by
  rcases v.withMapping_split p with same | ⟨absent, change⟩
  · rw [same]
  · by_cases below : q.startsWith p = true
    · -- there is nothing below a path that leads nowhere, nor in an empty mapping
      obtain ⟨rest, rfl, hrest⟩ := Path.exists_rest_of_above below outside
      obtain ⟨s, rest, rfl⟩ := List.exists_cons_of_ne_nil hrest
      rw [lookup_append, lookup_append, absent, lookup_enact?_self change]
      cases s <;> rfl
    · exact lookup_enact?_apart (.inr keys) below outside change

theorem Everywhere.withMapping {r : Value → Prop} (hr : Closed r) (empty : r Value.empty)
    (hv : Everywhere r v) (p : Path) : Everywhere r (v.withMapping p) := by
  rcases v.withMapping_split p with same | ⟨-, change⟩
  · rw [same]
    exact hv
  · refine hv.enact? hr ?_ change
    rintro y ⟨⟩
    exact everywhere_map.2 ⟨empty, fun e he => nomatch he⟩

end Value

namespace Store

open Value Mutation

variable {s t : Store} {p q : Path} {k : String} {v c x y : Value} {m : Entries Value}

theorem data_of_make {fs : List Fragment} (run : Store.setIfAbsent p Value.empty s = .ok fs t) :
    t.data = s.data.withMapping p := by
  unfold withMapping
  rcases setIfAbsent_split run with ⟨rfl, c, there⟩ | ⟨absent, change⟩
  · rw [there]
  · rw [absent, store_eq_ok_iff.2 change]
    rfl

/-- Where a value was made, storing another one comes to putting it in its place. -/
theorem store_of_make {fs : List Fragment} (run : Store.setIfAbsent p x s = .ok fs t)
    (y : Value) : s.data.store p y = .ok (t.data.plug p y) := by
  rcases setIfAbsent_split run with ⟨rfl, c, there⟩ | ⟨-, change⟩
  · exact store_eq_ok_iff.2 (enact?_set there y)
  · exact store_eq_ok_iff.2 (enact?_exchange change y)

/-! ## One key after the other -/

/-- The tree of a store is another one, in which a mapping was put at a path. -/
def Replaced (v : Value) (p : Path) (m : Entries Value) (s : Store) : Prop :=
  s.data = v.plug p (.map m)

section Replaced

variable (there : v.lookup p = some c)

include there

theorem Replaced.lookup (h : Replaced v p m s) : s.data.lookup p = some (.map m) := by
  rw [Replaced] at h
  rw [h]
  exact lookup_plug there

theorem replaced_setKey (m : Entries Value) (k : String) (x : Value) :
    Takes (Replaced v p m) (Store.set (p.key k) x) (Replaced v p (Entries.insert m k x)) := by
  intro s h
  have found := h.lookup there
  obtain ⟨fs, t, run, change⟩ := set_key_ok (k := k) (x := x) found
  rw [enact?_key_plug found (.inl rfl), h, plug_plug there] at change
  exact ⟨fs, t, run, (Option.some.inj change).symm⟩

theorem replaced_unsetKey (has : (Entries.get? m k).isSome) :
    Takes (Replaced v p m) (Store.unset (p.key k)) (Replaced v p (Entries.erase m k)) := by
  intro s h
  have found := h.lookup there
  obtain ⟨fs, t, run, change⟩ := unset_key_ok found has
  rw [enact?_key_plug found (.inr has), h, plug_plug there] at change
  exact ⟨fs, t, run, (Option.some.inj change).symm⟩

/-- **Entries are merged into a mapping** by storing them there one after the other. -/
theorem replaced_merge (m es : Entries Value) :
    Takes (Replaced v p m) (Store.merge p es) (Replaced v p (Entries.insertAll m es)) := by
  have sets (m : Entries Value) : Takes (Replaced v p m)
      (es.mapM fun e => Store.set (p.key e.1) e.2) (Replaced v p (Entries.insertAll m es)) := by
    induction es generalizing m with
    | nil => exact takes_pure _ fun _ h => h
    | cons e es ih =>
      rw [List.mapM_cons]
      exact takes_bind (replaced_setKey there m e.1 e.2) fun _ =>
        takes_bind (ih _) fun _ => takes_pure _ fun _ h => h
  refine takes_bind (Q := Replaced v p m) (fun s h => ?_) fun _ =>
    takes_bind (sets m) fun _ => takes_pure _ fun _ h => h
  exact ⟨[], s, setIfAbsent_there (h.lookup there), h⟩

end Replaced

/-! ## Storing what is there -/

/-- To store what is stored already changes nothing. -/
theorem set_same (sorted : s.data.Sorted) (there : s.data.lookup p = some x)
    (number : x.NoNaN) : Store.set p x s = .ok [] s := by
  have stored : s.data.store p x = .ok s.data := by
    rw [store_eq_ok_iff, enact?_set there, plug_lookup sorted there]
  have none_changed : diff p (s.data.lookup p) (some x) = [] := by
    rw [there]
    exact changes_of_plain_eq (sorted.lookup there) number rfl
  unfold Store.set
  rw [stored, none_changed]
  unfold Store.record
  cases s with
  | mk data journal queue => cases journal <;> simp

/-- To merge entries that a mapping has already changes nothing. -/
theorem merge_same (es : Entries Value) (sorted : s.data.Sorted)
    (there : s.data.lookup p = some (.map m)) (has : ∀ e ∈ es, Entries.get? m e.1 = some e.2)
    (numbers : ∀ e ∈ es, e.2.NoNaN) : ∃ fs, Store.merge p es s = .ok fs s := by
  have sets : ∃ fss, (es.mapM fun e => Store.set (p.key e.1) e.2) s = .ok fss s := by
    induction es with
    | nil => exact ⟨[], rfl⟩
    | cons e es ih =>
      obtain ⟨fss, run⟩ := ih (fun e he => has e (List.mem_cons_of_mem _ he))
        fun e he => numbers e (List.mem_cons_of_mem _ he)
      have found : s.data.lookup (p.key e.1) = some e.2 :=
        (lookup_key there e.1).trans (has e List.mem_cons_self)
      rw [List.mapM_cons]
      exact ⟨_, (bind_ok (set_same sorted found (numbers e List.mem_cons_self))).trans
        (bind_ok run)⟩
  obtain ⟨fss, run⟩ := sets
  exact ⟨_, (bind_ok (setIfAbsent_there there)).trans (bind_ok run)⟩

end Store

end HaCluster
