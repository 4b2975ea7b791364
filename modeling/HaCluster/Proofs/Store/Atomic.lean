import HaCluster.Proofs.Store.Keys

/-!
# Mutations that fail as a whole

What a failing mutation has already changed stays changed. A single step that
fails has changed nothing, but `merge` and the mutations of the blob are
sequences: they first make the mappings that are missing on the way, and then
write. They are atomic all the same. Where a step of such a sequence has made
a mapping, that mapping is new and empty, and nothing that comes after it can
fail; where it has made none, nothing is written yet.

`Fills` states this for the part of a sequence that comes after such a step,
so that sequences are taken apart from their end (`fills_make`, `atomic_make`).
Nothing is assumed of the tree.
-/

namespace HaCluster

open Value

namespace Mutation

variable {α β : Type} {P Q : Store → Prop} {s : Store} {p : Path} {k : String} {x : Value}

/-- Where a mutation fails, it leaves the store that it started from. -/
def Atomic (m : Mutation α) (s : Store) : Prop :=
  ∀ e s', m s = .error e s' → s' = s

theorem atomic_pure (a : α) : Atomic (pure a) s :=
  fun _ _ failed => nomatch failed

theorem Takes.atomic {m : Mutation α} (takes : Takes P m Q) (h : P s) : Atomic m s := by
  intro e s' failed
  obtain ⟨a, t, done, -⟩ := takes s h
  rw [done] at failed
  cases failed

/-- **Two steps are atomic** if the first one is, and leaves either the store
that it started from, from which the second one is atomic, or a store from
which the second one cannot fail. -/
theorem atomic_bind {m : Mutation α} {f : α → Mutation β} (first : Atomic m s)
    (left : ∀ a t, m s = .ok a t → t = s ∨ P t) (same : ∀ a, Atomic (f a) s)
    (on : ∀ a, Takes P (f a) Q) : Atomic (m >>= f) s := by
  intro e s' failed
  rcases bind_eq_error failed with early | ⟨a, t, result, late⟩
  · exact first e s' early
  · rcases left a t result with rfl | h
    · exact same a e s' late
    · obtain ⟨b, u, done, -⟩ := on a t h
      cases done.symm.trans late

/-- What a step answers may be changed. -/
theorem Atomic.answer {m : Mutation α} (h : Atomic m s) (g : α → β) :
    Atomic (m >>= fun a => pure (g a)) s :=
  atomic_bind (P := fun _ => True) (Q := fun _ => True) h (fun _ _ _ => .inr trivial)
    (fun a => atomic_pure (g a)) fun a => takes_pure (g a) fun _ h => h

/-! ## Single steps -/

theorem atomic_set : Atomic (Store.set p x) s := by
  intro e s' failed
  unfold Store.set at failed
  cases stored : s.data.store p x <;> rw [stored] at failed <;> cases failed
  rfl

/-- A value is stored or nothing is changed. -/
theorem after_set (p : Path) (x : Value) (s : Store) : (Store.set p x).after s = s
    ∨ ((Store.set p x).after s).data.lookup p = some x := by
  unfold after
  cases stored : Store.set p x s with
  | error e t => exact .inl (atomic_set e t stored)
  | ok fs t => exact .inr (Store.lookup_of_set stored)

theorem atomic_setIfAbsent : Atomic (Store.setIfAbsent p x) s := by
  intro e s' failed
  unfold Store.setIfAbsent at failed
  split at failed
  · cases failed
  · exact atomic_set e s' failed

theorem atomic_unset : Atomic (Store.unset p) s := by
  intro e s' failed
  unfold Store.unset at failed
  cases removed : s.data.remove p <;> rw [removed] at failed <;> cases failed
  rfl

theorem atomic_unsetIfPresent : Atomic (Store.unsetIfPresent p) s := by
  intro e s' failed
  unfold Store.unsetIfPresent at failed
  split at failed
  · cases failed
  · exact atomic_unset e s' failed

theorem atomic_increment : Atomic (Store.increment p) s := by
  intro e s' failed
  unfold Store.increment at failed
  cases there : s.data.lookup p with
  | none =>
    rw [there] at failed
    exact atomic_set.answer (fun _ => 1) e s' failed
  | some v =>
    rw [there] at failed
    dsimp only at failed
    cases number : v.asInt? with
    | none =>
      rw [number] at failed
      cases failed
      rfl
    | some i =>
      rw [number] at failed
      exact atomic_set.answer (fun _ => i + 1) e s' failed

/-! ## Making what is missing -/

/-- There is an empty mapping at a path. -/
def Bare (p : Path) (s : Store) : Prop := s.data.lookup p = some Value.empty

/-- There is a mapping at a path. -/
def HasMap (p : Path) (s : Store) : Prop := ∃ m, s.data.lookup p = some (.map m)

theorem Bare.hasMap (h : Bare p s) : HasMap p s := ⟨[], h⟩

/-- From a store a mutation is atomic, and it cannot fail from any store that
has an empty mapping at a path. -/
structure Fills (p : Path) (s : Store) (m : Mutation α) : Prop where
  atomic : Atomic m s
  takes : Takes (Bare p) m (fun _ => True)

/-- A mapping that is made where there was nothing is empty. -/
theorem left_of_make {fs : List Fragment} {t : Store}
    (run : Store.setIfAbsent p Value.empty s = .ok fs t) : t = s ∨ Bare p t := by
  unfold Store.setIfAbsent at run
  split at run
  · cases run
    exact .inl rfl
  · exact .inr (Store.lookup_of_set run)

theorem atomic_make {f : List Fragment → Mutation β} (rest : ∀ fs, Fills p s (f fs)) :
    Atomic (Store.setIfAbsent p Value.empty >>= f) s :=
  atomic_bind atomic_setIfAbsent (fun _ _ => left_of_make) (fun fs => (rest fs).atomic)
    fun fs => (rest fs).takes

/-- In an empty mapping another one is made. -/
theorem takes_make : Takes (Bare p) (Store.setIfAbsent (p.key k) Value.empty) (Bare (p.key k)) := by
  intro s h
  have absent : s.data.lookup (p.key k) = none := lookup_key h k
  obtain ⟨fs, t, made, change⟩ := Store.setIfAbsent_key_ok (k := k) (x := Value.empty) h
  refine ⟨fs, t, made, ?_⟩
  rcases change with ⟨-, there⟩ | change
  · rw [absent] at there
    cases there
  · exact lookup_enact?_self change

theorem fills_make {f : List Fragment → Mutation β} (rest : ∀ fs, Fills (p.key k) s (f fs)) :
    Fills p s (Store.setIfAbsent (p.key k) Value.empty >>= f) where
  atomic := atomic_make rest
  takes := takes_bind takes_make fun fs => (rest fs).takes

/-- In a mapping every key can be set, and it stays a mapping. -/
theorem takes_setKey : Takes (HasMap p) (Store.set (p.key k) x) (HasMap p) := by
  rintro s ⟨m, h⟩
  obtain ⟨fs, t, stored, change⟩ := Store.set_key_ok (k := k) (x := x) h
  rw [Path.key, Path.child, enact?_append (List.cons_ne_nil _ _), h, Option.bind_some] at change
  obtain ⟨d, he, same⟩ := Option.map_eq_some_iff.1 change
  obtain ⟨-, y, -, rfl⟩ := enact?_key.1 he
  exact ⟨fs, t, stored, _, by rw [← same]; exact lookup_plug h⟩

/-- Only in a mapping a key can be set. -/
theorem hasMap_of_set {fs : List Fragment} {t : Store}
    (run : Store.set (p.key k) x s = .ok fs t) : HasMap p t :=
  exists_map_of_lookup_key (Store.lookup_of_set run)

theorem takes_setKeys (es : Entries Value) :
    Takes (HasMap p) (es.mapM fun e => Store.set (p.key e.1) e.2) (HasMap p) :=
  takes_mapM fun _ _ => takes_setKey

/-- Setting several keys of one node is atomic: after the first one the node
is known to be a mapping. -/
theorem atomic_setKeys (es : Entries Value) :
    Atomic (es.mapM fun e => Store.set (p.key e.1) e.2) s := by
  induction es with
  | nil => exact atomic_pure []
  | cons e es ih =>
    rw [List.mapM_cons]
    refine atomic_bind (P := HasMap p) (Q := HasMap p) atomic_set
      (fun _ _ run => .inr (hasMap_of_set run)) (fun fs => ?_) fun fs => ?_
    · exact ih.answer _
    · exact takes_bind (takes_setKeys es) fun _ => takes_pure _ fun _ h => h

end Mutation

namespace Store

open Mutation

variable {s : Store} {p : Path} {es : Entries Value}

theorem takes_merge : Takes (HasMap p) (Store.merge p es) (HasMap p) := by
  refine takes_bind (Q := HasMap p) ?_ fun _ =>
    takes_bind (takes_setKeys es) fun _ => takes_pure _ fun _ h => h
  rintro t ⟨m, h⟩
  exact ⟨[], t, setIfAbsent_there h, m, h⟩

theorem atomic_merge : Atomic (Store.merge p es) s := by
  refine atomic_make fun made => ⟨(atomic_setKeys es).answer _, ?_⟩
  · intro t h
    exact takes_bind (takes_setKeys es) (fun _ => takes_pure _ fun _ _ => trivial) t h.hasMap

/-! ## Edits -/

/-- A local edit as a step that may fail. What it answers is left out. -/
def Edit.attempt : Edit → Mutation Unit
  | .set p v => do let _ ← Store.set p v
  | .setIfAbsent p v => do let _ ← Store.setIfAbsent p v
  | .merge p es => do let _ ← Store.merge p es
  | .unset p => do let _ ← Store.unset p
  | .unsetIfPresent p => do let _ ← Store.unsetIfPresent p
  | .increment p => do let _ ← Store.increment p

/-- What an attempt leaves is what the edit leaves. -/
theorem Edit.after_attempt (e : Edit) (s : Store) : e.attempt.after s = e.perform s := by
  have same {α : Type} (m : Mutation α) : (do let _ ← m : Mutation Unit).after s = m.after s := by
    unfold after
    rw [show (m >>= fun _ => pure ()) s = EStateM.bind m (fun _ => pure ()) s from rfl,
      EStateM.bind]
    cases m s <;> rfl
  cases e <;> exact same _

/-- **An edit that fails changes nothing.** -/
theorem Edit.atomic_attempt (e : Edit) (s : Store) : Atomic e.attempt s := by
  cases e with
  | set p v => exact atomic_set.answer _
  | setIfAbsent p v => exact atomic_setIfAbsent.answer _
  | merge p es => exact atomic_merge.answer _
  | unset p => exact atomic_unset.answer _
  | unsetIfPresent p => exact atomic_unsetIfPresent.answer _
  | increment p => exact atomic_increment.answer _

end Store

end HaCluster
