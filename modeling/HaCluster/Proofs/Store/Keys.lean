import HaCluster.Proofs.Store.Edits
import HaCluster.Proofs.Tree.Follow

/-!
# Mutations that cannot fail

A mutation fails only where the tree does not have the shape that it takes for
granted. `Takes` says that from all stores with one property a mutation
succeeds and leaves a store with another one, and it goes through sequences and
loops. The single steps change one key of a mapping that is there, which always
succeeds.
-/

namespace HaCluster

open Value

namespace Mutation

variable {α β : Type} {P Q R : Store → Prop}

/-- From every store with `P` a mutation succeeds, and leaves one with `Q`. -/
def Takes (P : Store → Prop) (m : Mutation α) (Q : Store → Prop) : Prop :=
  ∀ s, P s → ∃ a s', m s = .ok a s' ∧ Q s'

theorem takes_pure (a : α) (h : ∀ s, P s → Q s) : Takes P (pure a) Q :=
  fun s hs => ⟨a, s, rfl, h s hs⟩

theorem takes_bind {m : Mutation α} {f : α → Mutation β} (hm : Takes P m Q)
    (hf : ∀ a, Takes Q (f a) R) : Takes P (m >>= f) R := by
  intro s hs
  obtain ⟨a, t, ha, ht⟩ := hm s hs
  obtain ⟨b, u, hb, hu⟩ := hf a t ht
  exact ⟨b, u, (bind_ok ha).trans hb, hu⟩

/-- A step that reads the store, and then acts on what it has read. -/
theorem takes_get_bind {f : Store → Mutation β} (hf : ∀ s, Takes (fun t => t = s ∧ P t) (f s) R) :
    Takes P (get >>= f) R :=
  fun s hs => hf s s ⟨rfl, hs⟩

theorem takes_mapM {f : α → Mutation β} {l : List α} (hf : ∀ a ∈ l, Takes P (f a) P) :
    Takes P (l.mapM f) P := by
  induction l with
  | nil => exact takes_pure _ (fun _ hs => hs)
  | cons a l ih =>
    rw [List.mapM_cons]
    refine takes_bind (hf a List.mem_cons_self) (fun b => ?_)
    refine takes_bind (ih (fun c hc => hf c (List.mem_cons_of_mem a hc))) (fun bs => ?_)
    exact takes_pure _ (fun _ hs => hs)

end Mutation

namespace Store

open Mutation

variable {s t : Store} {p : Path} {k : String} {x : Value} {m : Entries Value}

/-! ## Changing one key -/

theorem set_key_ok (h : s.data.lookup p = some (.map m)) :
    ∃ fs s', Store.set (p.key k) x s = .ok fs s'
      ∧ s.data.enact? ⟨p.key k, some x⟩ = some s'.data := by
  obtain ⟨data, change⟩ := enact?_key_ok (k := k) (x := some x) h (.inl rfl)
  let fs := diff (p.key k) (s.data.lookup (p.key k)) (some x)
  refine ⟨fs, { s with data }.record fs, ?_, ?_⟩
  · unfold Store.set
    rw [store_eq_ok_iff.2 change]
  · rw [record_data]
    exact change

/-- What is stored is what the tree is edited with, and what is recorded. -/
theorem set_eq_ok {fs : List Fragment} (run : Store.set p x s = .ok fs t) :
    s.data.enact? ⟨p, some x⟩ = some t.data ∧ fs = diff p (s.data.lookup p) (some x)
      ∧ t = { s with data := t.data }.record fs := by
  unfold Store.set at run
  cases stored : s.data.store p x with
  | error e =>
    rw [stored] at run
    cases run
  | ok data =>
    rw [stored] at run
    cases run
    rw [record_data]
    exact ⟨store_eq_ok_iff.1 stored, rfl, rfl⟩

/-- What was stored is found where it was stored. -/
theorem lookup_of_set {fs : List Fragment} (run : Store.set p x s = .ok fs t) :
    t.data.lookup p = some x :=
  lookup_enact?_self (set_eq_ok run).1

theorem unset_key_ok (h : s.data.lookup p = some (.map m)) (there : (Entries.get? m k).isSome) :
    ∃ fs s', Store.unset (p.key k) s = .ok fs s'
      ∧ s.data.enact? ⟨p.key k, none⟩ = some s'.data := by
  obtain ⟨data, change⟩ := enact?_key_ok (k := k) (x := none) h (.inr there)
  obtain ⟨old, removed⟩ := remove_of_enact?_none change
  let fs := diff (p.key k) (some old) none
  refine ⟨fs, { s with data }.record fs, ?_, ?_⟩
  · unfold Store.unset
    rw [removed]
  · rw [record_data]
    exact change

theorem unsetIfPresent_key_ok (h : s.data.lookup p = some (.map m)) :
    ∃ fs s', Store.unsetIfPresent (p.key k) s = .ok fs s'
      ∧ (s'.data = s.data ∨ s.data.enact? ⟨p.key k, none⟩ = some s'.data) := by
  unfold Store.unsetIfPresent
  cases there : Entries.get? m k with
  | none =>
    have absent : Store.unset (p.key k) s = .error (.notFound (p.key k)) s := by
      unfold Store.unset
      rw [remove_absent h there]
    rw [absent]
    exact ⟨[], s, rfl, .inl rfl⟩
  | some old =>
    obtain ⟨fs, s', gone, change⟩ := unset_key_ok h (by rw [there]; rfl)
    rw [gone]
    exact ⟨fs, s', rfl, .inr change⟩

theorem setIfAbsent_key_ok (h : s.data.lookup p = some (.map m)) :
    ∃ fs s', Store.setIfAbsent (p.key k) x s = .ok fs s'
      ∧ (s'.data = s.data ∧ (s.data.lookup (p.key k)).isSome
        ∨ s.data.enact? ⟨p.key k, some x⟩ = some s'.data) := by
  have either : Store.setIfAbsent (p.key k) x s
      = if s.has (p.key k) then .ok [] s else Store.set (p.key k) x s := rfl
  rw [either]
  cases there : s.has (p.key k) with
  | true => exact ⟨[], s, rfl, .inl ⟨rfl, there⟩⟩
  | false =>
    obtain ⟨fs, s', stored, change⟩ := set_key_ok h
    exact ⟨fs, s', stored, .inr change⟩

/-- Where something is stored already, nothing is stored. -/
theorem setIfAbsent_there {v : Value} (h : s.data.lookup p = some v) :
    Store.setIfAbsent p x s = .ok [] s := by
  unfold Store.setIfAbsent
  rw [Store.has, h]
  rfl

/-- A value is stored where nothing was, and only there. -/
theorem setIfAbsent_eq_ok {fs : List Fragment} (run : Store.setIfAbsent p x s = .ok fs t) :
    (∃ c, s.data.lookup p = some c) ∧ fs = [] ∧ t = s
      ∨ s.data.lookup p = none ∧ Store.set p x s = .ok fs t := by
  cases there : s.data.lookup p with
  | some c =>
    rw [setIfAbsent_there there] at run
    cases run
    exact .inl ⟨⟨c, rfl⟩, rfl, rfl⟩
  | none =>
    unfold Store.setIfAbsent Store.has at run
    rw [there] at run
    exact .inr ⟨rfl, run⟩

/-- The tree is left alone, or edited where nothing was. -/
theorem setIfAbsent_split {fs : List Fragment} (run : Store.setIfAbsent p x s = .ok fs t) :
    t = s ∧ (∃ c, s.data.lookup p = some c)
      ∨ s.data.lookup p = none ∧ s.data.enact? ⟨p, some x⟩ = some t.data := by
  rcases setIfAbsent_eq_ok run with ⟨there, -, same⟩ | ⟨absent, stored⟩
  · exact .inl ⟨same, there⟩
  · exact .inr ⟨absent, (set_eq_ok stored).1⟩

end Store

end HaCluster
