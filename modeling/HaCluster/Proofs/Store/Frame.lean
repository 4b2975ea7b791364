import HaCluster.Proofs.Replication.Copy
import HaCluster.Proofs.Tree.Follow

/-!
# What edits elsewhere leave alone

A mutation edits a tree at some paths, and at some others it makes an empty
mapping if nothing is there. A relation between trees that is kept by such edits
(`Frame`) is kept by the mutation, whatever it stores and whether it succeeds or
not, and the journal stays the same (`Framed`).

Two such relations are enough to say what edits beside a node leave of it: they
leave it alone (`frame_lookup`), and a mapping that is edited key by key stays a
sorted mapping (`frame_mapping`).
-/

namespace HaCluster

open Value

/-- Paths that part at a key. -/
theorem Path.apart_of_ne {p q r : Path} {k l : String} (ne : k ≠ l) :
    Path.Apart (p ++ .key k :: q) (p ++ .key l :: r) := by
  have parted {a b : String} {s t : Path} (hab : a ≠ b) :
      ¬ Path.startsWith (p ++ .key a :: s) (p ++ .key b :: t) = true := by
    rw [Path.startsWith, List.isPrefixOf_iff_prefix, List.prefix_append_right_inj,
      List.cons_prefix_cons]
    exact fun same => hab (Segment.key.inj same.1).symm
  exact ⟨parted ne, parted ne.symm⟩

theorem Path.not_startsWith_of_length_lt {p q : Path} (h : q.length < p.length) :
    ¬ q.startsWith p = true := by
  rw [Path.startsWith, List.isPrefixOf_iff_prefix]
  exact fun above => absurd above.length_le (Nat.not_le.2 h)

/-- A relation between trees that is kept by edits at some paths, and by making
an empty mapping at others. -/
structure Frame (edits makes : Path → Prop) (T : Value → Value → Prop) : Prop where
  refl (v : Value) : T v v
  trans {u v w : Value} : T u v → T v w → T u w
  edit {v w : Value} {q : Path} {x : Option Value} : edits q → v.enact? ⟨q, x⟩ = some w → T v w
  make {v w : Value} {q : Path} : makes q → v.lookup q = none →
    v.enact? ⟨q, some Value.empty⟩ = some w → T v w

namespace Frame

variable {edits makes edits' makes' : Path → Prop} {T : Value → Value → Prop} {q r : Path}

theorem mono (h : Frame edits makes T) (he : ∀ q, edits' q → edits q)
    (hm : ∀ q, makes' q → makes q) : Frame edits' makes' T :=
  ⟨h.refl, h.trans, fun hq => h.edit (he _ hq), fun hq => h.make (hm _ hq)⟩

/-- Two relations that are kept are kept together. -/
theorem and {U : Value → Value → Prop} (h : Frame edits makes T) (h' : Frame edits makes U) :
    Frame edits makes (fun v w => T v w ∧ U v w) where
  refl v := ⟨h.refl v, h'.refl v⟩
  trans a b := ⟨h.trans a.1 b.1, h'.trans a.2 b.2⟩
  edit hq change := ⟨h.edit hq change, h'.edit hq change⟩
  make hq absent change := ⟨h.make hq absent change, h'.make hq absent change⟩

/-- A property that such a relation carries over is kept. -/
theorem keeps {Q : Value → Prop} (h : Frame edits makes T)
    (carries : ∀ {v w}, T v w → Q v → Q w) : Frame edits makes (fun v w => Q v → Q w) where
  refl _ := id
  trans first second hv := second (first hv)
  edit hq change := carries (h.edit hq change)
  make hq absent change := carries (h.make hq absent change)

end Frame

/-- **Edits that lie neither above nor below a node** leave it alone, and so do
mappings that are made outside it where nothing was. -/
theorem frame_lookup {p : Path} (keys : p.AllKeys) :
    Frame (Path.Apart p) (fun q => ¬ q.startsWith p = true)
      (fun v w => w.lookup p = v.lookup p) where
  refl _ := rfl
  trans h h' := h'.trans h
  edit aside change := lookup_enact?_aside keys aside.1 aside.2 change
  make {v w q} outside absent change := by
    by_cases above : p.startsWith q = true
    · -- there is nothing at the node before, and nothing in an empty mapping
      obtain ⟨rest, rfl, hrest⟩ := Path.exists_rest_of_above above outside
      obtain ⟨s, rest, rfl⟩ := List.exists_cons_of_ne_nil hrest
      rw [lookup_enact?_above keys hrest change, lookup_append, absent]
      obtain ⟨k, rfl⟩ := keys s (by simp)
      rfl
    · exact lookup_enact?_aside keys above outside change

/-- There is a mapping at a path, and its keys are sorted. -/
def HasMapping (v : Value) (p : Path) : Prop :=
  ∃ m, v.lookup p = some (.map m) ∧ Entries.Sorted m

/-- **Edits below the keys of a mapping**, or beside it, leave a mapping. -/
theorem frame_mapping {p : Path} (keys : p.AllKeys) (hp : p ≠ []) :
    Frame (fun q => (∃ k r, q = p ++ .key k :: r) ∨ p.Apart q)
      (fun q => p.startsWith q = true ∨ (∃ k r, q = p ++ .key k :: r) ∨ p.Apart q)
      (fun v w => HasMapping v p → HasMapping w p) := by
  have edit {v w : Value} {q : Path} {x : Option Value}
      (hq : (∃ k r, q = p ++ .key k :: r) ∨ p.Apart q)
      (change : v.enact? ⟨q, x⟩ = some w) : HasMapping v p → HasMapping w p := by
    rintro ⟨m, hm, sorted⟩
    rcases hq with ⟨k, r, rfl⟩ | ⟨above, below⟩
    · obtain ⟨y, -, hm'⟩ := lookup_enact?_map keys hp hm change
      exact ⟨_, hm', sorted.change k y⟩
    · exact ⟨m, (lookup_enact?_aside keys above below change).trans hm, sorted⟩
  refine ⟨fun _ h => h, fun h h' there => h' (h there), edit, ?_⟩
  rintro v w q made absent change ⟨m, hm, sorted⟩
  rcases made with above | made
  · obtain ⟨rest, rfl⟩ := Path.startsWith_iff.1 above
    rw [lookup_append, absent] at hm
    cases hm
  · exact edit made change ⟨m, hm, sorted⟩

namespace Store

variable {edits makes : Path → Prop} {T : Value → Value → Prop} {q : Path}

open Mutation

/-- The trees of two stores are related, and the journals are the same. -/
structure Framed (T : Value → Value → Prop) (s t : Store) : Prop where
  journal : t.journal = s.journal
  data : T s.data t.data

namespace Framed

theorem refl (h : Frame edits makes T) (s : Store) : Framed T s s := ⟨rfl, h.refl s.data⟩

theorem trans (h : Frame edits makes T) {s t u : Store} (first : Framed T s t)
    (second : Framed T t u) : Framed T s u :=
  ⟨second.journal.trans first.journal, h.trans first.data second.data⟩

/-- A change that is recorded. -/
theorem record {s : Store} {data : Value} (h : T s.data data) (fs : List Fragment) :
    Framed T s ({ s with data }.record fs) :=
  ⟨record_journal _ fs, by rw [record_data]; exact h⟩

end Framed

end Store

namespace Frame

open Mutation Store

variable {edits makes : Path → Prop} {T : Value → Value → Prop} {q : Path} {x : Value}
  {α β : Type} (h : Frame edits makes T)

include h

theorem within_pure (a : α) : Within (Framed T) (pure a : Mutation α) :=
  Mutation.within_pure (Framed.refl h) a

theorem within_bind {m : Mutation α} {f : α → Mutation β} (hm : Within (Framed T) m)
    (hf : ∀ a, Within (Framed T) (f a)) : Within (Framed T) (m >>= f) :=
  Mutation.within_bind (R := Framed T) (Framed.trans h) hm hf

theorem within_set (hq : edits q) : Within (Framed T) (Store.set q x) := by
  intro s
  unfold after Store.set
  cases hs : s.data.store q x with
  | error e => exact .refl h s
  | ok data => exact .record (h.edit hq (store_eq_ok_iff.1 hs)) _

/-- A value is stored unless a condition holds. -/
theorem within_setUnless {c : Store → Prop} [DecidablePred c] {v : Store → Value} (a b : α)
    (hq : edits q) :
    Within (Framed T) (fun s => if c s then .ok a s
      else (do let _ ← Store.set q (v s); pure b : Mutation α) s : Mutation α) := by
  intro s
  rw [after_setUnless]
  split
  · exact .refl h s
  · exact h.within_set hq s

/-- An empty mapping is made where nothing is. -/
theorem within_make (hq : makes q) :
    Within (Framed T) (Store.setIfAbsent q Value.empty) := by
  intro s
  have either : Store.setIfAbsent q Value.empty s
      = if s.has q then .ok [] s else Store.set q Value.empty s := rfl
  unfold after
  rw [either]
  cases absent : s.has q with
  | true => exact .refl h s
  | false =>
    rw [if_neg Bool.false_ne_true]
    unfold Store.set
    cases hs : s.data.store q Value.empty with
    | error e => exact .refl h s
    | ok data =>
      refine .record (h.make hq ?_ (store_eq_ok_iff.1 hs)) _
      rwa [has, Option.isSome_eq_false_iff, Option.isNone_iff_eq_none] at absent

theorem within_unset (hq : edits q) : Within (Framed T) (Store.unset q) := by
  intro s
  unfold after Store.unset
  cases hs : s.data.remove q with
  | error e => exact .refl h s
  | ok r => exact .record (h.edit hq (remove_eq_ok_iff.1 hs).2) _

theorem within_unsetIfPresent (hq : edits q) : Within (Framed T) (Store.unsetIfPresent q) := by
  intro s
  rw [after_unsetIfPresent]
  exact h.within_unset hq s

theorem within_merge {entries : Entries Value} (hq : makes q)
    (he : ∀ e ∈ entries, edits (q.key e.1)) : Within (Framed T) (Store.merge q entries) :=
  h.within_bind (h.within_make hq) fun _ =>
    h.within_bind (within_mapM (R := Framed T) (Framed.refl h) (Framed.trans h)
      fun e hm => h.within_set (he e hm)) fun _ => h.within_pure _

/-- A patch, whether it can be replayed or not. -/
theorem patch (base : Path) (fs : List Fragment) (hq : ∀ r, edits (base ++ r)) (s : Store) :
    Framed T s (s.patch base fs).2 := by
  rw [patch_eq]
  refine ⟨rfl, ?_⟩
  dsimp only
  generalize ([] : List (Fragment × DataError)) = failures
  generalize s.data = data
  induction fs generalizing failures data with
  | nil => exact h.refl data
  | cons f fs ih =>
    rw [List.foldl_cons, tryFragment]
    dsimp only
    cases replayed : data.apply (f.rebase base) with
    | error e => exact ih _ _
    | ok w =>
      refine h.trans ?_ (ih _ _)
      rcases enact?_of_apply replayed with rfl | change
      · exact h.refl w
      · exact h.edit (hq f.path) change

end Frame

end HaCluster
