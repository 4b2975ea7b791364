import HaCluster.Proofs.Store.Journal
import HaCluster.Proofs.Tree.Diff

/-!
# Sequences of local edits

Whatever a local edit does, and whether it succeeds or not, it does it by
storing single values and removing single nodes. A relation between stores
that these two keep, that holds of a store and itself and that can be chained
is therefore kept by every edit and every sequence of edits (`Kept.run`).

Of the relations kept in this way one is the meaning of the queue
(`Recorded`): what was appended to it is what the journal makes of changes
that lead from the old tree to the new one.
-/

namespace HaCluster

open Value

/-! ## One step after the other -/

section

variable {ε σ α β : Type} {m : EStateM ε σ α} {f : α → EStateM ε σ β} {s s' : σ}

/-- What follows a step that succeeds starts where the step has ended. -/
theorem bind_ok {a : α} (h : m s = .ok a s') : (m >>= f) s = f a s' := by
  show EStateM.bind m f s = _
  unfold EStateM.bind
  rw [h]

/-- Nothing follows a step that fails. -/
theorem bind_error {e : ε} (h : m s = .error e s') : (m >>= f) s = .error e s' := by
  show EStateM.bind m f s = _
  unfold EStateM.bind
  rw [h]

/-- Two steps succeed only one after the other. -/
theorem bind_eq_ok {b : β} (h : (m >>= f) s = .ok b s') :
    ∃ a t, m s = .ok a t ∧ f a t = .ok b s' := by
  cases first : m s with
  | error e t =>
    change EStateM.bind m f s = _ at h
    unfold EStateM.bind at h
    rw [first] at h
    cases h
  | ok a t => exact ⟨a, t, rfl, (bind_ok first).symm.trans h⟩

/-- One of two steps fails if both together do. -/
theorem bind_eq_error {e : ε} (h : (m >>= f) s = .error e s') :
    m s = .error e s' ∨ ∃ a t, m s = .ok a t ∧ f a t = .error e s' := by
  cases first : m s with
  | error e' t =>
    change EStateM.bind m f s = _ at h
    unfold EStateM.bind at h
    rw [first] at h
    cases h
    exact .inl rfl
  | ok a t => exact .inr ⟨a, t, rfl, (bind_ok first).symm.trans h⟩

theorem get_bind (f : σ → EStateM ε σ β) (s : σ) : (get >>= f) s = f s s := rfl

end

namespace Mutation

variable {α β : Type}

/-- The store that a step leaves, whether it failed or not. -/
def after (m : Mutation α) (s : Store) : Store :=
  match m s with
  | .ok _ s' => s'
  | .error _ s' => s'

theorem after_of_ok {m : Mutation α} {s t : Store} {a : α} (run : m s = .ok a t) :
    m.after s = t := by
  unfold after
  rw [run]

theorem after_bind (m : Mutation α) (f : α → Mutation β) (s : Store) :
    (m >>= f).after s = match m s with
      | .ok a t => (f a).after t
      | .error _ t => t := by
  show (match EStateM.bind m f s with | .ok _ s' => s' | .error _ s' => s') = _
  unfold EStateM.bind
  cases m s <;> rfl

/-- The stores before and after a step are related, from wherever it starts. -/
def Within (R : Store → Store → Prop) (m : Mutation α) : Prop :=
  ∀ s, R s (m.after s)

variable {R : Store → Store → Prop}

/-- What is left where a value is stored unless a condition holds. -/
theorem after_setUnless {c : Store → Prop} [DecidablePred c] {v : Store → Value} {q : Path}
    (a b : α) (s : Store) :
    after (fun s => if c s then .ok a s
      else (do let _ ← Store.set q (v s); pure b : Mutation α) s : Mutation α) s
      = if c s then s else (Store.set q (v s)).after s := by
  have stored : (do let _ ← Store.set q (v s); pure b : Mutation α).after s
      = (Store.set q (v s)).after s := by
    rw [after_bind]
    unfold after
    cases Store.set q (v s) s <;> rfl
  unfold after at stored ⊢
  dsimp only
  by_cases hc : c s
  · rw [if_pos hc, if_pos hc]
  · rw [if_neg hc, if_neg hc]
    exact stored

theorem within_pure (refl : ∀ s, R s s) (a : α) : Within R (pure a : Mutation α) := refl

theorem within_bind (trans : ∀ {s t u}, R s t → R t u → R s u) {m : Mutation α}
    {f : α → Mutation β} (hm : Within R m) (hf : ∀ a, Within R (f a)) :
    Within R (m >>= f) := by
  intro s
  have first := hm s
  rw [after_bind]
  unfold after at first
  cases h : m s with
  | error e t =>
    rw [h] at first
    exact first
  | ok a t =>
    rw [h] at first
    exact trans first (hf a t)

theorem within_mapM (refl : ∀ s, R s s) (trans : ∀ {s t u}, R s t → R t u → R s u)
    {f : α → Mutation β} {l : List α} (hf : ∀ a ∈ l, Within R (f a)) :
    Within R (l.mapM f) := by
  induction l with
  | nil => exact within_pure refl []
  | cons a l ih =>
    rw [List.mapM_cons]
    refine within_bind (R := R) trans (hf a List.mem_cons_self) (fun b => ?_)
    refine within_bind (R := R) trans (ih (fun c hc => hf c (List.mem_cons_of_mem a hc)))
      (fun bs => ?_)
    exact within_pure refl _

end Mutation

namespace Store

open Mutation

/-! ## Local edits -/

/-- A local edit of the tree. -/
inductive Edit where
  | set (path : Path) (v : Value)
  | setIfAbsent (path : Path) (v : Value)
  | merge (path : Path) (entries : Entries Value)
  | unset (path : Path)
  | unsetIfPresent (path : Path)
  | increment (path : Path)

/-- The store after an edit, whether it succeeded or not. -/
def Edit.perform : Edit → Store → Store
  | .set p v => (Store.set p v).after
  | .setIfAbsent p v => (Store.setIfAbsent p v).after
  | .merge p es => (Store.merge p es).after
  | .unset p => (Store.unset p).after
  | .unsetIfPresent p => (Store.unsetIfPresent p).after
  | .increment p => (Store.increment p).after

/-- The store after a sequence of edits. -/
def edited (s : Store) (es : List Edit) : Store :=
  es.foldl (fun s e => e.perform s) s

/-- A property holds of every value that an edit is given. -/
def Edit.Given (ok : Value → Prop) : Edit → Prop
  | .set _ v | .setIfAbsent _ v => ok v
  | .merge _ es => ∀ e ∈ es, ok e.2
  | .unset _ | .unsetIfPresent _ | .increment _ => True

/-- A relation between stores that storing an acceptable value and removing a
node keep. -/
structure Kept (ok : Value → Prop) (R : Store → Store → Prop) : Prop where
  refl (s : Store) : R s s
  trans {s t u : Store} : R s t → R t u → R s u
  set {s : Store} {p : Path} {x data : Value} : ok x →
    s.data.enact? ⟨p, some x⟩ = some data →
    R s ({ s with data }.record (diff p (s.data.lookup p) (some x)))
  unset {s : Store} {p : Path} {old data : Value} :
    s.data.enact? ⟨p, none⟩ = some data →
    R s ({ s with data }.record (diff p (some old) none))
  empty : ok Value.empty
  int (i : Int64) : ok (.int i)

namespace Kept

variable {ok : Value → Prop} {R : Store → Store → Prop} {p : Path} {x : Value}

theorem within_set (h : Kept ok R) (hx : ok x) : Within R (Store.set p x) := by
  intro s
  unfold after Store.set
  cases hs : s.data.store p x with
  | error e => exact h.refl s
  | ok data => exact h.set hx (store_eq_ok_iff.1 hs)

/-- A value is stored unless a condition holds. -/
theorem within_setUnless {α : Type} (h : Kept ok R) {c : Store → Prop} [DecidablePred c]
    {v : Store → Value} (a b : α) (hv : ∀ s, ok (v s)) :
    Within R (fun s => if c s then .ok a s
      else (do let _ ← Store.set p (v s); pure b : Mutation α) s : Mutation α) := by
  intro s
  rw [after_setUnless]
  split
  · exact h.refl s
  · exact h.within_set (hv s) s

theorem within_setIfAbsent (h : Kept ok R) (hx : ok x) :
    Within R (Store.setIfAbsent p x) := by
  intro s
  have either : Store.setIfAbsent p x s = if s.has p then .ok [] s else Store.set p x s := rfl
  unfold after
  rw [either]
  cases s.has p with
  | true => exact h.refl s
  | false => exact h.within_set hx s

theorem within_merge (h : Kept ok R) {es : Entries Value} (hes : ∀ e ∈ es, ok e.2) :
    Within R (Store.merge p es) := by
  refine within_bind (R := R) h.trans (h.within_setIfAbsent h.empty) (fun made => ?_)
  refine within_bind (R := R) h.trans ?_ (fun sets => within_pure h.refl _)
  exact within_mapM h.refl h.trans (fun e he => h.within_set (hes e he))

theorem within_unset (h : Kept ok R) : Within R (Store.unset p) := by
  intro s
  unfold after Store.unset
  cases hs : s.data.remove p with
  | error e => exact h.refl s
  | ok r => exact h.unset (remove_eq_ok_iff.1 hs).2

theorem within_unsetIfPresent (h : Kept ok R) : Within R (Store.unsetIfPresent p) := by
  intro s
  have plain := h.within_unset (p := p) s
  unfold after at plain ⊢
  unfold Store.unsetIfPresent
  cases hs : Store.unset p s with
  | ok fs t =>
    rw [hs] at plain
    exact plain
  | error e t =>
    rw [hs] at plain
    cases e <;> exact plain

theorem within_increment (h : Kept ok R) : Within R (Store.increment p) := by
  intro s
  unfold after Store.increment
  cases s.data.lookup p with
  | none =>
    exact within_bind (R := R) h.trans (h.within_set (h.int 1)) (fun _ => within_pure h.refl _) s
  | some v =>
    dsimp only
    cases v.asInt? with
    | none => exact h.refl s
    | some i =>
      exact within_bind (R := R) h.trans (h.within_set (h.int (i + 1)))
        (fun _ => within_pure h.refl _) s

/-- What storing and removing keep, every edit keeps. -/
theorem perform (h : Kept ok R) {e : Edit} (he : e.Given ok) (s : Store) :
    R s (e.perform s) := by
  cases e with
  | set p v => exact h.within_set he s
  | setIfAbsent p v => exact h.within_setIfAbsent he s
  | merge p es => exact h.within_merge he s
  | unset p => exact h.within_unset s
  | unsetIfPresent p => exact h.within_unsetIfPresent s
  | increment p => exact h.within_increment s

/-- What storing and removing keep, **every sequence of edits keeps**. -/
theorem run (h : Kept ok R) {es : List Edit} (hes : ∀ e ∈ es, e.Given ok) (s : Store) :
    R s (s.edited es) := by
  induction es generalizing s with
  | nil => exact h.refl s
  | cons e es ih =>
    exact h.trans (h.perform (hes e List.mem_cons_self) s)
      (ih (fun d hd => hes d (List.mem_cons_of_mem e hd)) (e.perform s))

end Kept

/-! ## What edits keep -/

theorem record_data (s : Store) (fs : List Fragment) : (s.record fs).data = s.data := by
  unfold record
  split <;> rfl

theorem record_journal (s : Store) (fs : List Fragment) : (s.record fs).journal = s.journal := by
  unfold record
  split <;> rfl

/-- What holds everywhere in the tree and in what is stored keeps holding. -/
theorem kept_everywhere {r : Value → Prop} (hr : Closed r) (empty : r .empty)
    (int : ∀ i, r (.int i)) :
    Kept (Everywhere r) (fun s s' => Everywhere r s.data → Everywhere r s'.data) where
  refl _ h := h
  trans h h' hs := h' (h hs)
  set hx h hs := by
    rw [record_data]
    refine hs.enact? hr ?_ h
    rintro y ⟨⟩
    exact hx
  unset h hs := by
    rw [record_data]
    refine hs.enact? hr ?_ h
    rintro y ⟨⟩
  empty := everywhere_map.2 ⟨empty, fun e he => by cases he⟩
  int := int

/-- What a store queues for some changes. -/
def queued (s : Store) (fs : List Fragment) : List Fragment :=
  match s.journal with
  | none => []
  | some j => fs.filterMap j.entry?

theorem record_queue (s : Store) (fs : List Fragment) :
    (s.record fs).queue = s.queue ++ s.queued fs := by
  unfold record queued
  cases s.journal with
  | none => exact (List.append_nil _).symm
  | some j => rfl

theorem queued_append (s : Store) (fs gs : List Fragment) :
    s.queued (fs ++ gs) = s.queued fs ++ s.queued gs := by
  unfold queued
  cases s.journal with
  | none => rfl
  | some j => exact List.filterMap_append

theorem queued_nil (s : Store) : s.queued [] = [] := by
  unfold queued
  cases s.journal <;> rfl

/-- **The meaning of the queue**: what a store has queued since another state
of it is what the journal makes of changes that lead from the older tree to the
newer one. -/
structure Recorded (s s' : Store) : Prop where
  journal : s'.journal = s.journal
  changes : s.data.Sorted → s'.data.Sorted ∧ ∃ fs : List Fragment,
    (∀ f ∈ fs, f.Everywhere isSorted)
      ∧ s.data.plain.enactAll? (fs.map Fragment.plain) = some s'.data.plain
      ∧ s'.queue = s.queue ++ s.queued fs

/-- The difference that is recorded when a value is stored leads to the new
tree. -/
theorem enactAll?_diff_set {v v' x : Value} {p : Path} (hv : v.Sorted) (hx : x.Sorted)
    (h : v.enact? ⟨p, some x⟩ = some v') :
    (∀ f ∈ diff p (v.lookup p) (some x), f.Everywhere isSorted)
      ∧ v.plain.enactAll? ((diff p (v.lookup p) (some x)).map Fragment.plain)
        = some v'.plain := by
  cases hp : v.lookup p with
  | none =>
    constructor
    · intro f hf
      rw [List.mem_singleton.1 hf]
      rintro y ⟨⟩
      exact hx
    · show (v.plain.enact? (Fragment.plain ⟨p, some x⟩)).bind some = _
      rw [Option.bind_fun_some, enact?_plain, h, Option.map_some]
  | some old =>
    constructor
    · intro f hf
      rw [show diff p (some old) (some x) = changes p old x from rfl, changes_eq_rebase] at hf
      obtain ⟨g, hg, rfl⟩ := List.mem_map.1 hf
      exact (fits_of_mem_changes hx hg).everywhere hx
    · obtain ⟨r, replays⟩ := exists_replays (hv.lookup hp) hx
      obtain rfl := Option.some.inj ((enact?_set hp x).symm.trans h)
      show v.plain.enactAll? ((changes p old x).map Fragment.plain) = _
      rw [enactAll?_plain, replays.below hx hv hp, Option.map_some, ← plug_plain, replays.plain,
        plug_plain]

theorem recorded_record {s : Store} {data : Value} {fs : List Fragment}
    (sorted : s.data.Sorted → data.Sorted ∧ (∀ f ∈ fs, f.Everywhere isSorted)
      ∧ s.data.plain.enactAll? (fs.map Fragment.plain) = some data.plain) :
    Recorded s ({ s with data }.record fs) where
  journal := record_journal _ fs
  changes hs := by
    obtain ⟨hdata, hfs, run⟩ := sorted hs
    rw [record_data]
    exact ⟨hdata, fs, hfs, run, record_queue _ fs⟩

/-- Every edit appends to the queue what its changes mean. -/
theorem kept_recorded : Kept Value.Sorted Recorded where
  refl s := ⟨rfl, fun hs => ⟨hs, [], (fun f hf => by cases hf), rfl, by
    rw [queued_nil, List.append_nil]⟩⟩
  trans {s t u} h h' := by
    refine ⟨h'.journal.trans h.journal, fun hs => ?_⟩
    obtain ⟨ht, fs, hfs, run, queue⟩ := h.changes hs
    obtain ⟨hu, gs, hgs, run', queue'⟩ := h'.changes ht
    refine ⟨hu, fs ++ gs, ?_, ?_, ?_⟩
    · intro f hf
      rcases List.mem_append.1 hf with hf | hf
      · exact hfs f hf
      · exact hgs f hf
    · rw [List.map_append, enactAll?_append, run, Option.bind_some, run']
    · rw [queue', queue, queued_append, List.append_assoc]
      unfold queued
      rw [h.journal]
  set {s p x data} hx h := recorded_record (fun hs => by
    refine ⟨hs.enact? closed_isSorted ?_ h, enactAll?_diff_set hs hx h⟩
    rintro y ⟨⟩
    exact hx)
  unset {s p old data} h := recorded_record (fun hs => by
    refine ⟨hs.enact? closed_isSorted ?_ h, ?_, ?_⟩
    · rintro y ⟨⟩
    · intro f hf
      rw [List.mem_singleton.1 hf]
      rintro y ⟨⟩
    · show (s.data.plain.enact? (Fragment.plain ⟨p, none⟩)).bind some = _
      rw [Option.bind_fun_some, enact?_plain, h, Option.map_some])
  empty := everywhere_map.2 ⟨Entries.Sorted.nil, fun e he => by cases he⟩
  int _ := trivial

/-! ## Replaying the queue -/

/-- **The queue replayed on the old head gives the new head.** From an empty
queue on, whatever edits were made anywhere in the tree, successful or not,
everything popped can be applied in order to what the head was before (`null`
where there was none), and gives what the head is now. -/
theorem replay_popJournal {s : Store} {j : Journal} {es : List Edit}
    (journal : s.journal = some j) (keys : j.ByKeys) (idle : s.queue = [])
    (sorted : s.data.Sorted) (numbers : s.data.NoNaN)
    (given : ∀ e ∈ es, e.Given Value.Sorted ∧ e.Given NoNaN) :
    ∃ v, (s.journalHead.getD .null).replay (s.edited es).popJournal.1 = .ok v
      ∧ (v == (s.edited es).journalHead.getD .null) = true := by
  have recorded := kept_recorded.run (fun e he => (given e he).1) s
  have numbers' : (s.edited es).data.NoNaN :=
    (kept_everywhere closed_isNumber trivial (fun _ => trivial)).run
      (fun e he => (given e he).2) s numbers
  obtain ⟨-, fs, hfs, run, queue⟩ := recorded.changes sorted
  rw [idle, List.nil_append, queued, journal] at queue
  dsimp only at queue
  have journal' : (s.edited es).journal = some j := recorded.journal.trans journal
  -- the changes are followed on plain trees, and carried over to the tree itself
  have followed := j.copy_enactAll? keys sorted.plain (fun f hf => ?_) run
  · rw [j.filterMap_entry?_plain, j.copy_plain, j.copy_plain, enactAll?_plain, ← queue] at followed
    obtain ⟨v, hv, same⟩ := Option.map_eq_some_iff.1 followed
    have number : (j.copy (s.edited es).data).NoNaN := j.copy_everywhere closed_isNumber numbers'
    refine ⟨v, ?_, ?_⟩
    · rw [Journal.journalHead_eq_image journal]
      exact replay_of_enactAll? hv
    · rw [Journal.journalHead_eq_image journal']
      refine (beq_iff_plain_eq ?_).2 same
      rw [← noNaN_plain, same, noNaN_plain]
      exact number
  · obtain ⟨g, hg, rfl⟩ := List.mem_map.1 hf
    exact sorted_fragment_plain (hfs g hg)

/-- The head is changed under an excluded path, removed from above, and set
again. -/
theorem replay_popJournal_recreated :
    let s : Store :=
      ⟨.map [("a", .map [("n", .int 1)])], some ⟨[.key "a"], [[.key "x"]]⟩, []⟩
    let es : List Edit :=
      [.set [.key "a", .key "x"] (.int 2), .unset [.key "a"], .set [.key "a"] (.list [.null])]
    ∃ v, (s.journalHead.getD .null).replay (s.edited es).popJournal.1 = .ok v
      ∧ (v == (s.edited es).journalHead.getD .null) = true :=
  replay_popJournal rfl ⟨by simp [Path.AllKeys], by simp [Path.AllKeys]⟩ rfl
    (by simp [Everywhere, EverywhereEntries, isSorted, Entries.Sorted, Entries.keys])
    (by simp [Everywhere, EverywhereEntries, isNumber])
    (by simp [Edit.Given, Everywhere, EverywhereItems, isSorted, isNumber])

end Store

end HaCluster
