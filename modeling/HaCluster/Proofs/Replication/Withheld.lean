import HaCluster.Proofs.Replication.Feed

/-!
# Excluded data stays at home

A journal names paths that its node keeps to itself. No message that the node
ever makes holds anything of them (`excluded_withheld`): no change under such a
path is handed out, no value that is handed out has a node at such a path, and
neither has the blob of a full message.

The paths are applied at three places, with three different arithmetics. A
change below the head is dropped if it lies under an excluded path, and
otherwise its value loses what is excluded below it; a change of a node above
the head becomes a change of the head, which is pruned as a whole; and so is
the head in a full message. What is queued stays as it was queued, so all that
is left to follow is where queued changes go.
-/

namespace HaCluster

open Value Store

/-- A change tells nothing of what a journal excludes. -/
structure Fragment.Withholds (f : Fragment) (j : Journal) : Prop where
  /-- The change does not lie under an excluded path. -/
  path : ∀ ex ∈ j.exclude, ¬ f.path.startsWith ex = true
  /-- What it stores has no node at an excluded path that lies below it. -/
  value : ∀ rest, f.path ++ rest ∈ j.exclude → ∀ x, f.value = some x → x.lookup rest = none

/-- A message tells nothing of what a journal excludes: none of its changes
does, and a whole blob has no node at an excluded path. -/
def Message.Withholds (m : Message) (j : Journal) : Prop :=
  match m.payload with
  | .patch changes => ∀ f ∈ changes, f.Withholds j
  | .full blob => ∀ ex ∈ j.exclude, blob.lookup ex = none

namespace Journal

variable {j : Journal} {f g : Fragment}

/-- A value stored at the head tells nothing of what is excluded. -/
theorem withholds_head (keys : ∀ ex ∈ j.exclude, ex.AllKeys ∧ ex ≠ []) (x : Option Value) :
    Fragment.Withholds ⟨[], x.map (fun h => h.prune j.exclude)⟩ j where
  path ex hex under := by
    obtain ⟨rest, h⟩ := Path.startsWith_iff.1 under
    exact (keys ex hex).2 (List.append_eq_nil_iff.1 h.symm).1
  value rest hex y hy := by
    obtain ⟨h, -, rfl⟩ := Option.map_eq_some_iff.1 hy
    exact lookup_prune keys hex

/-- **What the journal queues tells nothing of what is excluded.** -/
theorem withholds_of_entry? (keys : ∀ ex ∈ j.exclude, ex.AllKeys ∧ ex ≠ [])
    (queued : j.entry? f = some g) : g.Withholds j := by
  by_cases below : f.path.startsWith j.head = true
  · obtain ⟨r, hf⟩ := Path.startsWith_iff.1 below
    by_cases under : ∃ ex ∈ j.exclude, r.startsWith ex = true
    · rw [entry?_excluded hf under] at queued
      cases queued
    · have out : ∀ ex ∈ j.exclude, ¬ r.startsWith ex = true := fun ex hex h => under ⟨ex, hex, h⟩
      rw [entry?_below hf out] at queued
      cases queued
      refine ⟨out, fun rest hex y hy => ?_⟩
      obtain ⟨x, -, rfl⟩ := Option.map_eq_some_iff.1 hy
      refine lookup_prune_pathsBelow (fun ex hex => (keys ex hex).1) hex ?_
      rintro rfl
      exact out _ hex (Path.startsWith_iff.2 ⟨[], by rw [List.append_nil, List.append_nil]⟩)
  · by_cases above : j.head.startsWith f.path = true
    · obtain ⟨rest, hf, hrest⟩ := Path.exists_rest_of_above above below
      rw [entry?_above hf hrest] at queued
      cases queued
      exact withholds_head keys _
    · rw [entry?_aside above below] at queued
      cases queued

end Journal

namespace Replication

variable {f g : Feed} {j : Journal} {ms : List Message}

/-! ## Runs -/

/-- A run of a node that publishes its changes, with every message that it
makes: the patches of its broadcasts, and the full messages for its peers. -/
inductive Issues : Feed → List Message → Feed → Prop
  | refl (f : Feed) : Issues f [] f
  /-- The node edits its tree anywhere. -/
  | edit {f g : Feed} {ms : List Message} (run : Issues f ms g) (e : Edit) : Issues f ms (g.edit e)
  | broadcast {f g : Feed} {ms : List Message} (run : Issues f ms g) (now : Float) :
    Issues f (ms ++ (g.broadcast now).1) (g.broadcast now).2
  | full {f g : Feed} {ms : List Message} (run : Issues f ms g) (now : Float) :
    Issues f (ms ++ [(g.full now).1]) (g.full now).2

/-- Nothing that waits at a node tells anything of what is excluded. -/
structure Discreet (j : Journal) (f : Feed) : Prop where
  journal : f.store.journal = some j
  queue : ∀ c ∈ f.store.queue, c.Withholds j
  unsent : ∀ m ∈ f.publisher.unsent, m.Withholds j

theorem discreet_start (data : Value) :
    Discreet j ⟨Store.new data (some j), Publisher.new⟩ where
  journal := rfl
  queue _ hc := by cases hc
  unsent _ hm := by cases hm

/-- Every edit queues what the journal makes of some changes. -/
theorem kept_withheld (keys : ∀ ex ∈ j.exclude, ex.AllKeys ∧ ex ≠ []) :
    Kept (fun _ => True) (fun s s' => s.journal = some j → (∀ c ∈ s.queue, c.Withholds j) →
      s'.journal = some j ∧ ∀ c ∈ s'.queue, c.Withholds j) := by
  have recorded {s : Store} {data : Value} (fs : List Fragment) (journal : s.journal = some j)
      (queue : ∀ c ∈ s.queue, c.Withholds j) :
      ({ s with data }.record fs).journal = some j
        ∧ ∀ c ∈ ({ s with data }.record fs).queue, c.Withholds j := by
    refine ⟨(record_journal _ fs).trans journal, fun c hc => ?_⟩
    rw [record_queue, queued, journal] at hc
    rcases List.mem_append.1 hc with hc | hc
    · exact queue c hc
    · obtain ⟨f, -, hf⟩ := List.mem_filterMap.1 hc
      exact Journal.withholds_of_entry? keys hf
  exact {
    refl := fun _ journal queue => ⟨journal, queue⟩
    trans := fun h h' journal queue => h' (h journal queue).1 (h journal queue).2
    set := fun _ _ => recorded _
    unset := fun _ => recorded _
    empty := trivial
    int := fun _ => trivial }

theorem given_any (e : Edit) : e.Given (fun _ => True) := by
  cases e <;> try trivial
  exact fun _ _ => trivial

theorem Discreet.edit (keys : ∀ ex ∈ j.exclude, ex.AllKeys ∧ ex ≠ []) (h : Discreet j f)
    (e : Edit) : Discreet j (f.edit e) := by
  obtain ⟨journal, queue⟩ :=
    (kept_withheld keys).perform (given_any e) f.store h.journal h.queue
  exact ⟨journal, queue, h.unsent⟩

/-- A cut moves what is queued into a patch. -/
theorem Discreet.cut {p : Publisher} (h : Discreet j f) (now : Float) :
    (∀ m ∈ (p.cut f.store.queue now).1, m.Withholds j)
      ∧ (p.cut f.store.queue now).2.unsent = p.unsent := by
  unfold Publisher.cut
  split
  · exact ⟨nofun, rfl⟩
  · refine ⟨fun m hm => ?_, rfl⟩
    rw [List.mem_singleton.1 hm]
    exact h.queue

theorem Discreet.broadcast (h : Discreet j f) (now : Float) :
    (∀ m ∈ (f.broadcast now).1, m.Withholds j) ∧ Discreet j (f.broadcast now).2 := by
  refine ⟨fun m hm => ?_, h.journal, nofun, nofun⟩
  rcases List.mem_append.1 hm with hm | hm
  · exact h.unsent m hm
  · exact (h.cut now).1 m hm

theorem Discreet.full (keys : ∀ ex ∈ j.exclude, ex.AllKeys ∧ ex ≠ []) (h : Discreet j f)
    (now : Float) : (f.full now).1.Withholds j ∧ Discreet j (f.full now).2 := by
  refine ⟨fun ex hex => ?_, h.journal, nofun, fun m hm => ?_⟩
  · show (f.store.journalHead.getD Value.empty).lookup ex = none
    rw [Journal.journalHead_eq_image h.journal, Journal.image]
    cases f.store.data.lookup j.head with
    | some head => exact lookup_prune keys hex
    | none =>
      -- there is no head, so the message carries an empty mapping
      obtain ⟨k, rest, rfl⟩ : ∃ k rest, ex = .key k :: rest := by
        obtain ⟨allKeys, deep⟩ := keys ex hex
        obtain ⟨s, rest, rfl⟩ := List.exists_cons_of_ne_nil deep
        obtain ⟨⟨k, rfl⟩, -⟩ := allKeys.cons
        exact ⟨k, rest, rfl⟩
      rfl
  · rcases List.mem_append.1 hm with hm | hm
    · exact h.unsent m ((h.cut (p := f.publisher) now).2 ▸ hm)
    · exact (h.cut now).1 m hm

theorem Issues.discreet (keys : ∀ ex ∈ j.exclude, ex.AllKeys ∧ ex ≠ []) (start : Discreet j f)
    (run : Issues f ms g) : (∀ m ∈ ms, m.Withholds j) ∧ Discreet j g := by
  induction run with
  | refl => exact ⟨nofun, start⟩
  | edit run e ih => exact ⟨ih.1, ih.2.edit keys e⟩
  | broadcast run now ih =>
    obtain ⟨made, waiting⟩ := ih
    obtain ⟨made', waiting'⟩ := waiting.broadcast now
    exact ⟨fun m hm => (List.mem_append.1 hm).elim (made m) (made' m), waiting'⟩
  | full run now ih =>
    obtain ⟨made, waiting⟩ := ih
    obtain ⟨made', waiting'⟩ := waiting.full keys now
    refine ⟨fun m hm => (List.mem_append.1 hm).elim (made m) fun last => ?_, waiting'⟩
    rw [List.mem_singleton.1 last]
    exact made'

/-- **Excluded data never leaves the node.** Whatever the tree is and whatever
is edited in it, the head or what lies above it as a whole included, no message
that the node makes tells anything of what its journal excludes. -/
theorem excluded_withheld {data : Value} (keys : ∀ ex ∈ j.exclude, ex.AllKeys ∧ ex ≠ [])
    (run : Issues ⟨Store.new data (some j), Publisher.new⟩ ms g) : ∀ m ∈ ms, m.Withholds j :=
  (run.discreet keys (discreet_start data)).1

/-- The head is set as a whole with something excluded in it, handed out in a
full message, changed there, and broadcast. -/
theorem excluded_withheld_head :
    let j : Journal := ⟨[.key "a"], [[.key "x"]]⟩
    let start : Feed := ⟨Store.new Value.empty (some j), Publisher.new⟩
    let set : Feed := start.edit (.set [.key "a"] (.map [("n", .int 1), ("x", .int 2)]))
    let full := set.full 0
    let changed : Feed := full.2.edit (.set [.key "a", .key "x"] (.int 3))
    let sent := [full.1] ++ (changed.broadcast 1).1
    sent.map (fun m => m.changes.map Fragment.path) = [[], [[]]] ∧ ∀ m ∈ sent, m.Withholds j := by
  refine ⟨rfl, ?_⟩
  exact excluded_withheld (by simp [Path.AllKeys])
    ((((Issues.refl _).edit _).full 0).edit _ |>.broadcast 1)

end Replication

end HaCluster
