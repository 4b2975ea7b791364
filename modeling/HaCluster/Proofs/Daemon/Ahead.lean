import HaCluster.Proofs.Daemon.Peers
import HaCluster.Proofs.Node.Recorded
import HaCluster.Proofs.Replication.Restart

/-!
# What a daemon has still to publish

From one publication to the next a daemon goes on editing its tree, and what it queues
on the way leads its peers from the head that they have to the head that it has
(`Ahead`). That is so whatever is asked of it, as long as nobody speaks for the node
as its peer (`ahead_serve`): what a peer tells goes to the copy of the peer, and
nothing of it is queued, however much of it can be replayed.
-/

namespace HaCluster

open Value Mutation Replication

/-- The mappings that a message carries are sorted, as they are in every value that
was read. -/
def Message.Sorted (m : Message) : Prop :=
  match m.payload with
  | .full blob => blob.Sorted
  | .patch fs => ∀ f ∈ fs, f.Everywhere isSorted

/-- The mappings that a request carries are sorted. -/
def Request.Sorted : Request → Prop
  | .postStatus _ status => status.Sorted
  | .postConfig _ (some config) => config.Sorted
  | .peerMessage _ m => m.Sorted
  | _ => True

namespace Daemon

variable {α : Type} {node peer : String} {s₀ s t : Store} {p : Publisher} {d : Daemon}
  {m : Message}

/-! ## Stores that go on -/

/-- A blob goes on by what is recorded of it. -/
theorem level_recorded (h : Level (journalOf node) s₀ s) (recorded : Store.Recorded s t) :
    Level (journalOf node) s₀ t :=
  h.recorded (byKeys_journalOf node)
    (by simp [journalOf, Layout.node, Path.key, Path.child])
    (by simp [journalOf, Path.ofKeys]) recorded

/-- A patch, whether it can be replayed or not, leaves a tree sorted. -/
theorem sorted_patch {base : Path} {fs : List Fragment} (given : ∀ f ∈ fs, f.Everywhere isSorted)
    (sorted : s.data.Sorted) : (s.patch base fs).2.data.Sorted := by
  rw [Store.patch_eq]
  dsimp only
  generalize ([] : List (Fragment × DataError)) = failures
  generalize s.data = data at sorted
  induction fs generalizing failures data with
  | nil => exact sorted
  | cons f fs ih =>
    have rest := ih fun g hg => given g (List.mem_cons_of_mem f hg)
    rw [List.foldl_cons, Store.tryFragment]
    dsimp only
    cases replayed : data.apply (f.rebase base) with
    | error e => exact rest _ _ sorted
    | ok v =>
      refine rest _ _ ?_
      rcases enact?_of_apply replayed with rfl | change
      · exact sorted
      · have fragment : (f.rebase base).Everywhere isSorted := given f List.mem_cons_self
        exact sorted.enact? closed_isSorted fragment change

/-- **A message of another node** leaves the head where it is, and nothing is queued
for it. -/
theorem level_receive (h : Level (journalOf node) s₀ s) (ne : peer ≠ node)
    (sorted : m.Sorted) (t : PeerTable) :
    Level (journalOf node) s₀ (t.receive s peer m).2.2 := by
  obtain ⟨id, time, payload⟩ := m
  unfold PeerTable.receive
  cases payload with
  | full blob =>
    have stored := level_recorded h (Node.Blob.recorded_storeCopy peer sorted s)
    unfold Mutation.after at stored
    dsimp only
    cases result : PeerTable.storeCopy peer blob s <;> rw [result] at stored <;> exact stored
  | patch changes =>
    cases t.trust peer with
    | untrusted => exact h
    | inSync last =>
      dsimp only
      split
      · exact h
      · split
        · exact h
        · have patched : Level (journalOf node) s₀ (s.patch (Layout.node peer) changes).2 := by
            have aside := (Node.Blob.frame_node node).patch (Layout.node peer) changes
              (fun r => ⟨peer, r, ne, rfl⟩) s
            have journal := aside.journal.trans h.journal
            refine h.trans ⟨journal, sorted_patch sorted h.sorted, [],
              (List.append_nil _).symm, leads_nil.2 (congrArg _ ?_)⟩
            rw [Journal.journalHead_eq_image h.journal, Journal.journalHead_eq_image journal]
            unfold Journal.image
            rw [show (journalOf node).head = Layout.node node from rfl, aside.data]
          cases result : s.patch (Layout.node peer) changes with
          | mk failure s' =>
            rw [result] at patched
            cases failure <;> exact patched

/-! ## Daemons that go on -/

/-- The daemon of a node has gone on from an earlier store, and has cut nothing since. -/
structure Ahead (node : String) (s₀ : Store) (p : Publisher) (d : Daemon) : Prop where
  name : d.nodeName = node
  publisher : d.publisher = p
  level : Level (journalOf node) s₀ d.store

theorem ahead_refl (name : d.nodeName = node) (journal : d.store.journal = some (journalOf node))
    (sorted : d.store.data.Sorted) : Ahead node d.store d.publisher d :=
  ⟨name, rfl, level_refl journal sorted⟩

theorem concerns_ahead : Concerns node (Ahead node s₀ p) where
  name h := h.name
  congr h name store publisher :=
    ⟨name.trans h.name, publisher.trans h.publisher, store ▸ h.level⟩

theorem ahead_mutate {m : Mutation α} (recorded : Within Store.Recorded m) :
    Preserves (Ahead node s₀ p) (mutate m) := by
  intro d h
  have step := level_recorded h.level (recorded d.store)
  unfold Mutation.after at step
  unfold Step.after mutate
  cases result : m d.store <;> rw [result] at step <;> exact ⟨h.name, h.publisher, step⟩

theorem ahead_purge (peer : String) : Preserves (Ahead node s₀ p) (purge peer) := by
  intro d h
  have gone := level_recorded h.level
    (Store.kept_recorded.within_unsetIfPresent (p := Layout.node peer) d.store)
  unfold Mutation.after at gone
  unfold Step.after purge PeerTable.purge
  dsimp only
  cases result : Store.unsetIfPresent (Layout.node peer) d.store <;> rw [result] at gone <;>
    exact ⟨h.name, h.publisher, gone⟩

/-- **Whatever is asked**, the daemon goes on, unless it is asked for what it
publishes. -/
theorem ahead_serve (now : Moment) {r : Request}
    (foreign : ∀ peer m, r = .peerMessage peer m → peer ≠ node) (sorted : r.Sorted)
    (unpublished : r ≠ .fullSync) : Preserves (Ahead node s₀ p) (serve now r) :=
  concerns_ahead.serve
    (fun u _ => ahead_mutate (Node.Blob.recorded_updateMonitor node now.wall u.apply))
    (fun p u _ => ahead_mutate (Node.Blob.recorded_updateInstanceMonitor node p now.wall
      fun _ h => Service.Monitor.sorted_apply u h))
    (fun p new same => by
      subst same
      exact ahead_mutate (Node.Blob.recorded_replaceStatus node p (everywhere_map.1 sorted).2))
    (fun p config same => by
      subst same
      exact ahead_mutate (Node.Blob.recorded_publishConfig node p sorted))
    (fun p _ => ahead_mutate (Node.Blob.recorded_withdrawConfig node p))
    (fun peer m same d h => by
      subst same
      exact ⟨h.name, h.publisher, level_receive h.level (foreign peer m rfl) sorted d.peers⟩)
    (fun same => absurd same unpublished)
    (fun _ => ahead_mutate (Node.Blob.recorded_updateMonitor node now.wall _))

end Daemon

end HaCluster
