import HaCluster.Proofs.Daemon.Requests
import HaCluster.Proofs.Node.Frame

/-!
# What requests edit

Whatever a daemon is asked, it does it by mutations of its blob and by what it
takes in of its peers. So a property that concerns the store and the publisher
alone (`Concerns`) is kept by a request if it is kept by the one mutation that the
request comes to (`Concerns.serve`).

A daemon edits its tree at the paths that its own blob and the copies of its peers
have. So a relation between trees that is kept by such edits holds between the
trees before and after any request (`since_serve`).
-/

namespace HaCluster.Daemon

open Mutation Store

variable {ε α : Type} {node : String} {P : Daemon → Prop}

/-- A property of the daemon of a node which concerns nothing but its store and its
publisher. -/
structure Concerns (node : String) (P : Daemon → Prop) : Prop where
  name {d : Daemon} : P d → d.nodeName = node
  congr {d d' : Daemon} : P d → d'.nodeName = d.nodeName → d'.store = d.store →
    d'.publisher = d.publisher → P d'

theorem Preserves.mutating {m : Mutation α} (hm : Preserves P (mutate m)) :
    Preserves P (mutating m) := by
  intro d hd
  have step := hm d hd
  unfold Step.after at step ⊢
  unfold Daemon.mutating
  cases result : mutate m d <;> rw [result] at step <;> exact step

namespace Concerns

variable (h : Concerns node P)

include h

theorem wake : Preserves P (modify wake : Step ε PUnit) :=
  fun _ hd => h.congr hd rfl rfl rfl

theorem wakeIf (changed : Bool) : Preserves P (wakeIf changed) := by
  intro d hd
  cases changed <;> exact h.congr hd rfl rfl rfl

theorem setNodeMonitor {u : Node.Update} {at_ : Float}
    (written : Preserves P (mutate (Node.Blob.updateMonitor node at_ u.apply))) :
    Preserves P (setNodeMonitor u at_) :=
  preserves_get_bind fun d hd => by
    rw [h.name hd]
    exact preserves_bind (written.mutating) h.wakeIf d hd

theorem setInstanceMonitor {p : String} {u : Service.Update} {at_ : Float}
    (written : Preserves P (mutate (Node.Blob.updateInstanceMonitor node p at_ u.apply))) :
    Preserves P (setInstanceMonitor p u at_) :=
  preserves_get_bind fun d hd => by
    rw [h.name hd]
    exact preserves_bind (written.mutating) h.wakeIf d hd

theorem postStatus {p : String} {doc : Value}
    (written : ∀ new, doc = .map new →
      Preserves P (mutate (Node.Blob.replaceStatus node p new))) :
    Preserves P (postStatus p doc) :=
  preserves_get_bind fun d hd => by
    rw [h.name hd]
    cases doc with
    | map new => exact written new rfl d hd
    | _ => exact hd

theorem postConfig {p : String} {config : Value}
    (written : Preserves P (mutate (Node.Blob.publishConfig node p config))) :
    Preserves P (postConfig p config) := by
  unfold Daemon.postConfig
  split
  · exact preserves_throw _
  · split
    · refine preserves_get_bind fun d hd => ?_
      rw [h.name hd]
      exact preserves_bind (written.mutating) (fun _ => h.wake) d hd
    · exact preserves_throw _

theorem removeService {p : String}
    (written : Preserves P (mutate (Node.Blob.withdrawConfig node p))) :
    Preserves P (removeService p) :=
  preserves_get_bind fun d hd => by
    rw [h.name hd]
    exact preserves_bind (written.mutating) (fun _ => h.wake) d hd

theorem stop {at_ : Float}
    (written : Preserves P
      (mutate (Node.Blob.updateMonitor node at_ (Node.Update.enter .maintenance).apply))) :
    Preserves P (stop at_) := by
  intro d hd
  have left := h.setNodeMonitor written d hd
  unfold Step.after at left ⊢
  unfold Daemon.stop
  cases result : Daemon.setNodeMonitor (Node.Update.enter .maintenance) at_ d <;>
    rw [result] at left <;> exact h.congr left rfl rfl rfl

theorem reloadSettings (load : String → Except SettingsError Settings) :
    Preserves P (reloadSettings load) := by
  intro d hd
  unfold Step.after Daemon.reloadSettings
  dsimp only
  cases d.settingsChanged with
  | false => exact hd
  | true =>
    cases d.settingsFile with
    | none => exact h.congr hd rfl rfl rfl
    | some file =>
      rw [if_pos rfl]
      dsimp only
      cases load file <;> exact h.congr hd rfl rfl rfl

/-- **A request keeps a property** that is kept by what it comes to. -/
theorem serve {now : Moment} {r : Request}
    (setNode : ∀ u, r = .setNode u →
      Preserves P (mutate (Node.Blob.updateMonitor node now.wall u.apply)))
    (setInstance : ∀ p u, r = .setInstance p u →
      Preserves P (mutate (Node.Blob.updateInstanceMonitor node p now.wall u.apply)))
    (postStatus : ∀ p new, r = .postStatus p (.map new) →
      Preserves P (mutate (Node.Blob.replaceStatus node p new)))
    (publish : ∀ p config, r = .postConfig p (some config) →
      Preserves P (mutate (Node.Blob.publishConfig node p config)))
    (withdraw : ∀ p, r = .postConfig p none →
      Preserves P (mutate (Node.Blob.withdrawConfig node p)))
    (receive : ∀ peer m, r = .peerMessage peer m → ∀ d, P d → P (d.receive peer m).2)
    (fullSync : r = .fullSync → ∀ d, P d → P (d.fullMessage now.wall).2)
    (stop : r = .stop → Preserves P
      (mutate (Node.Blob.updateMonitor node now.wall (Node.Update.enter .maintenance).apply))) :
    Preserves P (serve now r) := by
  cases r with
  | setNode u => exact preserves_bind (h.setNodeMonitor (setNode u rfl)) fun _ => preserves_pure _
  | setInstance p u =>
    exact preserves_bind (h.setInstanceMonitor (setInstance p u rfl)) fun _ => preserves_pure _
  | postStatus p doc =>
    intro d hd
    have left : P (Step.after (Daemon.postStatus p doc) d) :=
      h.postStatus (fun new same => postStatus p new (same ▸ rfl)) d hd
    unfold Step.after at left ⊢
    unfold Daemon.serve
    dsimp only
    cases result : Daemon.postStatus p doc d <;> rw [result] at left <;> exact left
  | postConfig p config =>
    cases config with
    | some config =>
      exact preserves_bind (h.postConfig (publish p config rfl)) fun _ => preserves_pure _
    | none => exact preserves_bind (h.removeService (withdraw p rfl)) fun _ => preserves_pure _
  | peerMessage peer m =>
    exact preserves_bind (fun d hd => receive peer m rfl d hd) fun _ => preserves_pure _
  | fullSync => exact fun d hd => h.congr (fullSync rfl d hd) rfl rfl rfl
  | clusterStatus => exact fun d hd => hd
  | summary => exact fun d hd => h.congr hd rfl rfl rfl
  | stop => exact preserves_bind (h.stop (stop rfl)) fun _ => preserves_pure _

end Concerns

/-! ## Relations between trees -/

variable {self : Prop} {own peers : String → Prop} {T : Value → Value → Prop} {s : Store}

/-- The daemon is that of a node, and its store is framed by an earlier one. -/
structure Since (node : String) (T : Value → Value → Prop) (s : Store) (d : Daemon) : Prop where
  name : d.nodeName = node
  store : Framed T s d.store

theorem concerns_since : Concerns node (Since node T s) where
  name hd := hd.name
  congr hd name store _ := ⟨name.trans hd.name, store ▸ hd.store⟩

section Frames

variable {edits makes : Path → Prop} (h : Frame edits makes T)

include h

theorem since_refl {d : Daemon} (name : d.nodeName = node) : Since node T d.store d :=
  ⟨name, .refl h d.store⟩

theorem since_mutate {m : Mutation α} (hm : Within (Framed T) m) :
    Preserves (Since node T s) (mutate m) := by
  intro d hd
  have step := hm d.store
  unfold Mutation.after at step
  unfold Step.after mutate
  cases result : m d.store <;> rw [result] at step <;> exact ⟨hd.name, hd.store.trans h step⟩

/-- Cutting the queue into a patch leaves the tree as it is. -/
theorem since_nextPatches (now : Float) {d : Daemon} (hd : Since node T s d) :
    Since node T s (d.nextPatches now).2 :=
  ⟨hd.name, hd.store.trans h ⟨rfl, h.refl d.store.data⟩⟩

theorem since_purge {peer : String} (copy : ∀ r, edits (Layout.node peer ++ r)) :
    Preserves (Since node T s) (purge peer) := by
  intro d hd
  have framed := Node.Blob.framed_purge h copy d.peers d.store
  unfold Step.after purge
  generalize d.peers.purge d.store peer = purged at framed
  obtain ⟨result, table, store⟩ := purged
  cases result <;> exact ⟨hd.name, hd.store.trans h framed⟩

end Frames

/-- **Two requests touch the record of the node**, one that changes it and one that
stops the daemon. So what concerns the record alone is kept by a request if those two
keep it. -/
theorem Concerns.serve_record {P : Daemon → Prop} (h : Concerns node P)
    (aside : ∀ {d d' : Daemon}, P d → Since node (fun v w =>
      w.lookup (Layout.nodeMonitor node) = v.lookup (Layout.nodeMonitor node)) d.store d' → P d')
    {now : Moment} {r : Request}
    (foreign : ∀ peer m, r = .peerMessage peer m → peer ≠ node)
    (setNode : ∀ u, r = .setNode u →
      Preserves P (mutate (Node.Blob.updateMonitor node now.wall u.apply)))
    (stop : r = .stop → Preserves P
      (mutate (Node.Blob.updateMonitor node now.wall (Node.Update.enter .maintenance).apply))) :
    Preserves P (Daemon.serve now r) := by
  have frame := Node.Blob.frame_nodeMonitor node
  have name {d : Daemon} (hd : P d) : d.nodeName = node := h.name hd
  have beside {β : Type} {m : Mutation β} (framed : Mutation.Within (Framed (fun v w =>
      w.lookup (Layout.nodeMonitor node) = v.lookup (Layout.nodeMonitor node))) m) :
      Preserves P (mutate m) :=
    fun d hd => aside hd (since_mutate frame framed d (since_refl frame (name hd)))
  exact h.serve setNode
    (fun p u _ => beside (Node.Blob.framed_updateInstanceMonitor frame (.record trivial) _ _))
    (fun p new _ => beside (Node.Blob.framed_replaceStatus frame p new))
    (fun p config _ => beside (Node.Blob.framed_publishConfig frame p config))
    (fun p _ => beside (Node.Blob.framed_withdrawConfig frame p))
    (fun peer m same d hd => aside hd ⟨name (d := d) hd, Node.Blob.framed_receive frame
      (fun r => .peer (n := peer) (foreign peer m same) r) .nodes d.peers m d.store⟩)
    (fun _ d hd => aside hd ⟨name (d := d) hd, rfl, rfl⟩) stop

/-- **Whatever is asked** keeps a relation that edits keep, if only some records
are changed and only some nodes are spoken for. -/
theorem since_serve (h : Frame (Node.Blob.Edits node self own peers) (Node.Blob.Makes node) T)
    {now : Moment} (notes : Node.Blob.Notes node now.wall T) {r : Request}
    (records : ∀ p u, r = .setInstance p u → own p)
    (speakers : ∀ peer m, r = .peerMessage peer m → peers peer) :
    Preserves (Since node T s) (serve now r) :=
  concerns_since.serve
    (fun u _ => since_mutate h (notes u.apply fun _ => rfl))
    (fun p u same => since_mutate h
      (Node.Blob.framed_updateInstanceMonitor h (.record (records p u same)) now.wall u.apply))
    (fun p new _ => since_mutate h (Node.Blob.framed_replaceStatus h p new))
    (fun p config _ => since_mutate h (Node.Blob.framed_publishConfig h p config))
    (fun p _ => since_mutate h (Node.Blob.framed_withdrawConfig h p))
    (fun peer m same d hd => ⟨hd.name, hd.store.trans h (Node.Blob.framed_receive h
      (fun r => .peer (speakers peer m same) r) .nodes d.peers m d.store)⟩)
    (fun _ d hd => ⟨hd.name, hd.store.trans h ⟨rfl, h.refl d.store.data⟩⟩)
    (fun _ => since_mutate h (notes _ fun _ => rfl))

end HaCluster.Daemon
