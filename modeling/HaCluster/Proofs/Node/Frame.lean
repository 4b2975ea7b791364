import HaCluster.Proofs.Node.Blob
import HaCluster.Proofs.Store.Frame

/-!
# What a node edits

Of its own blob a node edits single keys, single configurations and single keys
of status documents, and of its peers it edits whole copies (`Edits`). Besides,
it makes the few mappings that these lie in (`Makes`). A relation that is kept
by such edits is kept by every mutation of the blob and by every message of a
peer.

Some of the edits can be left out: those of the record of the node, those of the
records of some services, and those of the copies of some nodes. What the others
leave alone is then the record of the node (`frame_nodeMonitor`) or that of a
service (`frame_record`), or, if nothing is left out, at least the mapping in
which all copies lie (`frame_nodes`).
-/

namespace HaCluster.Node.Blob

open Value Store Mutation

variable {node p k : String} {self : Prop} {own peers : String → Prop} {T : Value → Value → Prop}

/-- The paths at which a node edits the tree. The record of the node may be among
them or not, the records and instances are those of some services, and the copies
those of some nodes. -/
inductive Edits (node : String) (self : Prop) (own peers : String → Prop) : Path → Prop
  | nodeMonitor (hs : self) : Edits node self own peers (Layout.nodeMonitor node)
  /-- A key of the blob, apart from the record of the node and from the services. -/
  | key {k : String} (hk : k ≠ "services") (hm : k ≠ "monitor") :
    Edits node self own peers ((Layout.node node).key k)
  | config (p : String) : Edits node self own peers (Layout.serviceConfig node p)
  /-- A key of a status document, apart from the record. -/
  | document (p : String) {k : String} (hk : k ≠ "monitor") :
    Edits node self own peers ((Layout.serviceStatus node p).key k)
  | record {p : String} (hp : own p) : Edits node self own peers (Layout.serviceMonitor node p)
  | instance {p : String} (hp : own p) : Edits node self own peers (Layout.serviceStatus node p)
  /-- Anything in the copy of a peer, or the copy itself. -/
  | peer {n : String} (hn : peers n) (r : Path) : Edits node self own peers (Layout.node n ++ r)

theorem Edits.mono {self' : Prop} {own' peers' : String → Prop} (hs : self → self')
    (ho : ∀ p, own p → own' p) (hp : ∀ n, peers n → peers' n) {q : Path}
    (h : Edits node self own peers q) : Edits node self' own' peers' q := by
  cases h with
  | nodeMonitor h => exact .nodeMonitor (hs h)
  | key hk hm => exact .key hk hm
  | config p => exact .config p
  | document p hk => exact .document p hk
  | record h => exact .record (ho _ h)
  | «instance» h => exact .instance (ho _ h)
  | peer h r => exact .peer (hp _ h) r

/-- The paths at which a node makes mappings. -/
inductive Makes (node : String) : Path → Prop
  | nodes : Makes node Layout.nodes
  | services : Makes node (Layout.services node)
  | statuses : Makes node (statuses node)
  | configs : Makes node (configs node)
  | document (p : String) : Makes node (Layout.serviceStatus node p)

/-- Every change of the record of a node that leaves it to the mutation to date the
record keeps a relation. -/
def Notes (node : String) (at_ : Float) (T : Value → Value → Prop) : Prop :=
  ∀ edit : Node.Monitor → Node.Monitor, (∀ m, (edit m).stateSince = m.stateSince) →
    Within (Framed T) (updateMonitor node at_ edit)

/-! ## Mutations -/

section Upkeep

variable {edits : Path → Prop} (h : Frame edits (Makes node) T)

include h

theorem framed_updateMonitor (hm : edits (Layout.nodeMonitor node)) (at_ : Float)
    (edit : Node.Monitor → Node.Monitor) : Within (Framed T) (updateMonitor node at_ edit) := by
  exact h.within_setUnless false true hm

theorem framed_setFrozen (hk : edits ((Layout.node node).key "frozen")) (frozen : Bool)
    (at_ : Float) : Within (Framed T) (setFrozen node frozen at_) := by
  exact h.within_setUnless () () hk

theorem framed_stamp (stats : edits ((Layout.node node).key "stats"))
    (updated : edits ((Layout.node node).key "updated")) (running : Nat) (at_ : Float) :
    Within (Framed T) (stamp node running at_) :=
  h.within_bind (h.within_set stats) fun _ =>
    h.within_bind (h.within_set updated) fun _ => h.within_pure ()

theorem framed_ensureInstance (p : String) : Within (Framed T) (ensureInstance node p) :=
  h.within_bind (h.within_make .services) fun _ =>
    h.within_bind (h.within_make .statuses) fun _ =>
      h.within_bind (h.within_make (.document p)) fun _ => h.within_pure ()

theorem framed_updateInstanceMonitor (hp : edits (Layout.serviceMonitor node p)) (at_ : Float)
    (edit : Service.Monitor → Service.Monitor) :
    Within (Framed T) (updateInstanceMonitor node p at_ edit) := by
  exact h.within_bind (framed_ensureInstance h p) fun _ =>
    h.within_setUnless false true hp

theorem framed_dropInstance (hp : edits (Layout.serviceStatus node p)) :
    Within (Framed T) (dropInstance node p) :=
  h.within_bind (h.within_unsetIfPresent hp) fun _ => h.within_pure ()

end Upkeep

section Mutations

variable (h : Frame (Edits node self own peers) (Makes node) T)

include h

theorem Notes.of_frame (hs : self) (at_ : Float) : Notes node at_ T :=
  fun edit _ => framed_updateMonitor h (.nodeMonitor hs) at_ edit

theorem framed_dropOldKeys (p : String) (doc : Entries Value) (keys : List String) :
    Within (Framed T) (dropOldKeys node p doc keys) := by
  induction keys with
  | nil => exact h.within_pure ()
  | cons k keys ih =>
    unfold dropOldKeys
    dsimp only
    split
    · rename_i old
      exact h.within_bind (h.within_unset (.document p old.1)) fun _ => ih
    · exact ih

/-- A status document comes in beside the record. -/
theorem framed_replaceStatus (p : String) (doc : Entries Value) :
    Within (Framed T) (replaceStatus node p doc) := by
  refine h.within_bind (framed_ensureInstance h p) fun _ s => ?_
  refine h.within_bind (framed_dropOldKeys h p doc _) (fun _ => ?_) s
  refine h.within_bind (h.within_merge (.document p) fun e he => .document p ?_) fun _ =>
    h.within_pure ()
  exact of_decide_eq_true (List.mem_filter.1 he).2

theorem framed_publishConfig (p : String) (config : Value) :
    Within (Framed T) (publishConfig node p config) :=
  h.within_bind (h.within_make .services) fun _ =>
    h.within_bind (h.within_make .configs) fun _ =>
      h.within_bind (h.within_set (.config p)) fun _ => h.within_pure ()

theorem framed_withdrawConfig (p : String) : Within (Framed T) (withdrawConfig node p) :=
  h.within_bind (h.within_unsetIfPresent (.config p)) fun _ => h.within_pure ()

end Mutations

/-! ## Peers -/

section Peers

variable {edits makes : Path → Prop} {peer : String} (h : Frame edits makes T)
  (copy : ∀ r, edits (Layout.node peer ++ r))

include h copy

/-- **A message of a peer** edits its copy alone, whatever becomes of it. -/
theorem framed_receive (nodes : makes Layout.nodes) (t : PeerTable) (m : Message) (s : Store) :
    Framed T s (t.receive s peer m).2.2 := by
  obtain ⟨id, time, payload⟩ := m
  unfold PeerTable.receive
  cases payload with
  | full blob =>
    have edited : edits (Layout.node peer) := List.append_nil (Layout.node peer) ▸ copy []
    have stored : Framed T s ((PeerTable.storeCopy peer blob).after s) :=
      h.within_bind (h.within_make nodes) (fun _ => h.within_bind
        (h.within_set edited) fun _ => h.within_pure ()) s
    unfold Mutation.after at stored
    dsimp only
    cases result : PeerTable.storeCopy peer blob s <;> rw [result] at stored <;> exact stored
  | patch changes =>
    cases t.trust peer with
    | untrusted => exact .refl h s
    | inSync last =>
      dsimp only
      split
      · exact .refl h s
      · split
        · exact .refl h s
        · have patched := h.patch (Layout.node peer) changes copy s
          cases result : s.patch (Layout.node peer) changes with
          | mk failure s' =>
            rw [result] at patched
            cases failure <;> exact patched

/-- Forgetting a peer edits its copy alone. -/
theorem framed_purge (t : PeerTable) (s : Store) : Framed T s (t.purge s peer).2.2 := by
  have edited : edits (Layout.node peer) := List.append_nil (Layout.node peer) ▸ copy []
  have gone := h.within_unsetIfPresent edited s
  unfold Mutation.after at gone
  unfold PeerTable.purge
  dsimp only
  cases result : Store.unsetIfPresent (Layout.node peer) s <;> rw [result] at gone <;> exact gone

end Peers

/-! ## What is left alone -/

/-- **A blob** is left alone by what is edited of the copies of other nodes. -/
theorem frame_node (node : String) :
    Frame (fun q => ∃ n r, n ≠ node ∧ q = Layout.node n ++ r) (fun q => q = Layout.nodes)
      (fun v w => w.lookup (Layout.node node) = v.lookup (Layout.node node)) := by
  refine (frame_lookup (Path.allKeys_ofKeys ["cluster", "nodes", node])).mono ?_ ?_
  · rintro q ⟨n, r, hn, rfl⟩
    exact Path.apart_of_ne (p := Layout.nodes) hn.symm
  · rintro q rfl
    exact Path.not_startsWith_of_length_lt (Nat.le_of_ble_eq_true rfl)

/-- What a node edits for the other services and of the copies of its peers lies
beside the record of a service. -/
theorem Edits.apart_record {q : Path} (h : Edits node True (· ≠ p) (· ≠ node) q) :
    (Layout.serviceMonitor node p).Apart q := by
  cases h with
  | nodeMonitor => exact Path.apart_of_ne (p := Layout.node node) (by decide)
  | key hk => exact Path.apart_of_ne (p := Layout.node node) hk.symm
  | config => exact Path.apart_of_ne (p := Layout.services node) (by decide)
  | document q hk =>
    by_cases same : p = q
    · subst same
      exact Path.apart_of_ne (p := Layout.serviceStatus node p) hk.symm
    · exact Path.apart_of_ne (p := statuses node) same
  | record hp => exact Path.apart_of_ne (p := statuses node) hp.symm
  | «instance» hp => exact Path.apart_of_ne (p := statuses node) hp.symm
  | peer hn => exact Path.apart_of_ne (p := Layout.nodes) hn.symm

theorem Makes.length_le {q : Path} (h : Makes node q) : q.length ≤ 6 := by
  cases h <;> exact Nat.le_of_ble_eq_true rfl

/-- **The record of a service** is left alone by what a node edits for the other
services and of the copies of its peers. -/
theorem frame_record (node p : String) :
    Frame (Edits node True (· ≠ p) (· ≠ node)) (Makes node)
      (fun v w => w.lookup (Layout.serviceMonitor node p)
        = v.lookup (Layout.serviceMonitor node p)) :=
  (frame_lookup
    (Path.allKeys_ofKeys ["cluster", "nodes", node, "services", "status", p, "monitor"])).mono
    (fun _ hq => hq.apart_record)
    (fun _ hq => Path.not_startsWith_of_length_lt (Nat.lt_succ_of_le hq.length_le))

/-- **The record of the node** is left alone by what a node edits for its services
and of the copies of its peers. -/
theorem frame_nodeMonitor (node : String) :
    Frame (Edits node False (fun _ => True) (· ≠ node)) (Makes node)
      (fun v w => w.lookup (Layout.nodeMonitor node) = v.lookup (Layout.nodeMonitor node)) := by
  have services (r : Path) :
      (Layout.nodeMonitor node).Apart (Layout.node node ++ .key "services" :: r) :=
    Path.apart_of_ne (p := Layout.node node) (by decide)
  refine (frame_lookup (Path.allKeys_ofKeys ["cluster", "nodes", node, "monitor"])).mono
    (fun q hq => ?_) (fun q hq => ?_)
  · cases hq with
    | nodeMonitor hs => exact hs.elim
    | key _ hm => exact Path.apart_of_ne (p := Layout.node node) hm.symm
    | peer hn => exact Path.apart_of_ne (p := Layout.nodes) hn.symm
    | _ => exact services _
  · cases hq with
    | nodes => exact Path.not_startsWith_of_length_lt (Nat.le_of_ble_eq_true rfl)
    | _ => exact (services _).2

/-- **The mapping of the instances** stays a mapping whatever a node edits, the
copies of its peers included. -/
theorem frame_statuses (node : String) :
    Frame (Edits node True (fun _ => True) (· ≠ node)) (Makes node)
      (fun v w => HasMapping v (statuses node) → HasMapping w (statuses node)) := by
  refine (frame_mapping (Path.allKeys_ofKeys ["cluster", "nodes", node, "services", "status"])
    (List.cons_ne_nil _ _)).mono (fun q hq => ?_) (fun q hq => ?_)
  · cases hq with
    | nodeMonitor => exact .inr (Path.apart_of_ne (p := Layout.node node) (by decide))
    | key hk => exact .inr (Path.apart_of_ne (p := Layout.node node) hk.symm)
    | config => exact .inr (Path.apart_of_ne (p := Layout.services node) (by decide))
    | document q => exact .inl ⟨q, _, rfl⟩
    | record => exact .inl ⟨_, _, rfl⟩
    | «instance» => exact .inl ⟨_, _, rfl⟩
    | peer hn => exact .inr (Path.apart_of_ne (p := Layout.nodes) hn.symm)
  · cases hq with
    | nodes => exact .inl (Path.startsWith_iff.2 ⟨_, rfl⟩)
    | services => exact .inl (Path.startsWith_iff.2 ⟨_, rfl⟩)
    | statuses => exact .inl (Path.startsWith_iff.2 ⟨[], rfl⟩)
    | configs => exact .inr (.inr (Path.apart_of_ne (p := Layout.services node) (by decide)))
    | document q => exact .inr (.inl ⟨q, [], rfl⟩)

/-- **The mapping of the copies** stays a mapping whatever a node edits, even if
it takes itself for a peer. -/
theorem frame_nodes (node : String) :
    Frame (Edits node True (fun _ => True) (fun _ => True)) (Makes node)
      (fun v w => HasMapping v Layout.nodes → HasMapping w Layout.nodes) := by
  refine (frame_mapping (Path.allKeys_ofKeys ["cluster", "nodes"])
    (List.cons_ne_nil _ _)).mono (fun q hq => ?_) (fun q hq => ?_)
  · cases hq <;> exact .inl ⟨_, _, rfl⟩
  · cases hq with
    | nodes => exact .inl (Path.startsWith_iff.2 ⟨[], rfl⟩)
    | _ => exact .inr (.inl ⟨node, _, rfl⟩)

end HaCluster.Node.Blob
