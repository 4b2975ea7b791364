import HaCluster.Proofs.Daemon.Frame

/-!
# Who writes the blob of a node

A node publishes its own blob and keeps copies of those of its peers, all in one
mapping. What comes from a peer goes to the copy of the peer, and what happens
there is not published. But the name of the peer is taken from the message, and
nothing compares it with that of the node: a message in the name of the node
itself overwrites its blob and is published to all peers. Any other message
leaves the blob and the queue alone (`sparesOwn_iff`).

What the argument needs of a daemon it has from the start, and no request takes
it away (`wired_start`, `Wired.serve`).
-/

namespace HaCluster

open Value

namespace Store

variable {s : Store} {j : Journal} {p : Path} {x y : Option Value}

/-- The fragments of a difference lie where the difference is made. -/
theorem exists_rest_of_mem_diff {f : Fragment} (hf : f ∈ diff p x y) :
    ∃ r, f.path = p ++ r := by
  have root (z : Option Value) : ∃ r, (⟨p, z⟩ : Fragment).path = p ++ r :=
    ⟨[], (List.append_nil p).symm⟩
  cases x with
  | none =>
    cases y with
    | none => cases hf
    | some v => exact List.mem_singleton.1 hf ▸ root _
  | some u =>
    cases y with
    | none => exact List.mem_singleton.1 hf ▸ root _
    | some v =>
      rw [show diff p (some u) (some v) = changes p u v from rfl, changes_eq_rebase] at hf
      obtain ⟨g, -, rfl⟩ := List.mem_map.1 hf
      exact ⟨g.path, rfl⟩

/-- Nothing is queued for a change beside the head of the journal. -/
theorem queue_record_aside (journal : s.journal = some j)
    (aside : ∀ r, j.head.Apart (p ++ r)) : (s.record (diff p x y)).queue = s.queue := by
  have none_queued : (diff p x y).filterMap j.entry? = [] := by
    rw [List.filterMap_eq_nil_iff]
    intro f hf
    obtain ⟨r, hr⟩ := exists_rest_of_mem_diff hf
    obtain ⟨above, below⟩ := aside r
    rw [← hr] at above below
    exact j.entry?_aside above below
  rw [record_queue, queued, journal]
  dsimp only
  rw [none_queued, List.append_nil]

end Store

namespace Daemon

variable {d : Daemon} {peer : String}

/-- A daemon as it is wired up: its journal is that of its blob, and the blobs
lie in one mapping. -/
structure Wired (d : Daemon) : Prop where
  journal : d.store.journal = some (journalOf d.nodeName)
  nodes : HasMapping d.store.data Layout.nodes

/-- A daemon starts wired up. -/
theorem wired_start (settings : Settings) (file : Option String) (now : Float) :
    (start settings file now).Wired where
  journal := rfl
  nodes := ⟨[(settings.nodeName, Node.emptyBlob)], rfl, by simp [Entries.Sorted, Entries.keys]⟩

/-- **It stays wired up whatever it is asked**, by whomever. -/
theorem Wired.serve (h : d.Wired) (now : Moment) (r : Request) :
    (Step.after (Daemon.serve now r) d).Wired := by
  have frame := Node.Blob.frame_nodes d.nodeName
  have since := since_serve frame (.of_frame frame trivial now.wall) (r := r)
    (fun _ _ _ => trivial) (fun _ _ _ => trivial) d (since_refl frame rfl)
  refine ⟨?_, since.store.data h.nodes⟩
  rw [since.store.journal, since.name]
  exact h.journal

/-- A request leaves the blob of the node and the queue of the journal alone. -/
def SparesOwn (d : Daemon) (r : Request) : Prop :=
  ∀ now, let e := Step.after (serve now r) d
    e.store.data.lookup (Layout.node d.nodeName) = d.store.data.lookup (Layout.node d.nodeName)
      ∧ e.store.queue = d.store.queue

/-- A message of a peer is taken in, and nothing else. -/
theorem after_peerMessage (now : Moment) (peer : String) (m : Message) (d : Daemon) :
    (Step.after (serve now (.peerMessage peer m)) d).store = (d.peers.receive d.store peer m).2.2 :=
  rfl

/-- A copy that is stored as a whole is not published. -/
theorem Wired.queue_storeCopy (h : d.Wired) (ne : peer ≠ d.nodeName) (blob : Value) :
    ((PeerTable.storeCopy peer blob).after d.store).queue = d.store.queue := by
  obtain ⟨m, hm, -⟩ := h.nodes
  have stored : PeerTable.storeCopy peer blob d.store
      = (do let _ ← Store.set (Layout.node peer) blob; pure () : Mutation Unit) d.store :=
    bind_ok (Store.setIfAbsent_there hm)
  unfold Mutation.after
  rw [stored]
  show (Mutation.after (EStateM.bind _ _) d.store).queue = _
  unfold Mutation.after EStateM.bind Store.set
  cases d.store.data.store (Layout.node peer) blob with
  | error e => rfl
  | ok data =>
    exact Store.queue_record_aside (s := { d.store with data }) h.journal
      fun r => Path.apart_of_ne (p := Layout.nodes) ne.symm

/-- What comes from another node is not published. -/
theorem Wired.queue_receive (h : d.Wired) (ne : peer ≠ d.nodeName) (m : Message) :
    (d.peers.receive d.store peer m).2.2.queue = d.store.queue := by
  obtain ⟨id, time, payload⟩ := m
  unfold PeerTable.receive
  cases payload with
  | full blob =>
    have stored := h.queue_storeCopy ne blob
    unfold Mutation.after at stored
    dsimp only
    cases result : PeerTable.storeCopy peer blob d.store <;> rw [result] at stored <;> exact stored
  | patch changes =>
    cases d.peers.trust peer with
    | untrusted => rfl
    | inSync last =>
      dsimp only
      split
      · rfl
      · split
        · rfl
        · have patched : (d.store.patch (Layout.node peer) changes).2.queue = d.store.queue := rfl
          cases result : d.store.patch (Layout.node peer) changes with
          | mk failure s' =>
            rw [result] at patched
            cases failure <;> exact patched

/-- In the name of the node itself another blob can be put in the place of its
own. -/
theorem Wired.overwrites (h : d.Wired) :
    ∃ m, ¬ d.SparesOwn (.peerMessage d.nodeName m) := by
  obtain ⟨blob, other⟩ : ∃ blob, some blob ≠ d.store.data.lookup (Layout.node d.nodeName) := by
    by_cases null : d.store.data.lookup (Layout.node d.nodeName) = some .null
    · exact ⟨Value.empty, fun same => nomatch same.trans null⟩
    · exact ⟨.null, fun same => null same.symm⟩
  obtain ⟨entries, there, -⟩ := h.nodes
  obtain ⟨s', received, -, copy⟩ := PeerTable.receive_full (t := d.peers)
    (m := ⟨0, 0, .full blob⟩) (Store.HasNodes.hasRoom ⟨entries, there⟩) rfl
  refine ⟨⟨0, 0, .full blob⟩, fun spares => other ?_⟩
  have same := (spares default).1
  rw [after_peerMessage, received] at same
  exact copy.symm.trans same

/-- **What a message must not be for the blob to be spared.** In the name of any
other node a message leaves the blob and the queue alone, whatever it carries; in
the name of the node itself it need not. -/
theorem sparesOwn_iff (h : d.Wired) :
    (∀ m, d.SparesOwn (.peerMessage peer m)) ↔ peer ≠ d.nodeName := by
  constructor
  · rintro spares rfl
    obtain ⟨m, overwrites⟩ := h.overwrites
    exact overwrites (spares m)
  · intro ne m now
    have framed := Node.Blob.framed_receive (Node.Blob.frame_node d.nodeName)
      (fun r => ⟨peer, r, ne, rfl⟩) rfl d.peers m d.store
    exact ⟨framed.data, h.queue_receive ne m⟩

/-- A node by itself. -/
def alone : Daemon := start (.standard ⟨"n1", 0⟩) none 0

theorem sparesOwn_alone_iff :
    alone.Wired ∧ ((∀ m, alone.SparesOwn (.peerMessage "n1" m)) ↔ "n1" ≠ alone.nodeName)
      ∧ ((∀ m, alone.SparesOwn (.peerMessage "n2" m)) ↔ "n2" ≠ alone.nodeName) :=
  ⟨wired_start _ _ _, sparesOwn_iff (wired_start _ _ _), sparesOwn_iff (wired_start _ _ _)⟩

/-- An empty blob, sent in the name of the node itself. -/
theorem not_sparesOwn_alone :
    ¬ ∀ peer m, alone.SparesOwn (.peerMessage peer m) := by
  intro spares
  have same := (spares "n1" ⟨1, 0, .full Value.empty⟩ default).1
  have gone : (Step.after (serve default (.peerMessage "n1" ⟨1, 0, .full Value.empty⟩))
      alone).store.data.lookup (Layout.node "n1") = some Value.empty := rfl
  have before : alone.store.data.lookup (Layout.node "n1") = some Node.emptyBlob := rfl
  exact nomatch gone.symm.trans (same.trans before)

end Daemon

end HaCluster
