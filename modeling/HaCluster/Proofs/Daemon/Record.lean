import HaCluster.Proofs.Daemon.Frame
import HaCluster.Proofs.Daemon.View
import HaCluster.Proofs.Node.Record

/-!
# What a node sees of its own records

In its own picture of the cluster a node finds an instance where the status
document of the service can be read, and then with the record that lies in the
document (`Sound.monitor_of_instance?`). So a document that cannot be read hides
the record, though the record itself can be read.

A request changes a record only if it asks for that, and then the record is dated
as one that the node has changed itself (`readyFrom_serve`).
-/

namespace HaCluster

namespace Node.Data

/-- What is read under a key of a mapping. -/
theorem get?_decodable {α : Type} (dec : Decoder α) {m : Entries Value} (sorted : Entries.Sorted m)
    (key : String) :
    Entries.get? (decodable dec (some (.map m))) key
      = (Entries.get? m key).bind (fun v => (Decode.ofValue dec v).toOption) := by
  show Entries.get? (m.filterMap _) key = _
  induction m with
  | nil => rfl
  | cons e m ih =>
    obtain ⟨k, v⟩ := e
    obtain ⟨lt, sorted⟩ := Entries.sorted_cons.1 sorted
    have rest := ih sorted
    rw [List.filterMap_cons, Entries.get?_cons]
    by_cases same : k = key
    · subst same
      -- the keys are sorted, so none of the rest is read in the place of this one
      have gone : Entries.get? m k = none :=
        Entries.get?_eq_none_iff.2 fun e he => (String.ne_of_lt (lt e he)).symm
      rw [gone] at rest
      rw [if_pos rfl, Option.bind_some]
      cases Decode.ofValue dec v with
      | error e => exact rest
      | ok x => exact if_pos rfl
    · rw [if_neg same]
      cases Decode.ofValue dec v with
      | error e => exact rest
      | ok x => exact (if_neg same).trans rest

end Node.Data

namespace Daemon

variable {R : String → Entries Value → Prop} {d : Daemon} {node p : String} {at_ : Float}
  {live declared : List String}

/-- An instance that a node sees of itself is read from its document. -/
theorem Sound.instance?_viewOf (h : Sound R node d)
    (mapping : HasMapping d.store.data (Node.Blob.statuses node)) :
    (d.viewOf at_ live declared).instance? d.nodeName p
      = (d.store.data.lookup (Layout.serviceStatus node p)).bind
        (fun v => (Decode.ofValue Service.Instance.decode v).toOption) := by
  obtain ⟨m, hm⟩ := h.shaped.blobMap
  obtain ⟨st, hst, sorted⟩ := mapping
  have there : d.store.data.lookup (Layout.serviceStatus node p) = Entries.get? st p :=
    Value.lookup_key hst p
  have read : (Node.Data.ofValue (.map m)).instances
      = Node.Data.decodable Service.Instance.decode (some (.map st)) := by
    show Node.Data.decodable _ (((Value.map m).get? "services").bind _) = _
    rw [← lookup_services hm, show (Layout.services node).key "status" = Node.Blob.statuses node
      from rfl, hst]
  unfold View.instance?
  rw [trusted?_viewOf, localData?_viewOf, h.name, hm, there]
  show Entries.get? (Node.Data.ofValue (.map m)).instances p = _
  rw [read, Node.Data.get?_decodable _ sorted]

/-- **The record of an instance that a node sees** is the one it keeps. -/
theorem Sound.monitor_of_instance? (h : Sound R node d)
    (mapping : HasMapping d.store.data (Node.Blob.statuses node)) {i : Service.Instance}
    (seen : (d.viewOf at_ live declared).instance? d.nodeName p = some i) :
    i.monitor = Node.Blob.instanceMonitor d.store node p := by
  rw [h.instance?_viewOf mapping] at seen
  obtain ⟨v, there, read⟩ := Option.bind_eq_some_iff.1 seen
  obtain ⟨doc, rfl, -⟩ := h.shaped.document there
  exact Node.Blob.monitor_of_document there (Decode.eq_ok_of_toOption read)

/-! ## What is asked of a record -/

/-- A change of a record that is asked for edits the record. -/
theorem store_after_setInstance {now : Moment} {u : Service.Update} {changed : Bool} {s : Store}
    (run : Node.Blob.updateInstanceMonitor d.nodeName p now.wall u.apply d.store = .ok changed s) :
    (Step.after (serve now (.setInstance p u)) d).store = s := by
  have set : setInstanceMonitor p u now.wall d = _ := mutating_wakeIf run
  have served : serve now (.setInstance p u) d = .ok (Daemon.changed changed)
      (if changed then { d with store := s }.wake else { d with store := s }) := bind_ok set
  unfold Step.after
  rw [served]
  cases changed <;> rfl

/-- **Whatever is asked**, a record is `ready` since it is asked, or since it was
`ready` before. -/
theorem readyFrom_serve (rule : Node.Blob.Rule R) (h : Sound R node d) (now : Moment) {r : Request}
    (foreign : ∀ peer m, r = .peerMessage peer m → peer ≠ node)
    (finite : now.wall.isFinite = true)
    (dated : (Node.Blob.instanceMonitor d.store node p).state = .ready →
      (Node.Blob.instanceMonitor d.store node p).stateSince.isFinite = true) :
    (Node.Blob.instanceMonitor d.store node p).ReadyFrom now.wall
      (Node.Blob.instanceMonitor (Step.after (serve now r) d).store node p) := by
  by_cases changes : ∃ u, r = .setInstance p u
  · obtain ⟨u, rfl⟩ := changes
    obtain ⟨changed, s, run, -⟩ := Node.Blob.keeps_updateInstanceMonitor (p := p) rule now.wall
      u.apply d.store h.shaped
    rw [store_after_setInstance (h.name ▸ run)]
    exact Node.Blob.readyFrom_of_update run (fun _ => rfl) finite dated
  · have frame := Node.Blob.frame_record node p
    have since := since_serve frame (.of_frame frame trivial now.wall) (fun q u same => by
      rintro rfl
      exact changes ⟨u, same⟩) foreign d (since_refl frame h.name)
    rw [Node.Blob.instanceMonitor_eq, Node.Blob.instanceMonitor_eq, since.store.data]
    exact (Service.Monitor.Clears.refl _).readyFrom
end Daemon

end HaCluster
