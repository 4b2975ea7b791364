import HaCluster.Proofs.Daemon.Requests
import HaCluster.Proofs.Tree.Entries

/-!
# What a daemon sees of itself

In its own picture of the cluster a node finds the blob that lies in its store,
whatever the age of it. From a blob that has its shape the configurations are
read once each.
-/

namespace HaCluster

namespace Value

variable {v : Value} {k n : String}

theorem get?_asMap (x : Option Value) (n : String) :
    Entries.get? ((x.bind asMap?).getD []) n = x.bind (fun v => v.get? n) := by
  cases x with
  | none => rfl
  | some v => cases v <;> rfl

end Value

namespace View

/-- The blob of a node is found where the layout has it. -/
theorem get?_blobs (snapshot : Value) (node : String) :
    Entries.get? (blobs snapshot) node = snapshot.lookup (Layout.node node) := by
  unfold blobs
  rw [Value.get?_asMap, Value.get?_eq_lookup, Option.bind_assoc,
    show Layout.node node = [.key "cluster"] ++ ([.key "nodes"] ++ [.key node]) from rfl,
    Value.lookup_append]
  refine Option.bind_congr fun c _ => ?_
  rw [Value.get?_eq_lookup, Value.lookup_append]
  exact Option.bind_congr fun d _ => Value.get?_eq_lookup d node

end View

namespace Daemon

variable {R : String → Entries Value → Prop} {d : Daemon} {node : String} {at_ : Float}
  {live declared : List String}

/-- The local data is that of the local blob. -/
theorem localData?_viewOf :
    (d.viewOf at_ live declared).localData?
      = (d.store.data.lookup (Layout.node d.nodeName)).map Node.Data.ofValue := by
  rw [← View.get?_blobs]
  exact Entries.get?_mapValues _ _ _

/-- A node trusts itself. -/
theorem trusted?_viewOf :
    (d.viewOf at_ live declared).trusted? d.nodeName = (d.viewOf at_ live declared).localData? := by
  have alive : (d.viewOf at_ live declared).isAlive d.nodeName = true :=
    List.contains_iff_mem.mpr List.mem_cons_self
  have stale : (d.viewOf at_ live declared).isStale d.nodeName = false := if_pos rfl
  unfold View.trusted? View.localData?
  rw [alive, stale]
  rfl

/-- What is read off the services of a blob lies where the layout has it. -/
theorem lookup_services {v : Value} {m : Entries Value}
    (hm : v.lookup (Layout.node node) = some (.map m)) (last : String) :
    v.lookup ((Layout.services node).key last)
      = ((Value.map m).get? "services").bind (fun s => s.get? last) := by
  rw [show (Layout.services node).key last
      = Layout.node node ++ ([.key "services"] ++ [.key last]) from rfl,
    Value.lookup_append, hm, Option.bind_some, Value.lookup_append, Value.get?_eq_lookup]
  exact Option.bind_congr fun c _ => (Value.get?_eq_lookup c last).symm

/-- The data of a blob in its shape: what its instances and configurations are
read from. -/
theorem Sound.localData? (h : Sound R node d) (at_ : Float) (live declared : List String) :
    ∃ data st cf, (d.viewOf at_ live declared).localData? = some data
      ∧ data.instances = Node.Data.decodable Service.Instance.decode (some (.map st))
      ∧ (∀ e ∈ st, Node.Blob.IsDocument R e.1 e.2)
      ∧ data.configs = (Node.Data.decodable Service.Config.decode (some (.map cf))).filter
          (fun e => e.2.isValid)
      ∧ Entries.Sorted cf := by
  obtain ⟨m, hm⟩ := h.shaped.blobMap
  obtain ⟨st, hst, docs⟩ := h.shaped.instances
  obtain ⟨cf, hcf, sorted⟩ := h.shaped.services
  have below := lookup_services hm
  refine ⟨Node.Data.ofValue (.map m), st, cf, ?_, ?_, docs, ?_, sorted⟩
  · rw [localData?_viewOf, h.name, hm]
    rfl
  · show Node.Data.decodable _ (((Value.map m).get? "services").bind _) = _
    rw [← below, show (Layout.services node).key "status" = Node.Blob.statuses node from rfl, hst]
  · show (Node.Data.decodable _ (((Value.map m).get? "services").bind _)).filter _ = _
    rw [← below, show (Layout.services node).key "config" = Node.Blob.configs node from rfl, hcf]

/-- The keys that decode are some of the keys. -/
theorem keys_decodable_sublist {α : Type} (dec : Decoder α) (m : Entries Value) :
    (Entries.keys (Node.Data.decodable dec (some (.map m)))).Sublist (Entries.keys m) := by
  show (Entries.keys (m.filterMap _)).Sublist _
  induction m with
  | nil => exact List.Sublist.slnil
  | cons e m ih =>
    rw [List.filterMap_cons]
    cases Decode.ofValue dec e.2 with
    | ok x => exact ih.cons_cons e.1
    | error _ => exact ih.cons e.1

/-- **Each local service is decided about once.** -/
theorem Sound.nodup_localServices (h : Sound R node d) :
    (d.viewOf at_ live declared).localServices.Nodup := by
  obtain ⟨data, st, cf, local_, -, -, configs, sorted⟩ := h.localData? at_ live declared
  unfold View.localServices
  rw [local_]
  show (Entries.keys data.configs).Nodup
  rw [configs]
  exact (Node.Blob.nodup_keys sorted).sublist
    ((List.filter_sublist.map Prod.fst).trans (keys_decodable_sublist _ cf))

end Daemon

end HaCluster
