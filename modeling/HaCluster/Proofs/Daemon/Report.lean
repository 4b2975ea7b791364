import HaCluster.Proofs.Daemon.Record
import HaCluster.Proofs.Node.Legible

/-!
# What a node says of its services

Of a service a node publishes the configuration, and a status document in which the
monitor keeps its record. Whatever else the node edits, to keep the configuration
and the rest of the document is a relation between trees like any other
(`frame_config`, `frame_report`). The record apart, the document then says the same,
as long as the record can be read (`avail_of_report`).

The node sees of its services what is there: the configurations that can be read and
break no rule (`Sound.localConfig?_viewOf`), and of each instance the status that its
document gives, or `unknown` if the document is missing or cannot be read
(`Sound.avail_viewOf`).
-/

namespace HaCluster

open Value Store Mutation

namespace Node.Blob

variable {node p : String} {v w : Value} {q : Path}

/-- The instance of a service on a node, if its document can be read. -/
def instance? (v : Value) (node p : String) : Option Service.Instance :=
  (v.lookup (Layout.serviceStatus node p)).bind
    fun x => (Decode.ofValue Service.Instance.decode x).toOption

/-- The configuration of a service on a node, if it can be read and breaks no rule. -/
def config? (v : Value) (node p : String) : Option Service.Config :=
  ((v.lookup (Layout.serviceConfig node p)).bind
    fun x => (Decode.ofValue Service.Config.decode x).toOption).filter Service.Config.isValid

/-- The instance of a service is seen, and something is known of its status. -/
def IsKnown (v : Value) (node p : String) : Prop :=
  ∃ i, instance? v node p = some i ∧ i.avail ≠ .unknown

/-- The instance of a service is seen, and it is down: its status is known, and
nothing of it runs. -/
def IsDown (v : Value) (node p : String) : Prop :=
  ∃ i, instance? v node p = some i ∧ i.avail ≠ .unknown ∧ i.avail.isRunning = false

theorem IsDown.isKnown (h : IsDown v node p) : IsKnown v node p := by
  obtain ⟨i, seen, known, -⟩ := h
  exact ⟨i, seen, known⟩

/-- What is known of an instance of which nothing runs: that it is down. -/
theorem IsKnown.isDown (h : IsKnown v node p)
    (rests : ∀ i, instance? v node p = some i → i.avail.isRunning = false) : IsDown v node p := by
  obtain ⟨i, seen, known⟩ := h
  exact ⟨i, seen, known, rests i seen⟩

/-! ## Edits that leave a service alone -/

theorem Makes.not_startsWith_config {q : Path} (h : Makes node q) :
    ¬ q.startsWith (Layout.serviceConfig node p) = true := by
  cases h with
  | document => exact (Path.apart_of_ne (p := Layout.services node) (by decide)).1
  | _ => exact Path.not_startsWith_of_length_lt (Nat.le_of_ble_eq_true rfl)

/-- **The configuration of a service** is left alone by edits beside it. -/
theorem frame_config (node p : String) :
    Frame (Path.Apart (Layout.serviceConfig node p)) (Makes node)
      (fun v w => w.lookup (Layout.serviceConfig node p)
        = v.lookup (Layout.serviceConfig node p)) :=
  (frame_lookup (Path.allKeys_ofKeys ["cluster", "nodes", node, "services", "config", p])).mono
    (fun _ hq => hq) fun _ hq => hq.not_startsWith_config

/-- Two trees have the same status document of a service, but for the record. -/
def SameReport (node p : String) (v w : Value) : Prop :=
  ∀ k, k ≠ "monitor" → w.lookup ((Layout.serviceStatus node p).key k)
    = v.lookup ((Layout.serviceStatus node p).key k)

/-- A path that lies beside the status document of a service, the record apart. -/
def BesideReport (node p : String) (q : Path) : Prop :=
  ∀ k, k ≠ "monitor" → ((Layout.serviceStatus node p).key k).Apart q

/-- **The report on a service** is left alone by edits beside it. -/
theorem frame_report (node p : String) :
    Frame (BesideReport node p) (Makes node) (SameReport node p) := by
  have each (k : String) := frame_lookup
    (Path.allKeys_ofKeys ["cluster", "nodes", node, "services", "status", p, k])
  exact {
    refl := fun _ _ _ => rfl
    trans := fun h h' k hk => (h' k hk).trans (h k hk)
    edit := fun beside change k hk => (each k).edit (beside k hk) change
    make := fun made absent change k _ => (each k).make
      (Path.not_startsWith_of_length_lt (Nat.lt_succ_of_le made.length_le)) absent change }

theorem besideReport_key {k : String} (hk : k ≠ "services") :
    BesideReport node p ((Layout.node node).key k) :=
  fun _ _ => Path.apart_of_ne (p := Layout.node node) hk.symm

theorem besideReport_record (q : String) : BesideReport node p (Layout.serviceMonitor node q) := by
  intro k hk
  by_cases same : p = q
  · subst same
    exact Path.apart_of_ne (p := Layout.serviceStatus node p) hk
  · exact Path.apart_of_ne (p := statuses node) same

theorem besideReport_instance {q : String} (ne : q ≠ p) :
    BesideReport node p (Layout.serviceStatus node q) :=
  fun _ _ => Path.apart_of_ne (p := statuses node) ne.symm

theorem besideReport_peer {n : String} (ne : n ≠ node) (r : Path) :
    BesideReport node p (Layout.node n ++ r) :=
  fun _ _ => Path.apart_of_ne (p := Layout.nodes) ne.symm

/-! ## Reports that are the same -/

/-- **The same report** gives the same status, if the record was one that can be read.
An instance that runs was there before. -/
theorem avail_of_report {R : String → Entries Value → Prop} {s s' : Store} (h : Shaped R node s)
    (h' : Shaped R node s') (legible : LegibleInstance node p s.data)
    (same : SameReport node p s.data s'.data) {i : Service.Instance}
    (seen : instance? s'.data node p = some i) (runs : i.avail.isRunning = true) :
    ∃ j, instance? s.data node p = some j ∧ j.avail = i.avail := by
  obtain ⟨x, there', read⟩ := Option.bind_eq_some_iff.1 seen
  obtain ⟨doc', rfl, sorted', -⟩ := h'.document there'
  have read' : Decode.ofValue Service.Instance.decode (.map doc') = .ok i :=
    Decode.eq_ok_of_toOption read
  -- what runs says so under a key of its document, which was there before
  obtain ⟨y, hy⟩ : ∃ y, Entries.get? doc' "avail" = some y := by
    rw [Service.Instance.avail_of_decode read'] at runs
    cases found : Entries.get? doc' "avail" with
    | none =>
      rw [found] at runs
      cases runs
    | some y => exact ⟨y, rfl⟩
  have key := (same "avail" (by decide)).symm.trans ((lookup_key there' "avail").trans hy)
  obtain ⟨doc, there⟩ := exists_map_of_lookup_key key
  obtain ⟨_, same', sorted, -⟩ := h.document there
  cases same'
  obtain ⟨j, found, avail⟩ := Service.Instance.decode_of_alike sorted sorted'
    (fun k hk => by rw [← lookup_key there', ← lookup_key there, same k hk])
    (fun z hz => by
      obtain ⟨m, read, -⟩ := legible z ((lookup_serviceMonitor there).trans hz)
      exact ⟨m, read⟩) read'
  refine ⟨j, ?_, avail⟩
  unfold instance?
  rw [there, Option.bind_some, found]
  rfl

end Node.Blob

namespace Daemon

variable {R : String → Entries Value → Prop} {d : Daemon} {node p : String} {at_ : Float}
  {live declared : List String}

/-- **The configuration of a local service** is the one that is there. -/
theorem Sound.localConfig?_viewOf (h : Sound R node d) (p : String) :
    (d.viewOf at_ live declared).localData?.bind (fun x => Entries.get? x.configs p)
      = Node.Blob.config? d.store.data node p := by
  obtain ⟨m, hm⟩ := h.shaped.blobMap
  obtain ⟨cf, hcf, sorted⟩ := h.shaped.services
  have there : d.store.data.lookup (Layout.serviceConfig node p) = Entries.get? cf p :=
    lookup_key hcf p
  have decoded : Entries.Sorted (Node.Data.decodable Service.Config.decode (some (.map cf))) :=
    List.Pairwise.sublist (keys_decodable_sublist _ cf) sorted
  rw [localData?_viewOf, h.name, hm]
  show Entries.get? ((Node.Data.decodable _ (((Value.map m).get? "services").bind _)).filter _) p
    = _
  rw [← lookup_services hm, show (Layout.services node).key "config" = Node.Blob.configs node
    from rfl, hcf, decoded.get?_filter, Node.Data.get?_decodable _ sorted, Node.Blob.config?, there]

/-- The local services are those that are configured. -/
theorem Sound.mem_localServices (h : Sound R node d) :
    p ∈ (d.viewOf at_ live declared).localServices
      ↔ (Node.Blob.config? d.store.data node p).isSome := by
  have config : (d.viewOf at_ live declared).localData?.bind (fun x => Entries.get? x.configs p)
      = Node.Blob.config? d.store.data node p := h.localConfig?_viewOf p
  rw [← config]
  unfold View.localServices
  cases (d.viewOf at_ live declared).localData? with
  | none => simp
  | some x =>
    exact Entries.isSome_get?_iff.symm

/-- **The status of a local instance** is the one that its document gives. -/
theorem Sound.avail_viewOf (h : Sound R node d)
    (mapping : HasMapping d.store.data (Node.Blob.statuses node)) (p : String) :
    (d.viewOf at_ live declared).avail d.nodeName p
      = ((Node.Blob.instance? d.store.data node p).map Service.Instance.avail).getD .unknown := by
  unfold View.avail
  rw [h.instance?_viewOf mapping]
  rfl

end Daemon

end HaCluster
