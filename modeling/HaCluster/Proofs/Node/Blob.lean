import HaCluster.Node.Blob
import HaCluster.Node.Data
import HaCluster.Proofs.Replication.Copy
import HaCluster.Proofs.Store.Keys

/-!
# The shape of the local blob

The daemon of a node writes into mappings of its own blob that it takes to be
there: that of the configurations, that of the instances, and the status
document of each instance. They are there from the start, and every mutation of
the blob keeps them (`Shaped`), so that none of these mutations ever fails.

What the status documents hold beside the records of the monitor is up to the
drivers. A rule on it is kept as long as the documents that are taken in keep
it, which is said once for all rules.
-/

namespace HaCluster.Node.Blob

open Value Store Mutation

/-- Where the status documents of the instances on a node lie. -/
def statuses (node : String) : Path := (Layout.services node).key "status"

/-- Where the configurations of the services on a node lie. -/
def configs (node : String) : Path := (Layout.services node).key "config"

/-- What is asked of the status documents of the services. The monitor may make
an empty one, and write its record into any. -/
structure Rule (R : String → Entries Value → Prop) : Prop where
  empty (p : String) : R p []
  monitor {p : String} {doc : Entries Value} (x : Value) :
    R p doc → R p (Entries.insert doc "monitor" x)

/-- What is asked of nothing. -/
def anything (_ : String) (_ : Entries Value) : Prop := True

theorem rule_anything : Rule anything := ⟨fun _ => trivial, fun _ _ => trivial⟩

variable {R : String → Entries Value → Prop} {node peer p k : String} {s s' : Store}
  {doc : Entries Value} {v x : Value} {y : Option Value}

/-- A status document as it may be stored. -/
def IsDocument (R : String → Entries Value → Prop) (p : String) (v : Value) : Prop :=
  ∃ doc, v = .map doc ∧ Entries.Sorted doc ∧ R p doc

/-- The blob of a node has the mappings that are written into. -/
structure Shaped (R : String → Entries Value → Prop) (node : String) (s : Store) : Prop where
  instances : ∃ st, s.data.lookup (statuses node) = some (.map st)
    ∧ ∀ e ∈ st, IsDocument R e.1 e.2
  services : ∃ cf, s.data.lookup (configs node) = some (.map cf) ∧ Entries.Sorted cf

/-! ## What a shaped blob has -/

namespace Shaped

theorem servicesMap (h : Shaped R node s) :
    ∃ m, s.data.lookup (Layout.services node) = some (.map m) :=
  let ⟨_, hc, _⟩ := h.services
  exists_map_of_lookup_key hc

theorem blobMap (h : Shaped R node s) : ∃ m, s.data.lookup (Layout.node node) = some (.map m) :=
  let ⟨_, hm⟩ := h.servicesMap
  exists_map_of_lookup_key hm

theorem hasNodes (h : Shaped R node s) : s.HasNodes :=
  let ⟨_, hm⟩ := h.blobMap
  exists_map_of_lookup_key hm

/-- The status document of an instance. -/
theorem document (h : Shaped R node s) (hv : s.data.lookup (Layout.serviceStatus node p) = some v) :
    IsDocument R p v := by
  obtain ⟨st, hst, docs⟩ := h.instances
  have found : Entries.get? st p = some v := (lookup_key hst p).symm.trans hv
  exact docs (p, v) (Entries.mem_of_get? found)

end Shaped

/-! ## What keeps the shape -/

/-- The shape is that of the blob alone. -/
theorem Shaped.congr (h : Shaped R node s)
    (same : s'.data.lookup (Layout.node node) = s.data.lookup (Layout.node node)) :
    Shaped R node s' := by
  have below (rest : Path) : s'.data.lookup (Layout.node node ++ rest)
      = s.data.lookup (Layout.node node ++ rest) := by
    rw [lookup_append, lookup_append, same]
  obtain ⟨st, hst, docs⟩ := h.instances
  obtain ⟨cf, hcf, sorted⟩ := h.services
  exact ⟨⟨st, (below [.key "services", .key "status"]).trans hst, docs⟩,
    cf, (below [.key "services", .key "config"]).trans hcf, sorted⟩

/-- A change of another key of the blob. -/
theorem Shaped.of_beside (h : Shaped R node s) (hk : k ≠ "services")
    (change : s.data.enact? ⟨(Layout.node node).key k, y⟩ = some s'.data) : Shaped R node s' := by
  have aside (last : String) : s'.data.lookup ((Layout.services node).key last)
      = s.data.lookup ((Layout.services node).key last) :=
    lookup_enact?_beside (p := Layout.node node) (q := [.key last])
      (Path.allKeys_ofKeys ["cluster", "nodes", node, "services", last]) hk.symm change
  obtain ⟨st, hst, docs⟩ := h.instances
  obtain ⟨cf, hcf, sorted⟩ := h.services
  exact ⟨⟨st, (aside "status").trans hst, docs⟩, cf, (aside "config").trans hcf, sorted⟩

/-- A change of the configurations. -/
theorem Shaped.of_config (h : Shaped R node s)
    (change : s.data.enact? ⟨(configs node).key p, y⟩ = some s'.data) : Shaped R node s' := by
  obtain ⟨st, hst, docs⟩ := h.instances
  obtain ⟨cf, hcf, sorted⟩ := h.services
  refine ⟨⟨st, ?_, docs⟩, ?_⟩
  · exact (lookup_enact?_beside (p := Layout.services node) (q := [])
      (Path.allKeys_ofKeys ["cluster", "nodes", node, "services", "status"]) (by decide)
      change).trans hst
  · obtain ⟨y', -, hcf'⟩ := lookup_enact?_map
      (Path.allKeys_ofKeys ["cluster", "nodes", node, "services", "config"]) (List.cons_ne_nil _ _)
      hcf change
    exact ⟨_, hcf', sorted.change p y'⟩

/-- A change of the instances or below, which leaves a document where it
happens, or nothing. -/
theorem Shaped.of_instance {r : Path} (h : Shaped R node s)
    (change : s.data.enact? ⟨statuses node ++ .key p :: r, y⟩ = some s'.data)
    (kept : ∀ st z v, s.data.lookup (statuses node) = some (.map st) →
      follow? (Entries.get? st p) ⟨r, y⟩ = some z → z = some v → IsDocument R p v) :
    Shaped R node s' := by
  obtain ⟨st, hst, docs⟩ := h.instances
  obtain ⟨cf, hcf, sorted⟩ := h.services
  refine ⟨?_, cf, ?_, sorted⟩
  · obtain ⟨z, hz, hst'⟩ := lookup_enact?_map
      (Path.allKeys_ofKeys ["cluster", "nodes", node, "services", "status"]) (List.cons_ne_nil _ _)
      hst change
    refine ⟨_, hst', fun e he => ?_⟩
    rcases Entries.mem_of_mem_change he with ⟨rfl, stored⟩ | he
    · exact kept st z e.2 hst hz stored
    · exact docs e he
  · exact (lookup_enact?_beside (p := Layout.services node) (q := [])
      (Path.allKeys_ofKeys ["cluster", "nodes", node, "services", "config"]) (by decide)
      change).trans hcf

/-- A change of a whole document. -/
theorem Shaped.of_status (h : Shaped R node s)
    (change : s.data.enact? ⟨Layout.serviceStatus node p, y⟩ = some s'.data)
    (new : ∀ v, y = some v → IsDocument R p v) : Shaped R node s' := by
  refine h.of_instance (r := []) change (fun st z v _ hz hv => new v ?_)
  cases hz
  exact hv

/-- A change of one key of a document. -/
theorem Shaped.of_key (h : Shaped R node s)
    (change : s.data.enact? ⟨(Layout.serviceStatus node p).key k, y⟩ = some s'.data)
    (kept : ∀ doc, R p doc → R p (Entries.change doc k y)) : Shaped R node s' := by
  have path : (Layout.serviceStatus node p).key k = statuses node ++ .key p :: [.key k] := by
    simp [Layout.serviceStatus, statuses, Path.key, Path.child]
  rw [path] at change
  refine h.of_instance change (fun st z v hst hz hv => ?_)
  obtain ⟨c, c', hc, he, rfl⟩ := (follow?_eq_some_iff (List.cons_ne_nil _ _)).1 hz
  cases hv
  obtain ⟨doc, rfl, sorted, hdoc⟩ :=
    let ⟨st', hst', docs⟩ := h.instances
    have same : st = st' := by
      rw [hst] at hst'
      injection hst' with hst'
      injection hst'
    docs (p, c) (same ▸ Entries.mem_of_get? hc)
  obtain ⟨-, y', hy', rfl⟩ := enact?_key.1 he
  cases hy'
  exact ⟨_, rfl, sorted.change k y, kept doc hdoc⟩

/-! ## The mutations of the blob -/

/-- From every store with a shaped blob a mutation succeeds, and leaves the
blob shaped. -/
def Keeps {α : Type} (R : String → Entries Value → Prop) (node : String) (m : Mutation α) : Prop :=
  Takes (Shaped R node) m (Shaped R node)

/-- The blob is shaped, and an instance has its document. -/
def HasDocument (R : String → Entries Value → Prop) (node p : String) (s : Store) : Prop :=
  Shaped R node s ∧ ∃ doc, s.data.lookup (Layout.serviceStatus node p) = some (.map doc)

/-- A status document may be taken in key by key. -/
structure Accepts (R : String → Entries Value → Prop) (p : String) (new : Entries Value) :
    Prop where
  erase {doc : Entries Value} (k : String) : R p doc → R p (Entries.erase doc k)
  insert {doc : Entries Value} {e : String × Value} (mem : e ∈ Entries.erase new "monitor") :
    R p doc → R p (Entries.insert doc e.1 e.2)

theorem accepts_anything (p : String) (new : Entries Value) : Accepts anything p new :=
  ⟨fun _ _ => trivial, fun _ _ => trivial⟩

theorem keeps_setKey (hk : k ≠ "services") :
    Keeps R node (Store.set ((Layout.node node).key k) x) := by
  intro s h
  obtain ⟨m, hm⟩ := h.blobMap
  obtain ⟨fs, s', stored, change⟩ := set_key_ok hm
  exact ⟨fs, s', stored, h.of_beside hk change⟩

theorem keeps_updateMonitor (at_ : Float) (edit : Node.Monitor → Node.Monitor) :
    Keeps R node (updateMonitor node at_ edit) := by
  intro s h
  unfold updateMonitor
  dsimp only
  split
  · exact ⟨_, s, rfl, h⟩
  · exact takes_bind (keeps_setKey (by decide)) (fun _ => takes_pure _ (fun _ h => h)) s h

theorem keeps_setFrozen (frozen : Bool) (at_ : Float) :
    Keeps R node (setFrozen node frozen at_) := by
  intro s h
  unfold setFrozen
  split
  · exact ⟨_, s, rfl, h⟩
  · exact takes_bind (keeps_setKey (by decide)) (fun _ => takes_pure _ (fun _ h => h)) s h

theorem keeps_stamp (running : Nat) (at_ : Float) : Keeps R node (stamp node running at_) :=
  takes_bind (keeps_setKey (by decide)) fun _ =>
    takes_bind (keeps_setKey (by decide)) fun _ => takes_pure _ (fun _ h => h)

/-- A document that is there is not made. -/
theorem ensureInstance_there (there : s.data.lookup (Layout.serviceStatus node p) = some v) :
    ensureInstance node p s = .ok () s := by
  obtain ⟨m, mapping⟩ := exists_map_of_lookup_key there
  obtain ⟨d, services⟩ := exists_map_of_lookup_key mapping
  exact (bind_ok (setIfAbsent_there services)).trans
    ((bind_ok (setIfAbsent_there mapping)).trans (bind_ok (setIfAbsent_there there)))

theorem keysAt_of_lookup {q : Path} (there : s.data.lookup q = some (.map doc)) :
    keysAt s q = Entries.keys doc := by
  unfold keysAt Store.getD
  rw [there]
  rfl

/-- A mapping that is there is not made again. -/
theorem keeps_makeServices : Keeps R node (Store.setIfAbsent (Layout.services node) x) := by
  intro s h
  obtain ⟨m, hm⟩ := h.servicesMap
  exact ⟨[], s, setIfAbsent_there hm, h⟩

theorem takes_ensureInstance (rule : Rule R) :
    Takes (Shaped R node) (ensureInstance node p) (HasDocument R node p) := by
  refine takes_bind keeps_makeServices fun _ => takes_bind (Q := Shaped R node) ?_ fun _ =>
    takes_bind (Q := HasDocument R node p) ?_ fun _ => takes_pure _ (fun _ h => h)
  · intro s h
    obtain ⟨st, hst, -⟩ := h.instances
    exact ⟨[], s, setIfAbsent_there hst, h⟩
  · intro s h
    obtain ⟨st, hst, -⟩ := h.instances
    obtain ⟨fs, s', stored, change⟩ := setIfAbsent_key_ok (k := p) (x := Value.empty) hst
    refine ⟨fs, s', stored, ?_⟩
    rcases change with ⟨same, there⟩ | change
    · obtain ⟨v, hv⟩ := Option.isSome_iff_exists.1 there
      obtain ⟨doc, rfl, -⟩ := h.document hv
      exact ⟨h.congr (by rw [same]), doc, by rw [same]; exact hv⟩
    · refine ⟨h.of_status change ?_, [], ?_⟩
      · rintro v ⟨⟩
        exact ⟨[], rfl, Entries.Sorted.nil, rule.empty p⟩
      · have stored := follow?_lookup (r := [])
          (Path.allKeys_ofKeys ["cluster", "nodes", node, "services", "status", p])
          (List.cons_ne_nil _ _) change
        exact (Option.some.inj stored).symm

/-- One key of a document is stored. -/
theorem takes_setDocumentKey (new : ∀ doc, R p doc → R p (Entries.insert doc k x)) :
    Takes (HasDocument R node p) (Store.set ((Layout.serviceStatus node p).key k) x)
      (HasDocument R node p) := by
  rintro s ⟨h, doc, hdoc⟩
  obtain ⟨fs, s', stored, change⟩ := set_key_ok (k := k) (x := x) hdoc
  obtain ⟨z, -, hdoc'⟩ := lookup_enact?_map (r := [])
    (Path.allKeys_ofKeys ["cluster", "nodes", node, "services", "status", p]) (List.cons_ne_nil _ _)
    hdoc change
  exact ⟨fs, s', stored, h.of_key change new, _, hdoc'⟩

theorem takes_writeInstanceMonitor (rule : Rule R) (at_ : Float)
    (edit : Service.Monitor → Service.Monitor) :
    Takes (HasDocument R node p) (writeInstanceMonitor node p at_ edit) (Shaped R node) := by
  intro s h
  unfold writeInstanceMonitor
  dsimp only
  split
  · exact ⟨_, s, rfl, h.1⟩
  · exact takes_bind (takes_setDocumentKey fun _ => rule.monitor _)
      (fun _ => takes_pure _ (fun _ h => h.1)) s h

/-- **The record of an instance can always be written.** -/
theorem keeps_updateInstanceMonitor (rule : Rule R) (at_ : Float)
    (edit : Service.Monitor → Service.Monitor) :
    Keeps R node (updateInstanceMonitor node p at_ edit) :=
  takes_bind (takes_ensureInstance rule) fun _ => takes_writeInstanceMonitor rule at_ edit

/-- Keys that a document has can be dropped one after the other. What the
removal of a key keeps is kept. -/
theorem takes_dropOldKeys {I : Store → Prop} {new : Entries Value} {keys : List String}
    (drop : ∀ {s s' : Store} {key : String}, I s →
      s.data.enact? ⟨(Layout.serviceStatus node p).key key, none⟩ = some s'.data → I s')
    (nodup : keys.Nodup) :
    Takes (fun s => I s ∧ ∃ doc, s.data.lookup (Layout.serviceStatus node p) = some (.map doc)
          ∧ ∀ key ∈ keys, (Entries.get? doc key).isSome)
      (dropOldKeys node p new keys)
      (fun s => I s ∧ ∃ doc, s.data.lookup (Layout.serviceStatus node p) = some (.map doc)) := by
  induction keys with
  | nil => exact takes_pure _ fun s ⟨h, doc, hdoc, _⟩ => ⟨h, doc, hdoc⟩
  | cons key keys ih =>
    -- a key that is dropped is not dropped again, so the others are still there
    obtain ⟨fresh, nodup⟩ := List.nodup_cons.1 nodup
    unfold dropOldKeys
    dsimp only
    split
    · refine takes_bind (Q := fun s => I s ∧ ∃ doc,
        s.data.lookup (Layout.serviceStatus node p) = some (.map doc)
          ∧ ∀ key ∈ keys, (Entries.get? doc key).isSome) ?_ fun _ => ih nodup
      rintro s ⟨h, doc, hdoc, there⟩
      obtain ⟨fs, s', gone, change⟩ := unset_key_ok hdoc (there key List.mem_cons_self)
      obtain ⟨z, hz, hdoc'⟩ := lookup_enact?_map (r := [])
        (Path.allKeys_ofKeys ["cluster", "nodes", node, "services", "status", p])
        (List.cons_ne_nil _ _) hdoc change
      cases hz
      refine ⟨fs, s', gone, drop h change, _, hdoc', ?_⟩
      intro k' hk'
      have ne : k' ≠ key := fun same => fresh (same ▸ hk')
      rw [Entries.get?_change, if_neg ne]
      exact there k' (List.mem_cons_of_mem key hk')
    · rintro s ⟨h, doc, hdoc, there⟩
      exact ih nodup s ⟨h, doc, hdoc, fun k' hk' => there k' (List.mem_cons_of_mem key hk')⟩

theorem nodup_keys {m : Entries Value} (h : Entries.Sorted m) : (Entries.keys m).Nodup :=
  h.imp String.ne_of_lt

/-- **A document that is accepted can always be taken in.** -/
theorem keeps_replaceStatus (rule : Rule R) {new : Entries Value} (accepts : Accepts R p new) :
    Keeps R node (replaceStatus node p new) := by
  refine takes_bind (takes_ensureInstance rule) fun _ => takes_get_bind fun s => ?_
  refine takes_bind (Q := HasDocument R node p) ?_ fun _ => ?_
  · rintro t ⟨rfl, h, doc, hdoc⟩
    obtain ⟨doc', same, sorted, -⟩ := h.document hdoc
    cases same
    rw [keysAt_of_lookup hdoc]
    exact takes_dropOldKeys (fun h change => h.of_key change fun _ => accepts.erase _)
      (nodup_keys sorted) t ⟨h, doc, hdoc, fun _ => Entries.isSome_get?_iff.2⟩
  · refine takes_bind (Q := HasDocument R node p) ?_ fun _ => takes_pure _ (fun _ h => h.1)
    refine takes_bind (Q := HasDocument R node p) ?_ fun _ => ?_
    · rintro t ⟨h, doc, hdoc⟩
      exact ⟨[], t, setIfAbsent_there hdoc, h, doc, hdoc⟩
    · exact takes_bind (takes_mapM fun e he => takes_setDocumentKey fun _ => accepts.insert he)
        fun _ => takes_pure _ (fun _ h => h)

theorem keeps_publishConfig (p : String) (config : Value) :
    Keeps R node (publishConfig node p config) := by
  refine takes_bind keeps_makeServices fun _ => takes_bind (Q := Shaped R node) ?_ fun _ =>
    takes_bind (Q := Shaped R node) ?_ fun _ => takes_pure _ (fun _ h => h)
  · intro s h
    obtain ⟨cf, hcf, -⟩ := h.services
    exact ⟨[], s, setIfAbsent_there hcf, h⟩
  · intro s h
    obtain ⟨cf, hcf, -⟩ := h.services
    obtain ⟨fs, s', stored, change⟩ := set_key_ok (k := p) (x := config) hcf
    exact ⟨fs, s', stored, h.of_config change⟩

theorem keeps_withdrawConfig (p : String) : Keeps R node (withdrawConfig node p) := by
  refine takes_bind (Q := Shaped R node) ?_ fun _ => takes_pure _ (fun _ h => h)
  intro s h
  obtain ⟨cf, hcf, -⟩ := h.services
  obtain ⟨fs, s', gone, change⟩ := unsetIfPresent_key_ok (k := p) hcf
  refine ⟨fs, s', gone, ?_⟩
  rcases change with same | change
  · exact h.congr (by rw [same])
  · exact h.of_config change

theorem keeps_dropInstance (p : String) : Keeps R node (dropInstance node p) := by
  refine takes_bind (Q := Shaped R node) ?_ fun _ => takes_pure _ (fun _ h => h)
  intro s h
  obtain ⟨st, hst, -⟩ := h.instances
  obtain ⟨fs, s', gone, change⟩ := unsetIfPresent_key_ok (k := p) hst
  refine ⟨fs, s', gone, ?_⟩
  rcases change with same | change
  · exact h.congr (by rw [same])
  · exact h.of_status change nofun

/-! ## The copies of the peers -/

/-- What happens to the copy of a peer leaves the blob alone. -/
theorem Shaped.of_peer {r : Path} (h : Shaped R node s) (ne : peer ≠ node)
    (change : s.data.enact? ⟨Layout.node peer ++ r, y⟩ = some s'.data) : Shaped R node s' := by
  have path : Layout.node peer ++ r = Layout.nodes ++ .key peer :: r := by
    rw [Layout.node, Path.key, Path.child, List.append_assoc, List.singleton_append]
  rw [path] at change
  exact h.congr (lookup_enact?_beside (p := Layout.nodes) (q := [])
    (Path.allKeys_ofKeys ["cluster", "nodes", node]) ne.symm change)

theorem keeps_storeCopy (ne : peer ≠ node) (blob : Value) :
    Keeps R node (PeerTable.storeCopy peer blob) := by
  refine takes_bind (Q := Shaped R node) ?_ fun _ => takes_bind (Q := Shaped R node) ?_ fun _ =>
    takes_pure _ (fun _ h => h)
  · intro s h
    obtain ⟨m, hm⟩ := h.hasNodes
    exact ⟨[], s, setIfAbsent_there hm, h⟩
  · intro s h
    obtain ⟨m, hm⟩ := h.hasNodes
    obtain ⟨fs, s', stored, change⟩ := set_key_ok (k := peer) (x := blob) hm
    exact ⟨fs, s', stored, h.of_peer (r := []) ne change⟩

/-- A patch of a peer, whether it can be replayed or not. -/
theorem Shaped.patch (h : Shaped R node s) (ne : peer ≠ node) (fs : List Fragment) :
    Shaped R node (s.patch (Layout.node peer) fs).2 := by
  rw [patch_eq]
  generalize ([] : List (Fragment × DataError)) = failures
  obtain ⟨data, journal, queue⟩ := s
  induction fs generalizing failures data with
  | nil => exact h
  | cons f fs ih =>
    rw [List.foldl_cons, tryFragment]
    dsimp only
    cases replayed : data.apply (f.rebase (Layout.node peer)) with
    | error e => exact ih _ _ h
    | ok v =>
      refine ih _ _ ?_
      rcases enact?_of_apply replayed with rfl | change
      · exact h
      · have kept : Shaped R node ⟨v, journal, queue⟩ := h.of_peer ne change
        exact kept

/-- **A message of a peer** leaves the blob shaped, whatever becomes of it. -/
theorem Shaped.receive (h : Shaped R node s) (ne : peer ≠ node) (t : PeerTable) (m : Message) :
    Shaped R node (t.receive s peer m).2.2 := by
  obtain ⟨id, time, payload⟩ := m
  unfold PeerTable.receive
  cases payload with
  | full blob =>
    obtain ⟨a, s', stored, h'⟩ := keeps_storeCopy ne blob s h
    dsimp only
    rw [stored]
    exact h'
  | patch changes =>
    cases t.trust peer with
    | untrusted => exact h
    | inSync last =>
      dsimp only
      split
      · exact h
      · split
        · exact h
        · have patched := h.patch ne changes
          generalize s.patch (Layout.node peer) changes = r at patched
          obtain ⟨failure, s'⟩ := r
          cases failure <;> exact patched

theorem keeps_forgetPeer (ne : peer ≠ node) :
    Keeps R node (Store.unsetIfPresent (Layout.node peer)) := by
  intro s h
  obtain ⟨m, hm⟩ := h.hasNodes
  obtain ⟨fs, s', gone, change⟩ := unsetIfPresent_key_ok (k := peer) hm
  refine ⟨fs, s', gone, ?_⟩
  rcases change with same | change
  · exact h.congr (by rw [same])
  · exact h.of_peer (r := []) ne change

end HaCluster.Node.Blob
