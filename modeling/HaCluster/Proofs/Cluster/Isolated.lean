import HaCluster.Cluster.Parents
import HaCluster.Proofs.Cluster.Hidden
import HaCluster.Proofs.Daemon.Record
import HaCluster.Proofs.Tree.Keep
import Mathlib.Tactic.Simps.Basic

/-!
# The view without one service

What a view knows of one service are the instances and the configurations that
the nodes publish of it. Without them (`without`) every other service is seen as
before: its instances, its configuration, and who of its scope runs it. Only a
list that all services are searched for can lose something, that of the children
of a service, and it does so only if the service that is taken away names the
other one as a parent (`children_without`).

Two snapshots that differ only where the records of one service lie
(`SameButFor`), and that may be malformed there, give the same view without it
(`Basis.view_without`).
-/

namespace HaCluster

/-- A configuration names a service as a parent. -/
def Service.Config.Names (c : Service.Config) (path : String) : Prop :=
  ∃ parent ∈ c.parents, (ParentRef.ofText parent).path = path

/-- The blob without the records of a service. -/
@[simps] def Node.Data.without (d : Node.Data) (x : String) : Node.Data :=
  { d with instances := Entries.erase d.instances x, configs := Entries.erase d.configs x }

namespace View

/-- The view without the records of a service. -/
@[simps] def without (v : View) (x : String) : View :=
  { v with nodes := Entries.mapValues (fun d => d.without x) v.nodes }

variable {v : View} {x y n path : String}

/-! ## The nodes -/

@[simp] theorem node?_without (v : View) (x n : String) :
    (v.without x).node? n = (v.node? n).map (fun d => d.without x) :=
  Entries.get?_mapValues (fun d : Node.Data => d.without x) v.nodes n

@[simp] theorem knownNodes_without (v : View) (x : String) :
    (v.without x).knownNodes = v.knownNodes :=
  Entries.keys_mapValues (fun d : Node.Data => d.without x) v.nodes

@[simp] theorem clusterNodes_without (v : View) (x : String) :
    (v.without x).clusterNodes = v.clusterNodes :=
  congrArg (fun l => List.foldl _ _ (l ++ _)) (knownNodes_without v x)

theorem isStale_without (v : View) (x n : String) : (v.without x).isStale n = v.isStale n := by
  unfold isStale
  rw [node?_without]
  cases v.node? n <;> rfl

@[simp] theorem trusted?_without (v : View) (x n : String) :
    (v.without x).trusted? n = (v.trusted? n).map (fun d => d.without x) := by
  show (if (v.isAlive n && !(v.without x).isStale n) = true then (v.without x).node? n else none) = _
  rw [isStale_without, node?_without, trusted?]
  split <;> rfl

/-! ## Another service -/

theorem instance?_without (other : path ≠ x) (n : String) :
    (v.without x).instance? n path = v.instance? n path := by
  unfold instance?
  rw [trusted?_without, Option.bind_map]
  exact Option.bind_congr fun d _ => Entries.get?_erase_of_ne d.instances other

theorem avail_without (other : path ≠ x) (n : String) :
    (v.without x).avail n path = v.avail n path := by
  rw [avail, avail, instance?_without other]

theorem serviceConfig?_without (other : path ≠ x) :
    (v.without x).serviceConfig? path = v.serviceConfig? path := by
  have config (found : Option Node.Data) :
      (found.map (fun d => d.without x)).bind (fun d => Entries.get? d.configs path)
        = found.bind (fun d => Entries.get? d.configs path) := by
    rw [Option.bind_map]
    exact Option.bind_congr fun d _ => Entries.get?_erase_of_ne d.configs other
  unfold serviceConfig? localData?
  rw [node?_without, without_localNode, config, clusterNodes_without]
  simp only [trusted?_without, config]

theorem runningOn_without (other : path ≠ x) :
    (v.without x).runningOn path = v.runningOn path := by
  simp only [runningOn, serviceConfig?_without other, avail_without other, clusterNodes_without]

theorem upCount_without (other : path ≠ x) : (v.without x).upCount path = v.upCount path := by
  simp only [upCount, serviceConfig?_without other, avail_without other]

theorem scopeInstances_without (other : path ≠ x) :
    (v.without x).scopeInstances path = v.scopeInstances path := by
  simp only [scopeInstances, serviceConfig?_without other, instance?_without other]

theorem parentState_without {parent : String}
    (other : (Service.ParentRef.ofText parent).path ≠ x) :
    (v.without x).parentState parent = v.parentState parent := by
  unfold parentState
  cases ref : Service.ParentRef.ofText parent with
  | pinned p n =>
    have other : p ≠ x := fun same => other (by rw [ref]; exact same)
    simp only [avail_without other]
  | anywhere p =>
    have other : p ≠ x := fun same => other (by rw [ref]; exact same)
    simp only [serviceConfig?_without other, avail_without other]

/-- **Parents other than the service** are seen as before. -/
theorem parentsState_without {c : Service.Config} (other : ¬ c.Names x) :
    (v.without x).parentsState c.parents = v.parentsState c.parents := by
  have same : c.parents.map (v.without x).parentState = c.parents.map v.parentState :=
    List.map_congr_left fun p hp => parentState_without fun named => other ⟨p, hp, named⟩
  rw [parentsState, parentsState, same]

/-! ## The children

A service is a child if the configuration that is published of it names the
parent. The published configurations are gathered node by node, and gathering
them without one service is the same as taking it out afterwards. -/

section Gather

variable {α : Type}

/-- The first entry under a key counts. -/
def gather (m : Entries α) (e : String × α) : Entries α :=
  if Entries.contains m e.1 then m else Entries.insert m e.1 e.2

theorem sorted_gather {m : Entries α} (hm : m.Sorted) (e : String × α) :
    (gather m e).Sorted := by
  unfold gather
  split
  · exact hm
  · exact hm.insert e.1 e.2

theorem erase_gather {m : Entries α} (hm : m.Sorted) (e : String × α) (x : String) :
    Entries.erase (gather m e) x
      = if e.1 = x then Entries.erase m x else gather (Entries.erase m x) e := by
  refine ((sorted_gather hm e).erase x).ext ?_ fun k => ?_
  · split
    · exact hm.erase x
    · exact sorted_gather (hm.erase x) e
  · unfold gather Entries.contains
    by_cases same : e.1 = x
    · rw [if_pos same]
      split
      · rfl
      · rw [Entries.get?_erase, Entries.get?_erase, Entries.get?_insert, same]
        by_cases hk : k = x <;> simp [hk]
    · rw [if_neg same, Entries.get?_erase_of_ne m same]
      split
      · rfl
      · simp only [Entries.get?_erase, Entries.get?_insert]
        by_cases hk : k = e.1
        · simp [hk, same]
        · simp [hk]

theorem erase_foldl_gather (l : List (String × α)) {m : Entries α} (hm : m.Sorted) (x : String) :
    Entries.erase (l.foldl gather m) x = (Entries.erase l x).foldl gather (Entries.erase m x) := by
  induction l generalizing m with
  | nil => rfl
  | cons e l ih =>
    rw [List.foldl_cons, ih (sorted_gather hm e), erase_gather hm]
    by_cases same : e.1 = x <;> simp [Entries.erase, same]

theorem mem_of_mem_foldl_gather {l : List (String × α)} {m : Entries α} {e : String × α}
    (h : e ∈ l.foldl gather m) : e ∈ l ∨ e ∈ m := by
  induction l generalizing m with
  | nil => exact .inr h
  | cons a l ih =>
    rcases ih h with there | gathered
    · exact .inl (List.mem_cons_of_mem a there)
    · unfold gather at gathered
      split at gathered
      · exact .inr gathered
      · rcases Entries.mem_of_mem_insert gathered with rfl | before
        · exact .inl List.mem_cons_self
        · exact .inr before

end Gather

theorem publishedConfigs_without (v : View) (x : String) :
    (v.without x).publishedConfigs = Entries.erase v.publishedConfigs x := by
  have lists : ((v.without x).knownNodes.filterMap (v.without x).trusted?).flatMap
        Node.Data.configs
      = Entries.erase ((v.knownNodes.filterMap v.trusted?).flatMap Node.Data.configs) x := by
    rw [knownNodes_without, funext (trusted?_without v x), ← List.map_filterMap,
      List.flatMap_map, Entries.erase, List.filter_flatMap]
    rfl
  show List.foldl gather [] _ = Entries.erase (List.foldl gather [] _) x
  rw [lists, erase_foldl_gather _ Entries.Sorted.nil]
  rfl

/-- A configuration that is published lies in the blob of a node. -/
theorem exists_node_of_mem_publishedConfigs {e : String × Service.Config}
    (h : e ∈ v.publishedConfigs) : ∃ n d, v.node? n = some d ∧ e ∈ d.configs := by
  rcases mem_of_mem_foldl_gather (m := []) h with there | none
  · obtain ⟨d, hd, he⟩ := List.mem_flatMap.1 there
    obtain ⟨n, -, trusted⟩ := List.mem_filterMap.1 hd
    unfold trusted? at trusted
    split at trusted
    · exact ⟨n, d, trusted, he⟩
    · cases trusted
  · cases none

/-- No node publishes a configuration of one service that names another one as
a parent. -/
def Spares (v : View) (x y : String) : Prop :=
  ∀ n d, v.node? n = some d → ∀ c, (x, c) ∈ d.configs → ¬ c.Names y

/-- **The children are the same** without a service that does not name the
parent. -/
theorem children_without (spares : v.Spares x y) :
    (v.without x).children y = v.children y := by
  unfold children
  rw [publishedConfigs_without, Entries.erase, List.filter_filter]
  refine congrArg _ (List.filter_congr fun e he => ?_)
  by_cases same : e.1 = x
  · -- a configuration of the service is no reason to list it as a child
    obtain ⟨n, d, node, published⟩ := exists_node_of_mem_publishedConfigs he
    have silent : ¬ e.2.Names y := spares n d node e.2 (same ▸ published)
    simpa [same, Service.Config.Names] using silent
  · simp [same]

theorem ne_of_mem_children_without {c : String} (h : c ∈ (v.without x).children y) : c ≠ x := by
  unfold children at h
  rw [publishedConfigs_without] at h
  obtain ⟨e, he, rfl⟩ := List.mem_map.1 h
  simpa using (List.mem_filter.1 (List.mem_filter.1 he).1).2

end View

/-! ## Snapshots that differ in the records of one service -/

/-- A path leads neither to the instance nor to the configuration of a service on
any node, and not into one of them. -/
def Path.Beside (x : String) (p : Path) : Prop :=
  ∀ n, p.Apart (Layout.serviceStatus n x) ∧ p.Apart (Layout.serviceConfig n x)

namespace Path

variable {x y n k : String}

/-- What a blob holds apart from its services lies beside each of them. -/
theorem beside_field (hk : k ≠ "services") : Beside x (Layout.node n ++ [.key k]) := by
  intro m
  by_cases hm : n = m
  · subst hm
    exact ⟨apart_of_ne (p := Layout.node n) hk, apart_of_ne (p := Layout.node n) hk⟩
  · exact ⟨apart_of_ne (p := Layout.nodes) hm, apart_of_ne (p := Layout.nodes) hm⟩

/-- The instances of the other services lie beside a service. -/
theorem beside_serviceStatus (hy : y ≠ x) : Beside x (Layout.serviceStatus n y) := by
  intro m
  by_cases hm : n = m
  · subst hm
    exact ⟨apart_of_ne (p := (Layout.services n).key "status") hy,
      apart_of_ne (p := Layout.services n) (by decide)⟩
  · exact ⟨apart_of_ne (p := Layout.nodes) hm, apart_of_ne (p := Layout.nodes) hm⟩

/-- The configurations of the other services lie beside a service. -/
theorem beside_serviceConfig (hy : y ≠ x) : Beside x (Layout.serviceConfig n y) := by
  intro m
  by_cases hm : n = m
  · subst hm
    exact ⟨apart_of_ne (p := Layout.services n) (by decide),
      apart_of_ne (p := (Layout.services n).key "config") hy⟩
  · exact ⟨apart_of_ne (p := Layout.nodes) hm, apart_of_ne (p := Layout.nodes) hm⟩

end Path

namespace Node.Data

variable {α : Type} {b c : Value} {n x k : String}

/-- What lies in a container of a blob that is read service by service. -/
theorem bind_services (b : Value) (k : String) :
    (b.get? "services").bind (fun s => s.get? k) = b.lookup [.key "services", .key k] := by
  rw [Value.get?_eq_lookup, show ([.key "services", .key k] : Path)
    = [.key "services"] ++ [.key k] from rfl, Value.lookup_append]
  exact Option.bind_congr fun s _ => Value.get?_eq_lookup s k

theorem sorted_decodable (dec : Decoder α) {v : Option Value}
    (sorted : ∀ w, v = some w → Value.Sorted w) : (decodable dec v).Sorted := by
  rcases v with - | w
  · exact Entries.Sorted.nil
  · cases w
    case map m => exact (sorted _ rfl).entries.sublist (Daemon.keys_decodable_sublist dec m)
    all_goals exact Entries.Sorted.nil

/-- What is read of a service is read from what lies under its name. -/
theorem get?_decodable_of_sorted (dec : Decoder α) {v : Option Value}
    (sorted : ∀ w, v = some w → Value.Sorted w) (y : String) :
    Entries.get? (decodable dec v) y
      = (v.bind (fun w => w.get? y)).bind (fun w => (Decode.ofValue dec w).toOption) := by
  rcases v with - | w
  · rfl
  · cases w
    case map m => exact get?_decodable dec (sorted _ rfl).entries y
    all_goals rfl

/-- The records of the other services are read alike from containers that agree
on them. -/
theorem erase_decodable (dec : Decoder α) {v w : Option Value}
    (hv : ∀ u, v = some u → Value.Sorted u) (hw : ∀ u, w = some u → Value.Sorted u)
    (alike : ∀ y, y ≠ x → v.bind (fun u => u.get? y) = w.bind (fun u => u.get? y)) :
    Entries.erase (decodable dec v) x = Entries.erase (decodable dec w) x := by
  refine ((sorted_decodable dec hv).erase x).ext ((sorted_decodable dec hw).erase x) fun y => ?_
  rw [Entries.get?_erase, Entries.get?_erase]
  split
  · rfl
  · rename_i other
    rw [get?_decodable_of_sorted dec hv, get?_decodable_of_sorted dec hw, alike y other]

theorem erase_filter (m : Entries α) (p : String × α → Bool) (x : String) :
    Entries.erase (m.filter p) x = (Entries.erase m x).filter p :=
  List.filter_comm ..

theorem without_congr {d e : Data} (monitor : d.monitor = e.monitor) (labels : d.labels = e.labels)
    (frozenAt : d.frozenAt = e.frozenAt)
    (instances : Entries.erase d.instances x = Entries.erase e.instances x)
    (configs : Entries.erase d.configs x = Entries.erase e.configs x)
    (updated : d.updated = e.updated) : d.without x = e.without x := by
  simp only [without, monitor, labels, frozenAt, instances, configs, updated]

/-- Of a service a blob has what lies under its name. -/
theorem bind_record (b : Value) (k y : String) :
    (b.lookup [.key "services", .key k]).bind (fun u => u.get? y)
      = b.lookup [.key "services", .key k, .key y] := by
  rw [show ([.key "services", .key k, .key y] : Path)
    = [.key "services", .key k] ++ [.key y] from rfl, Value.lookup_append]
  exact Option.bind_congr fun u _ => Value.get?_eq_lookup u y

/-- **Blobs that agree beside the records of a service** are read alike without
it, whatever its records are. -/
theorem ofValue_without (hb : Value.Sorted b) (hc : Value.Sorted c)
    (alike : ∀ p : Path, p.AllKeys → Path.Beside x (Layout.node n ++ p)
      → b.lookup p = c.lookup p) :
    (ofValue b).without x = (ofValue c).without x := by
  have field (k : String) (hk : k ≠ "services") : b.get? k = c.get? k := by
    rw [Value.get?_eq_lookup, Value.get?_eq_lookup]
    exact alike _ (Path.allKeys_ofKeys [k]) (Path.beside_field hk)
  have instances : Entries.erase (ofValue b).instances x
      = Entries.erase (ofValue c).instances x := by
    show Entries.erase (decodable _ ((b.get? "services").bind _)) x
      = Entries.erase (decodable _ ((c.get? "services").bind _)) x
    rw [bind_services, bind_services]
    refine erase_decodable _ (fun u hu => hb.lookup hu) (fun u hu => hc.lookup hu) fun y hy => ?_
    rw [bind_record, bind_record]
    exact alike _ (Path.allKeys_ofKeys ["services", "status", y]) (Path.beside_serviceStatus hy)
  have configs : Entries.erase (ofValue b).configs x = Entries.erase (ofValue c).configs x := by
    show Entries.erase ((decodable _ ((b.get? "services").bind _)).filter _) x
      = Entries.erase ((decodable _ ((c.get? "services").bind _)).filter _) x
    rw [erase_filter, erase_filter, bind_services, bind_services]
    refine congrArg _ (erase_decodable _ (fun u hu => hb.lookup hu) (fun u hu => hc.lookup hu)
      fun y hy => ?_)
    rw [bind_record, bind_record]
    exact alike _ (Path.allKeys_ofKeys ["services", "config", y]) (Path.beside_serviceConfig hy)
  refine without_congr ?_ ?_ ?_ instances configs ?_
  · simp only [ofValue, recordAt, field "monitor" (by decide)]
  · simp only [ofValue, recordAt, field "labels" (by decide)]
  · simp only [ofValue, numberAt, field "frozen" (by decide)]
  · simp only [ofValue, numberAt, field "updated" (by decide)]

end Node.Data

namespace View

/-- Two snapshots have blobs of the same nodes, and are the same beside the
records of a service. In these there may lie anything. -/
structure SameButFor (x : String) (s t : Value) : Prop where
  nodes : ∀ n, (Entries.get? (blobs s) n).isSome = (Entries.get? (blobs t) n).isSome
  beside : ∀ p : Path, p.AllKeys → Path.Beside x p → s.lookup p = t.lookup p

theorem SameButFor.trans {s t u : Value} {x : String} (h : SameButFor x s t)
    (h' : SameButFor x t u) : SameButFor x s u :=
  ⟨fun n => (h.nodes n).trans (h'.nodes n),
    fun p keys beside => (h.beside p keys beside).trans (h'.beside p keys beside)⟩

/-- **Storing a record of a service, or removing it**, makes no other difference. -/
theorem sameButFor_of_enact? {s t : Value} {q : Path} {y : Option Value} {n x : String}
    (record : q = Layout.serviceStatus n x ∨ q = Layout.serviceConfig n x)
    (h : s.enact? ⟨q, y⟩ = some t) : SameButFor x s t where
  nodes m := by
    rw [get?_blobs, get?_blobs]
    by_cases hm : m = n
    · subst hm
      obtain ⟨k, rfl⟩ : ∃ k, q = Layout.node m ++ [.key "services", .key k, .key x] := by
        rcases record with rfl | rfl
        · exact ⟨"status", rfl⟩
        · exact ⟨"config", rfl⟩
      have through := Value.follow?_lookup (Path.allKeys_ofKeys ["cluster", "nodes", m])
        (List.cons_ne_nil _ _) h
      obtain ⟨c, c', before, -, after⟩ := (Value.follow?_eq_some_iff (List.cons_ne_nil _ _)).1 through
      rw [show Layout.node m = Path.ofKeys ["cluster", "nodes", m] from rfl, before, after]
      rfl
    · have aside : (Layout.node m).Apart q := by
        rcases record with rfl | rfl
        · exact Path.apart_of_ne (p := Layout.nodes) hm
        · exact Path.apart_of_ne (p := Layout.nodes) hm
      exact congrArg Option.isSome (Value.lookup_enact?_aside
        (Path.allKeys_ofKeys ["cluster", "nodes", m]) aside.1 aside.2 h).symm
  beside p keys beside := by
    have aside : p.Apart q := by
      rcases record with rfl | rfl
      · exact (beside n).1
      · exact (beside n).2
    exact (Value.lookup_enact?_aside keys aside.1 aside.2 h).symm

/-- The blobs of a sorted snapshot are sorted. -/
theorem sorted_blobs {s : Value} (hs : Value.Sorted s) : (blobs s).Sorted := by
  have there : blobs s = ((s.lookup Layout.nodes).bind Value.asMap?).getD [] := by
    rw [blobs, show Layout.nodes = [.key "cluster"] ++ [.key "nodes"] from rfl,
      Value.lookup_append, Value.get?_eq_lookup]
    simp only [Value.get?_eq_lookup]
  rw [there]
  cases found : s.lookup Layout.nodes with
  | none => exact Entries.Sorted.nil
  | some v =>
    cases v
    case map m => exact Value.Sorted.entries (hs.lookup found)
    all_goals exact Entries.Sorted.nil

/-- **Snapshots that differ in the records of one service** give the same view
without it. -/
theorem Basis.view_without {b : Basis} {snapshot : Value} {x : String} (viewer : String)
    (desynced : List String) (hs : Value.Sorted b.snapshot) (ht : Value.Sorted snapshot)
    (same : SameButFor x b.snapshot snapshot) :
    (b.view viewer desynced).without x = ((b.reading snapshot).view viewer desynced).without x := by
  have nodes : Entries.mapValues (fun d : Node.Data => d.without x)
        (Entries.mapValues Node.Data.ofValue (blobs b.snapshot))
      = Entries.mapValues (fun d : Node.Data => d.without x)
        (Entries.mapValues Node.Data.ofValue (blobs snapshot)) := by
    refine Entries.Sorted.ext (by simpa only [Entries.sorted_mapValues] using sorted_blobs hs)
      (by simpa only [Entries.sorted_mapValues] using sorted_blobs ht) fun n => ?_
    simp only [Entries.get?_mapValues]
    have there := same.nodes n
    cases hb : Entries.get? (blobs b.snapshot) n with
    | none =>
      rw [hb] at there
      rw [Option.isNone_iff_eq_none.1 (Option.isSome_eq_false_iff.1 there.symm)]
    | some v =>
      rw [hb, Option.isSome_some] at there
      obtain ⟨w, hw⟩ := Option.isSome_iff_exists.1 there.symm
      rw [hw]
      rw [get?_blobs] at hb hw
      refine congrArg some (Node.Data.ofValue_without (n := n) (hs.lookup hb) (ht.lookup hw)
        fun p keys beside => ?_)
      have whole : Path.AllKeys (Layout.node n ++ p) :=
        List.forall_mem_append.2 ⟨Path.allKeys_ofKeys ["cluster", "nodes", n], keys⟩
      have alike := same.beside _ whole beside
      rwa [Value.lookup_append, Value.lookup_append, hb, hw] at alike
  exact congrArg (fun l : Entries Node.Data => ({ b.view viewer desynced with nodes := l } : View)) nodes

end View

end HaCluster
