import HaCluster.Proofs.Cluster.Isolated
import HaCluster.Proofs.Cluster.View

/-!
# Parents and children

A service waits for its parents to start, and for its children to stop. Its
parents are those of the one configuration that the view retains of it
(`serviceConfig?`). Its children are found among the configurations that trusted
nodes publish, of which one per service is retained as well, but in another way:
the one counts that comes from the first node *by name* (`publishedConfig?`),
while the parents are read from the local configuration and else from the first
*declared* node.

So both orders follow one graph exactly where the two configurations of a
service agree about the parent (`mirrors_iff`), and that they do where every
node publishes the same configuration (`mirrors_of_alike`). A service whose
local configuration names a parent that an older copy on another node does not
name waits for that parent to start, but the parent does not wait for it.
-/

namespace HaCluster.View

variable {v : View} {c path n : String}

/-! ## Gathering the first of every name -/

section Gather

variable {α : Type}

theorem get?_append (l m : Entries α) (key : String) :
    Entries.get? (l ++ m) key = (Entries.get? l key).or (Entries.get? m key) := by
  induction l with
  | nil => rfl
  | cons e l ih =>
    obtain ⟨k, x⟩ := e
    rw [List.cons_append, Entries.get?_cons, Entries.get?_cons, ih]
    split <;> rfl

theorem sorted_foldl_gather (l : List (String × α)) {m : Entries α} (hm : m.Sorted) :
    (l.foldl gather m).Sorted := by
  induction l generalizing m with
  | nil => exact hm
  | cons e l ih => exact ih (sorted_gather hm e)

theorem get?_gather (m : Entries α) (e : String × α) (key : String) :
    Entries.get? (gather m e) key
      = (Entries.get? m key).or (if e.1 = key then some e.2 else none) := by
  unfold gather Entries.contains
  by_cases same : e.1 = key
  · subst same
    rw [if_pos rfl]
    split
    · next held =>
      obtain ⟨x, found⟩ := Option.isSome_iff_exists.1 held
      rw [found, Option.some_or]
    · next free =>
      rw [Entries.get?_insert, if_pos rfl, Option.not_isSome_iff_eq_none.1 free, Option.none_or]
  · rw [if_neg same, Option.or_none]
    split
    · rfl
    · exact Entries.get?_insert_of_ne m e.2 (Ne.symm same)

/-- What is gathered under a key is the first entry that has it. -/
theorem get?_foldl_gather (l : List (String × α)) (m : Entries α) (key : String) :
    Entries.get? (l.foldl gather m) key = (Entries.get? m key).or (Entries.get? l key) := by
  induction l generalizing m with
  | nil => exact (Option.or_none).symm
  | cons e l ih =>
    obtain ⟨k, x⟩ := e
    rw [List.foldl_cons, ih, get?_gather, Option.or_assoc, Entries.get?_cons]
    split <;> rfl

end Gather

/-! ## The configuration that the children are found in -/

/-- The configuration that the first trusted node, by name, publishes of a
service. -/
def publishedConfig? (v : View) (c : String) : Option Service.Config :=
  v.knownNodes.findSome? fun n => (v.trusted? n).bind fun d => Entries.get? d.configs c

theorem sorted_publishedConfigs (v : View) : v.publishedConfigs.Sorted :=
  sorted_foldl_gather _ Entries.Sorted.nil

/-- **Of several configurations the first node's is retained.** -/
theorem get?_publishedConfigs (v : View) (c : String) :
    Entries.get? v.publishedConfigs c = v.publishedConfig? c := by
  have first (l : List String) :
      Entries.get? ((l.filterMap v.trusted?).flatMap Node.Data.configs) c
        = l.findSome? fun n => (v.trusted? n).bind fun d => Entries.get? d.configs c := by
    induction l with
    | nil => rfl
    | cons n l ih =>
      rw [List.findSome?_cons, ← ih]
      cases trusted : v.trusted? n with
      | none => rw [List.filterMap_cons_none trusted, Option.bind_none]
      | some d =>
        rw [List.filterMap_cons_some trusted, List.flatMap_cons, get?_append, Option.bind_some]
        cases Entries.get? d.configs c <;> rfl
  show Entries.get? (List.foldl gather [] _) c = _
  rw [get?_foldl_gather, first]
  rfl

/-- **The children are the services whose retained configuration names the
parent.** -/
theorem mem_children_iff :
    c ∈ v.children path ↔ ∃ cfg, v.publishedConfig? c = some cfg ∧ cfg.Names path := by
  unfold children
  rw [List.mem_map]
  constructor
  · rintro ⟨⟨name, cfg⟩, mem, rfl⟩
    obtain ⟨retained, names⟩ := List.mem_filter.1 mem
    rw [List.any_eq_true] at names
    obtain ⟨parent, among, same⟩ := names
    have found := (sorted_publishedConfigs v).get?_of_mem retained
    rw [get?_publishedConfigs] at found
    exact ⟨cfg, found, parent, among, of_decide_eq_true same⟩
  · rintro ⟨cfg, found, parent, among, same⟩
    rw [← get?_publishedConfigs] at found
    refine ⟨(c, cfg), List.mem_filter.2 ⟨Entries.mem_of_get? found, ?_⟩, rfl⟩
    exact List.any_eq_true.2 ⟨parent, among, decide_eq_true same⟩

/-! ## The two graphs -/

/-- A service is configured on a node that can be trusted. -/
def Configured (v : View) (c : String) : Prop :=
  ∃ n d, v.trusted? n = some d ∧ (Entries.get? d.configs c).isSome

/-- Stops follow the graph that starts follow, as far as one parent is
concerned: its children are the services, configured on a trusted node, whose
configuration names it. -/
def Mirrors (v : View) (path : String) : Prop :=
  ∀ c, c ∈ v.children path
    ↔ v.Configured c ∧ ∃ cfg, v.serviceConfig? c = some cfg ∧ cfg.Names path

/-- A node that can be trusted is known. -/
theorem mem_knownNodes_of_trusted? {d : Node.Data} (trusted : v.trusted? n = some d) :
    n ∈ v.knownNodes := by
  unfold trusted? at trusted
  split at trusted
  · exact Entries.isSome_get?_iff.1 (by rw [← node?, trusted]; rfl)
  · cases trusted

/-- A service has a published configuration exactly if it is configured on a
trusted node. -/
theorem isSome_publishedConfig?_iff : (v.publishedConfig? c).isSome ↔ v.Configured c := by
  unfold publishedConfig? Configured
  rw [List.findSome?_isSome_iff]
  constructor
  · rintro ⟨n, -, found⟩
    obtain ⟨cfg, found⟩ := Option.isSome_iff_exists.1 found
    obtain ⟨d, trusted, held⟩ := Option.bind_eq_some_iff.1 found
    exact ⟨n, d, trusted, by rw [held]; rfl⟩
  · rintro ⟨n, d, trusted, held⟩
    exact ⟨n, mem_knownNodes_of_trusted? trusted, by rw [trusted]; exact held⟩

/-- The nodes of the cluster are the declared ones, those that published data,
and the local one. -/
theorem mem_clusterNodes_iff :
    n ∈ v.clusterNodes ↔ n ∈ v.declared ∨ n ∈ v.knownNodes ∨ n = v.localNode := by
  have added (l m : List String) :
      n ∈ l.foldl (fun m k => if m.contains k then m else m ++ [k]) m ↔ n ∈ m ∨ n ∈ l := by
    induction l generalizing m with
    | nil => simp
    | cons k l ih =>
      have step : n ∈ (if m.contains k then m else m ++ [k]) ↔ n ∈ m ∨ n = k := by
        split
        · next held =>
          exact (or_iff_left_of_imp fun same => same ▸ List.contains_iff_mem.1 held).symm
        · simp
      rw [List.foldl_cons, ih, step, List.mem_cons, or_assoc]
  unfold clusterNodes
  rw [added, List.mem_append, List.mem_singleton]
  rfl

/-- Of a service that is configured on a trusted node a configuration is
found. -/
theorem isSome_serviceConfig?_of_configured (h : v.Configured c) :
    (v.serviceConfig? c).isSome := by
  obtain ⟨n, d, trusted, held⟩ := h
  have known := mem_knownNodes_of_trusted? trusted
  unfold serviceConfig?
  split
  · rfl
  · rw [List.findSome?_isSome_iff]
    exact ⟨n, mem_clusterNodes_iff.2 (.inr (.inl known)), by rw [trusted]; exact held⟩

/-- The configuration of a service is one that the local node or a trusted one
publishes. -/
theorem exists_node_of_serviceConfig? {cfg : Service.Config} (h : v.serviceConfig? c = some cfg) :
    ∃ d, (v.localData? = some d ∨ ∃ n, v.trusted? n = some d)
      ∧ Entries.get? d.configs c = some cfg := by
  unfold serviceConfig? at h
  split at h
  · next own =>
    cases h
    obtain ⟨d, here, held⟩ := Option.bind_eq_some_iff.1 own
    exact ⟨d, .inl here, held⟩
  · obtain ⟨n, -, found⟩ := List.exists_of_findSome?_eq_some h
    obtain ⟨d, trusted, held⟩ := Option.bind_eq_some_iff.1 found
    exact ⟨d, .inr ⟨n, trusted⟩, held⟩

/-- A service is listed as a child where its retained configuration makes it one,
exactly if the published one agrees about the parent. -/
theorem mirrored_iff (v : View) (path c : String) :
    (c ∈ v.children path
        ↔ v.Configured c ∧ ∃ cfg, v.serviceConfig? c = some cfg ∧ cfg.Names path)
      ↔ ∀ published retained, v.publishedConfig? c = some published →
        v.serviceConfig? c = some retained → (published.Names path ↔ retained.Names path) := by
  rw [mem_children_iff]
  constructor
  · intro mirrored published retained first found
    have configured : v.Configured c := isSome_publishedConfig?_iff.1 (by rw [first]; rfl)
    rw [and_iff_right configured] at mirrored
    simpa [first, found] using mirrored
  · intro alike
    constructor
    · rintro ⟨published, first, names⟩
      have configured : v.Configured c := isSome_publishedConfig?_iff.1 (by rw [first]; rfl)
      obtain ⟨retained, found⟩ :=
        Option.isSome_iff_exists.1 (isSome_serviceConfig?_of_configured configured)
      exact ⟨configured, retained, found, (alike published retained first found).1 names⟩
    · rintro ⟨configured, retained, found, names⟩
      obtain ⟨published, first⟩ :=
        Option.isSome_iff_exists.1 (isSome_publishedConfig?_iff.2 configured)
      exact ⟨published, first, (alike published retained first found).2 names⟩

/-- **When stops follow the graph that starts follow.** Exactly where, of every
service, the configuration that the first trusted node publishes names the
parent as the retained one does. -/
theorem mirrors_iff (v : View) (path : String) :
    v.Mirrors path ↔ ∀ c published retained, v.publishedConfig? c = some published →
      v.serviceConfig? c = some retained → (published.Names path ↔ retained.Names path) :=
  forall_congr' fun c => mirrored_iff v path c

/-- The first of two nodes publishes `app` without parents. The second one, which
looks, has configured it to need `db`. -/
def parted : Basis where
  snapshot :=
    let node (app : Entries Value) (services : Entries Value) : Value :=
      .map [("services", .map [("config", .map
        (("app", .map (app ++ [("scope", .ofStrings ["n1", "n2"])])) :: services))]),
        ("updated", .float 10)]
    .map [("cluster", .map [("nodes", .map
      [("n1", node [] []),
       ("n2", node [("parents", .ofStrings ["db"])]
        [("db", .map [("scope", .ofStrings ["n1", "n2"])])])])])]
  now := 10
  live := ["n1", "n2"]
  declared := ["n1", "n2"]
  staleAfter := .seconds 30

/-- `db` has no children to wait for where `app` waits for it. -/
theorem not_mirrors_parted : ¬ (parted.view "n2" []).Mirrors "db" := by
  intro mirrors
  have configured : (parted.view "n2" []).Configured "app" :=
    isSome_publishedConfig?_iff.1 (by decide +kernel)
  have waits : ((parted.view "n2" []).serviceConfig? "app").map Service.Config.parents
      = some ["db"] := by decide +kernel
  obtain ⟨cfg, found, parents⟩ := Option.map_eq_some_iff.1 waits
  have names : cfg.Names "db" := ⟨"db", by rw [parents]; exact List.mem_cons_self, by decide⟩
  have alone : (parted.view "n2" []).children "db" = [] := by decide +kernel
  have child := (mirrors "app").2 ⟨configured, cfg, found, names⟩
  rw [alone] at child
  cases child

/-- **One configuration for all.** Where the nodes that are seen, the local one
among them, publish every service alike, stops follow the graph that starts
follow. -/
theorem mirrors_of_alike (alive : v.isAlive v.localNode)
    (alike : ∀ m n d e, v.trusted? m = some d → v.trusted? n = some e → ∀ c cfg cfg',
      Entries.get? d.configs c = some cfg → Entries.get? e.configs c = some cfg' → cfg = cfg')
    (path : String) : v.Mirrors path := by
  intro c
  rw [mirrored_iff]
  intro published retained first found
  have own : v.trusted? v.localNode = v.localData? := by
    unfold trusted? localData? isStale
    rw [alive, if_pos rfl]
    rfl
  obtain ⟨m, -, first⟩ := List.exists_of_findSome?_eq_some first
  obtain ⟨d, trusted, held⟩ := Option.bind_eq_some_iff.1 first
  obtain ⟨e, seen, held'⟩ := exists_node_of_serviceConfig? found
  have seen : ∃ n, v.trusted? n = some e :=
    seen.elim (fun here => ⟨v.localNode, own.trans here⟩) id
  obtain ⟨n, trusted'⟩ := seen
  rw [alike m n d e trusted trusted' c published retained held held']

end HaCluster.View
