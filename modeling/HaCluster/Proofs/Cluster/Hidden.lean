import HaCluster.Cluster.Parents
import HaCluster.Cluster.Summary
import HaCluster.Proofs.Cluster.View

/-!
# What is hidden has no influence

Two views show the same (`ShowSame`) if every node is seen to have published the
same in both, and the nodes that are seen come in the same order. What is asked
of a view is asked of the nodes that are seen, also where the question goes
through all nodes by name, so views that show the same answer alike. Which nodes
there are besides makes a difference to the summary only, which has a line for
each of them.

A peer that does not beat, is out of step or is too old is not seen. Two
snapshots that differ in its blob alone are therefore shown the same
(`Basis.showSame`).
-/

namespace HaCluster.View

/-- Whether anything of a node is seen. -/
def sees (v : View) (node : String) : Bool := (v.trusted? node).isSome

/-- Two views of one node show the same. -/
structure ShowSame (v w : View) : Prop where
  localNode : v.localNode = w.localNode
  localData : v.localData? = w.localData?
  trusted : ∀ n, v.trusted? n = w.trusted? n
  known : v.knownNodes.filter v.sees = w.knownNodes.filter w.sees
  nodes : v.clusterNodes.filter v.sees = w.clusterNodes.filter w.sees

variable {v w : View} {n path : String}

/-! ## Going through the nodes that are seen -/

section Lists

variable {α β : Type} {p : α → Bool}

theorem findSome?_filter {f : α → Option β} (h : ∀ x, p x = false → f x = none) (l : List α) :
    (l.filter p).findSome? f = l.findSome? f := by
  induction l with
  | nil => rfl
  | cons a l ih =>
    cases hp : p a with
    | true => rw [List.filter_cons_of_pos hp, List.findSome?_cons, List.findSome?_cons, ih]
    | false =>
      rw [List.filter_cons_of_neg (by simp [hp]), List.findSome?_cons, h a hp, ih]

theorem filterMap_filter {f : α → Option β} (h : ∀ x, p x = false → f x = none) (l : List α) :
    (l.filter p).filterMap f = l.filterMap f := by
  induction l with
  | nil => rfl
  | cons a l ih =>
    cases hp : p a with
    | true => rw [List.filter_cons_of_pos hp, List.filterMap_cons, List.filterMap_cons, ih]
    | false =>
      rw [List.filter_cons_of_neg (by simp [hp]), List.filterMap_cons_none (h a hp), ih]

theorem filter_filter_of_imp {q : α → Bool} (h : ∀ x, q x = true → p x = true) (l : List α) :
    (l.filter p).filter q = l.filter q := by
  rw [List.filter_filter]
  refine List.filter_congr fun x _ => ?_
  cases hq : q x with
  | true => rw [h x hq]; rfl
  | false => rfl

end Lists

theorem trusted?_eq_none (h : v.sees n = false) : v.trusted? n = none := by
  rwa [sees, Option.isSome_eq_false_iff, Option.isNone_iff_eq_none] at h

/-- An instance that runs is seen. -/
theorem sees_of_isRunning (h : (v.avail n path).isRunning = true) : v.sees n = true := by
  cases hidden : v.sees n with
  | true => rfl
  | false =>
    rw [avail, instance?, trusted?_eq_none hidden] at h
    exact nomatch h

/-! ## Views that show the same -/

namespace ShowSame

theorem instance?_eq (h : ShowSame v w) (n path : String) :
    v.instance? n path = w.instance? n path := by
  rw [instance?, instance?, h.trusted]

theorem avail_eq (h : ShowSame v w) (n path : String) : v.avail n path = w.avail n path := by
  rw [avail, avail, h.instance?_eq]

/-- The configuration of a service is looked for at the nodes that are seen. -/
theorem serviceConfig?_eq (h : ShowSame v w) (path : String) :
    v.serviceConfig? path = w.serviceConfig? path := by
  have seen (v : View) : v.clusterNodes.findSome? (fun n =>
        (v.trusted? n).bind (fun d => Entries.get? d.configs path))
      = (v.clusterNodes.filter v.sees).findSome? (fun n =>
        (v.trusted? n).bind (fun d => Entries.get? d.configs path)) := by
    refine (findSome?_filter (fun n hidden => ?_) _).symm
    rw [trusted?_eq_none hidden]
    rfl
  unfold serviceConfig?
  rw [seen v, seen w, h.nodes, h.localData, funext h.trusted]

/-- The configurations that are published are those of the nodes that are seen. -/
theorem children_eq (h : ShowSame v w) (path : String) : v.children path = w.children path := by
  have seen (v : View) : v.knownNodes.filterMap v.trusted?
      = (v.knownNodes.filter v.sees).filterMap v.trusted? :=
    (filterMap_filter (fun _ hidden => trusted?_eq_none hidden) _).symm
  unfold children publishedConfigs
  rw [seen v, seen w, h.known, funext h.trusted]

/-- Where a service has no configuration, all nodes are asked whether they run
it, and those that are not seen do not tell. -/
theorem runningOn_eq (h : ShowSame v w) (path : String) : v.runningOn path = w.runningOn path := by
  have runs : (fun n => (v.avail n path).isRunning) = (fun n => (w.avail n path).isRunning) :=
    funext fun n => congrArg Avail.isRunning (h.avail_eq n path)
  unfold runningOn
  rw [h.serviceConfig?_eq]
  cases w.serviceConfig? path with
  | some c =>
    dsimp only
    rw [runs]
  | none =>
    dsimp only
    rw [← filter_filter_of_imp (p := v.sees) (fun n => sees_of_isRunning) v.clusterNodes,
      ← filter_filter_of_imp (p := w.sees) (fun n => sees_of_isRunning) w.clusterNodes,
      h.nodes, runs]

theorem upCount_eq (h : ShowSame v w) (path : String) : v.upCount path = w.upCount path := by
  unfold upCount
  simp only [h.serviceConfig?_eq, h.avail_eq]

theorem scopeInstances_eq (h : ShowSame v w) (path : String) :
    v.scopeInstances path = w.scopeInstances path := by
  unfold scopeInstances
  simp only [h.serviceConfig?_eq, h.instance?_eq]

/-- **Views that show the same see parents alike.** -/
theorem parentState_eq (h : ShowSame v w) (parent : String) :
    v.parentState parent = w.parentState parent := by
  unfold parentState
  simp only [h.serviceConfig?_eq, h.avail_eq]

theorem parentsState_eq (h : ShowSame v w) (parents : List String) :
    v.parentsState parents = w.parentsState parents := by
  unfold parentsState
  rw [funext h.parentState_eq]

/-- **Views that show the same know of peers alike.** -/
theorem peersKnown_eq (h : ShowSame v w) : v.peersKnown = w.peersKnown := by
  have seen (v : View) : v.peersKnown
      = (v.knownNodes.filter v.sees).any (fun n => n ≠ v.localNode) := by
    rw [List.any_filter]
    exact congrArg (fun p => v.knownNodes.any p) (funext fun n => Bool.and_comm _ _)
  rw [seen v, seen w, h.known, h.localNode]

/-- **Views that show the same of the same nodes** have one summary. -/
theorem summary_eq (h : ShowSame v w) (nodes : v.clusterNodes = w.clusterNodes) :
    v.summary = w.summary := by
  unfold summary
  rw [nodes, funext h.trusted]

end ShowSame

/-! ## Snapshots that differ in what is hidden -/

/-- Going through a list and noting what is new, and then keeping some of it, is
the same as keeping it first. -/
theorem filter_foldl_unseen (p : String → Bool) (l ns : List String) :
    (ns.foldl (fun l n => if l.contains n then l else l ++ [n]) l).filter p
      = (ns.filter p).foldl (fun l n => if l.contains n then l else l ++ [n]) (l.filter p) := by
  induction ns generalizing l with
  | nil => rfl
  | cons n ns ih =>
    rw [List.foldl_cons, ih]
    cases hp : p n with
    | false =>
      rw [List.filter_cons_of_neg (by simp [hp])]
      split
      · rfl
      · rw [List.filter_append, List.filter_cons_of_neg (by simp [hp]), List.filter_nil,
          List.append_nil]
    | true =>
      have there : (l.filter p).contains n = l.contains n := by
        rw [Bool.eq_iff_iff, List.contains_iff_mem, List.contains_iff_mem, List.mem_filter,
          and_iff_left hp]
      rw [List.filter_cons_of_pos hp, List.foldl_cons, there]
      split
      · rfl
      · rw [List.filter_append, List.filter_cons_of_pos hp, List.filter_nil]

namespace Basis

variable {b : Basis} {snapshot : Value} {viewer peer n : String} {desynced : List String}

/-- The same, reading another snapshot. -/
def reading (b : Basis) (snapshot : Value) : Basis := { b with snapshot }

/-- Nothing of a peer is shown: it does not beat, its copy is out of step, or
what it published is too old. -/
def Hides (b : Basis) (desynced : List String) (peer : String) : Prop :=
  peer ∉ b.live ∨ peer ∈ desynced
    ∨ ∀ d, b.data? peer = some d → b.staleAfter.toSeconds < b.now - d.updated

/-- Two snapshots have the same blobs, but for that of one peer. -/
def SameBeside (peer : String) (s t : Value) : Prop :=
  ∀ n, n ≠ peer → Entries.get? (blobs s) n = Entries.get? (blobs t) n

/-- A copy that is out of step or too old is stale. -/
theorem isStale_view (other : peer ≠ viewer)
    (h : peer ∈ desynced
      ∨ ∀ d, b.data? peer = some d → b.staleAfter.toSeconds < b.now - d.updated) :
    (b.view viewer desynced).isStale peer = true := by
  unfold isStale
  rw [if_neg (show ¬ peer = (b.view viewer desynced).localNode from other), node?_view]
  rcases h with out | old
  · rw [if_pos]
    simp [view, withDesynced, build, out, other]
  · split
    · rfl
    · cases found : b.data? peer with
      | none => rfl
      | some d => exact decide_eq_true (old d found)

/-- A hidden peer is not seen. -/
theorem trusted?_of_hides (other : peer ≠ viewer) (h : b.Hides desynced peer) :
    (b.view viewer desynced).trusted? peer = none := by
  rcases h with dead | stale
  · exact trusted?_view_of_notMem dead other
  · unfold trusted?
    rw [isStale_view other stale, Bool.not_true, Bool.and_false, if_neg Bool.false_ne_true]

/-- What another node published is shown alike. -/
theorem trusted?_reading (same : SameBeside peer b.snapshot snapshot) (hn : n ≠ peer) :
    (b.view viewer desynced).trusted? n
      = ((b.reading snapshot).view viewer desynced).trusted? n := by
  have data : (b.view viewer desynced).node? n
      = ((b.reading snapshot).view viewer desynced).node? n := by
    rw [node?_view, node?_view]
    exact congrArg (Option.map Node.Data.ofValue) (same n hn)
  unfold trusted? isStale
  rw [data]
  rfl

theorem knownNodes_view (b : Basis) (viewer : String) (desynced : List String) :
    (b.view viewer desynced).knownNodes = Entries.keys (blobs b.snapshot) :=
  Entries.keys_mapValues _ _

/-- Beside the peer the same nodes have blobs, in the same order. -/
theorem keys_filter_eq {s t : Value} (hs : (blobs s).Sorted) (ht : (blobs t).Sorted)
    (same : SameBeside peer s t) :
    (Entries.keys (blobs s)).filter (· ≠ peer) = (Entries.keys (blobs t)).filter (· ≠ peer) := by
  have beside : (blobs s).filter (fun e => decide (e.1 ≠ peer))
      = (blobs t).filter (fun e => decide (e.1 ≠ peer)) := by
    refine (hs.filter _).ext (ht.filter _) fun n => ?_
    rw [Entries.get?_filter (fun k => decide (k ≠ peer)),
      Entries.get?_filter (fun k => decide (k ≠ peer))]
    by_cases hn : n = peer
    · rw [if_neg (by simp [hn]), if_neg (by simp [hn])]
    · rw [same n hn]
  unfold Entries.keys
  rw [List.filter_map, List.filter_map]
  exact congrArg (List.map Prod.fst) beside

/-- If both have a blob of the peer, or neither has, the same nodes have blobs. -/
theorem keys_eq {s t : Value} (hs : (blobs s).Sorted) (ht : (blobs t).Sorted)
    (same : SameBeside peer s t)
    (there : (Entries.get? (blobs s) peer).isSome = (Entries.get? (blobs t) peer).isSome) :
    Entries.keys (blobs s) = Entries.keys (blobs t) := by
  have marks : Entries.mapValues (fun _ => ()) (blobs s)
      = Entries.mapValues (fun _ => ()) (blobs t) := by
    refine (Entries.sorted_mapValues.2 hs).ext (Entries.sorted_mapValues.2 ht) fun n => ?_
    rw [Entries.get?_mapValues, Entries.get?_mapValues]
    by_cases hn : n = peer
    · subst hn
      cases hs : Entries.get? (blobs s) n <;> cases ht : Entries.get? (blobs t) n <;>
        rw [hs, ht] at there <;> first | rfl | cases there
    · rw [same n hn]
  rw [← Entries.keys_mapValues (fun _ => ()) (blobs s), marks, Entries.keys_mapValues]

/-- **Snapshots that differ in the blob of a hidden peer alone are shown the
same.** -/
theorem showSame (sorted : (blobs b.snapshot).Sorted) (sorted' : (blobs snapshot).Sorted)
    (same : SameBeside peer b.snapshot snapshot) (other : peer ≠ viewer)
    (hidden : b.Hides desynced peer) (hidden' : (b.reading snapshot).Hides desynced peer) :
    ShowSame (b.view viewer desynced) ((b.reading snapshot).view viewer desynced) := by
  have trusted (n : String) : (b.view viewer desynced).trusted? n
      = ((b.reading snapshot).view viewer desynced).trusted? n := by
    by_cases hn : n = peer
    · rw [hn, trusted?_of_hides other hidden, trusted?_of_hides other hidden']
    · exact trusted?_reading same hn
  have sees : (b.view viewer desynced).sees = ((b.reading snapshot).view viewer desynced).sees :=
    funext fun n => congrArg Option.isSome (trusted n)
  have beside (n : String) (seen : (b.view viewer desynced).sees n = true) :
      decide (n ≠ peer) = true := by
    refine decide_eq_true ?_
    rintro rfl
    rw [View.sees, trusted?_of_hides other hidden] at seen
    exact nomatch seen
  have known : (b.view viewer desynced).knownNodes.filter (b.view viewer desynced).sees
      = ((b.reading snapshot).view viewer desynced).knownNodes.filter
        (b.view viewer desynced).sees := by
    rw [knownNodes_view, knownNodes_view, ← filter_filter_of_imp beside,
      keys_filter_eq sorted sorted' same, filter_filter_of_imp beside]
    rfl
  refine ⟨rfl, ?_, trusted, by rw [← sees]; exact known, ?_⟩
  · show (b.view viewer desynced).node? viewer
      = ((b.reading snapshot).view viewer desynced).node? viewer
    rw [node?_view, node?_view]
    exact congrArg (Option.map Node.Data.ofValue) (same viewer (Ne.symm other))
  · rw [← sees]
    unfold clusterNodes
    rw [filter_foldl_unseen, filter_foldl_unseen, List.filter_append, List.filter_append]
    exact congrArg (fun l => List.foldl _ _ (l ++ _)) known

/-- Two such snapshots name the same nodes if both have a blob of the peer, or
neither has. -/
theorem clusterNodes_reading (sorted : (blobs b.snapshot).Sorted)
    (sorted' : (blobs snapshot).Sorted) (same : SameBeside peer b.snapshot snapshot)
    (there : (Entries.get? (blobs b.snapshot) peer).isSome
      = (Entries.get? (blobs snapshot) peer).isSome) :
    (b.view viewer desynced).clusterNodes
      = ((b.reading snapshot).view viewer desynced).clusterNodes := by
  have known : (b.view viewer desynced).knownNodes
      = ((b.reading snapshot).view viewer desynced).knownNodes := by
    rw [knownNodes_view, knownNodes_view]
    exact keys_eq sorted sorted' same there
  unfold clusterNodes
  exact congrArg (fun l => List.foldl _ _ (l ++ _)) known

end Basis

end HaCluster.View
