import HaCluster.Proofs.Cluster.Hidden
import HaCluster.Proofs.Service.Asked
import HaCluster.Proofs.Service.Election

/-!
# Decisions on hidden data

No rule about an instance looks past what is seen. What they ask of a view is
answered alike by views that show the same; the election asks for more, but only
about nodes that are seen. So the whole decision, its reason included, is the
same on views that show the same (`decide_on`), and what a hidden peer published
has no influence on it (`hidden_without_influence`).
-/

namespace HaCluster.Service.Situation

open View

/-- The election asks for nodes that beat and are not stale, and so for those
that are seen. -/
theorem isEligible_on {v w : View} (h : ShowSame v w) (s : Situation) (retrying : Bool) :
    (s.on v).isEligible retrying = (s.on w).isEligible retrying := by
  funext node
  simp only [isEligible_eq, on_view, on_path, h.trusted, h.localNode]

/-- Views that show the same give the same answers. -/
theorem askedAlike_of_showSame {v w : View} (h : ShowSame v w) (s : Situation) :
    AskedAlike s v w where
  localNode := h.localNode
  «instance» := by rw [h.localNode, h.instance?_eq]
  runningOn := h.runningOn_eq s.path
  upCount := h.upCount_eq s.path
  scopeInstances := h.scopeInstances_eq s.path
  children := h.children_eq s.path
  childHere c _ := by rw [h.localNode, h.avail_eq]
  childAnywhere c _ := h.runningOn_eq c
  parents := h.parentsState_eq s.config.parents
  eligible := isEligible_on h s

/-- **Views that show the same lead to the same decision.** -/
theorem decide_on {v w : View} (h : ShowSame v w) (s : Situation) :
    (s.on v).decide = (s.on w).decide :=
  (askedAlike_of_showSame h s).decide_congr

/-! ## Hidden peers -/

/-- **Hidden data has no influence.** Two snapshots differ in the blob of a peer
alone, and in both it is hidden from a node. Then the node decides the same on
both about every service, for the same reason, sees every parent alike, and
knows alike whether there are peers. Its summary is the same too, as long as not
only one of the snapshots has a blob of the peer: a node without one is not
named, unless it is declared. -/
theorem hidden_without_influence {b : Basis} {snapshot : Value} {viewer peer : String}
    {desynced : List String} (sorted : (blobs b.snapshot).Sorted)
    (sorted' : (blobs snapshot).Sorted) (same : Basis.SameBeside peer b.snapshot snapshot)
    (other : peer ≠ viewer) (hidden : b.Hides desynced peer)
    (hidden' : (b.reading snapshot).Hides desynced peer) :
    let v := b.view viewer desynced
    let w := (b.reading snapshot).view viewer desynced
    (∀ s : Situation, (s.on v).decide = (s.on w).decide)
      ∧ (∀ parent, v.parentState parent = w.parentState parent)
      ∧ v.peersKnown = w.peersKnown
      ∧ ((Entries.get? (blobs b.snapshot) peer).isSome = (Entries.get? (blobs snapshot) peer).isSome
        → v.summary = w.summary) := by
  intro v w
  have shown : ShowSame v w := Basis.showSame sorted sorted' same other hidden hidden'
  exact ⟨decide_on shown, shown.parentState_eq, shown.peersKnown_eq,
    fun there => shown.summary_eq (Basis.clusterNodes_reading sorted sorted' same there)⟩

/-- The copy of the second of two nodes is out of step: whether it says that the
node is ready to start `svc` or that it is starting it makes no difference. -/
theorem hidden_without_influence_pair :
    let v := (pair .ready).view "n1" ["n2"]
    let w := ((pair .ready).reading (pair .starting).snapshot).view "n1" ["n2"]
    (v.node? "n2" ≠ w.node? "n2")
      ∧ (∀ s : Situation, (s.on v).decide = (s.on w).decide)
      ∧ (∀ parent, v.parentState parent = w.parentState parent)
      ∧ v.peersKnown = w.peersKnown ∧ v.summary = w.summary := by
  intro v w
  have two (second : State) : (blobs (pair second).snapshot).Sorted := by
    show List.Pairwise (· < ·) ["n1", "n2"]
    decide
  have same : Basis.SameBeside "n2" (pair .ready).snapshot (pair .starting).snapshot := by
    intro n hn
    rw [show blobs (pair .ready).snapshot = [("n1", downBlob .ready), ("n2", downBlob .ready)]
        from rfl,
      show blobs (pair .starting).snapshot = [("n1", downBlob .ready), ("n2", downBlob .starting)]
        from rfl,
      Entries.get?_cons, Entries.get?_cons, Entries.get?_cons, Entries.get?_cons,
      if_neg (Ne.symm hn), if_neg (Ne.symm hn)]
  have other : "n2" ≠ "n1" := by decide
  have out : "n2" ∈ ["n2"] := List.mem_singleton_self "n2"
  have alike := hidden_without_influence (two .ready) (two .starting) same other
    (.inr (.inl out)) (.inr (.inl out))
  refine ⟨fun e => ?_, alike.1, alike.2.1, alike.2.2.1, alike.2.2.2 rfl⟩
  have states := congrArg (Option.map fun d =>
    (Entries.get? d.instances "svc").map fun i => i.monitor.state) e
  revert states
  decide +kernel

end HaCluster.Service.Situation
