import HaCluster.Proofs.Service.Election

/-!
# Peers that beat but cannot be seen

A peer may beat while its data is hidden: its blob is too old, its copy is out
of step, or nothing came from it yet. Such a peer may well run a service that
is down everywhere else.

Before a node starts a failover service it asks two things about its peers:
whether one of them runs it, and whether one that may run it is placed first.
Both are asked of the data that can be seen, so whoever keeps the node from
starting is seen by it (`Precludes.seen`). A hidden peer is passed over, and
the start does not wait for it (`failsClosed_iff`).
-/

namespace HaCluster

/-- Of a node whose data is hidden nothing is known. -/
theorem View.avail_eq_unknown {v : View} {n : String} (hidden : v.trusted? n = none)
    (path : String) : v.avail n path = .unknown := by
  unfold avail instance?
  rw [hidden]
  rfl

namespace Service.Situation

variable {s : Situation} {n : String}

/-- The other nodes of the scope that beat while their data is hidden. -/
def unseenPeers (s : Situation) : List String :=
  s.config.scope.filter (fun n => n ≠ s.view.localNode && s.view.isAlive n
    && (s.view.trusted? n).isNone)

/-- A failover service is not started while another node of its scope beats
that cannot be seen. -/
def FailsClosed (s : Situation) : Prop :=
  s.config.topology = .failover → s.unseenPeers ≠ [] → s.decide.starts = false

/-- The local node may run the service. -/
def Stands (s : Situation) : Prop :=
  s.view.localNode ∈ s.config.scope ∧ s.isEligible false s.view.localNode

/-- A node keeps the local one from starting a failover service: it runs the
service, or it may run it and is placed first. -/
def Precludes (s : Situation) (n : String) : Prop :=
  n ∈ s.elsewhere
    ∨ s.isEligible false n
      ∧ Placement.Before s.config.placement s.path s.config.scope n s.view.localNode

/-- Only a node that is seen keeps the local one from starting. -/
theorem Precludes.seen (h : s.Precludes n) : (s.view.trusted? n).isSome := by
  rw [Option.isSome_iff_ne_none]
  intro hidden
  rcases h with other | ⟨eligible, -⟩
  · unfold elsewhere View.runningOn at other
    have runs := (List.mem_filter.mp (List.mem_filter.mp other).1).2
    rw [View.avail_eq_unknown hidden] at runs
    cases runs
  · rw [isEligible_eq, hidden] at eligible
    cases eligible

/-- Nothing holds a failover service back if its parents are up, the local node
may run it and no other one precludes it. -/
theorem heldBy_eq_none_iff_precludes (failover : s.config.topology = .failover) :
    s.heldBy false = none
      ↔ s.view.parentsState s.config.parents = .satisfied ∧ s.Stands ∧ ∀ n, ¬ s.Precludes n := by
  rw [heldBy_eq_none_iff failover, Placement.leader_eq_some_iff, List.eq_nil_iff_forall_not_mem]
  constructor
  · rintro ⟨parents, alone, inScope, eligible, first⟩
    refine ⟨parents, ⟨inScope, eligible⟩, ?_⟩
    rintro n (other | ⟨able, before⟩)
    · exact alone n other
    · rw [first n before] at able
      cases able
  · rintro ⟨parents, ⟨inScope, eligible⟩, free⟩
    refine ⟨parents, fun n other => free n (.inl other), inScope, eligible, ?_⟩
    intro n before
    rw [← Bool.not_eq_true]
    exact fun able => free n (.inr ⟨able, before⟩)

/-- **What makes a node wait beside a peer that cannot be seen.** That a start
is not due here, that a parent is not up, that the local node may not run the
service, or a peer that can be seen. The hidden peer is never what it waits
for, so where nothing else holds it back the node starts the service while the
hidden peer may be running it. -/
theorem failsClosed_iff (s : Situation) :
    s.FailsClosed
      ↔ (s.config.topology = .failover →
        s.unseenPeers = [] ∨ ¬ s.Due ∨ s.view.parentsState s.config.parents ≠ .satisfied
          ∨ ¬ s.Stands ∨ ∃ n, (s.view.trusted? n).isSome ∧ s.Precludes n) := by
  refine forall_congr' (fun failover => ?_)
  have seen : (∃ n, (s.view.trusted? n).isSome ∧ s.Precludes n) ↔ ∃ n, s.Precludes n :=
    exists_congr (fun n => and_iff_right_of_imp Precludes.seen)
  rw [seen, ← Bool.not_eq_true, starts_iff, heldBy_eq_none_iff_precludes failover]
  simp only [ne_eq, Decidable.imp_iff_not_or, not_not, not_and_or, not_forall]

/-- What a node publishes on which `svc` is up. -/
def upBlob : Value :=
  let config := .map [("orchestrate", .str "ha"), ("scope", .ofStrings ["n1", "n2"])]
  .map
    [("monitor", .map [("status", .str "idle")]),
     ("services", .map
      [("config", .map [("svc", config)]),
       ("status", .map [("svc", .map [("avail", .str "up")])])]),
     ("updated", .float 10)]

/-- The first of two nodes is ready to start `svc`. The second one beats, but
its copy, in which `svc` is up, is out of step. -/
def beforeLostPeer : Situation :=
  let b : View.Basis := { pair .ready with
    snapshot := .map [("cluster", .map
      [("nodes", .map [("n1", downBlob .ready), ("n2", upBlob)])])] }
  { ofPair .ready "n1" with view := b.view "n1" ["n2"] }

theorem not_failsClosed_beforeLostPeer : ¬ beforeLostPeer.FailsClosed := by
  intro closed
  have unseen : beforeLostPeer.unseenPeers ≠ [] := by decide +kernel
  have starts : beforeLostPeer.decide.starts = true := by decide +kernel
  exact absurd (closed rfl unseen) (by rw [starts]; decide)

end Service.Situation

end HaCluster
