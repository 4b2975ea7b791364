import HaCluster.Proofs.Cluster.Counts
import HaCluster.Proofs.Service.Flex
import HaCluster.Proofs.Service.Unseen

/-!
# What a start takes

Whether a service is started depends on what the node knows of itself (`Due`),
and on what it sees of the cluster (`Admitted`): that the parents are up, that
the local node is fit to run an instance, and that it is its turn. Whose turn it
is the placement order says, in one way for a failover service and in another
one for a flex service.

Both together are all that it takes, and nothing less will do
(`starts_iff_admitted`): no rule starts a service on a shorter list.
-/

namespace HaCluster

namespace View

variable {v : View}

/-- The parents are up exactly if each of them is. -/
theorem parentsState_eq_satisfied_iff {parents : List String} :
    v.parentsState parents = .satisfied ↔ ∀ p ∈ parents, v.parentState p = .satisfied := by
  unfold parentsState
  constructor
  · intro all
    cases found : (parents.map v.parentState).find? (· ≠ .satisfied) with
    | none =>
      intro p among
      simpa using List.find?_eq_none.1 found _ (List.mem_map_of_mem among)
    | some state =>
      -- what is found is not satisfied, so that it is not the answer
      rw [found] at all
      have unmet := List.find?_some found
      rw [show state = .satisfied from all] at unmet
      simp at unmet
  · intro all
    have none : (parents.map v.parentState).find? (· ≠ .satisfied) = none := by
      rw [List.find?_eq_none]
      intro state among
      obtain ⟨p, mem, rfl⟩ := List.mem_map.1 among
      simp [all p mem]
    rw [none]
    rfl

end View

namespace Service.Situation

variable {s : Situation} {n : String}

/-! ## Who may run an instance -/

/-- A node is seen to be fit to run a new instance of the service. -/
structure Fit (s : Situation) (n : String) : Prop where
  idle : ∃ m, s.view.nodeMonitor? n = some m ∧ m.state = .idle
  thawed : s.view.nodeFrozen? n = some false
  able : ∃ i, s.view.instance? n s.path = some i ∧ i.isFrozen = false ∧ i.constraints
    ∧ i.monitor.state ≠ .startFailed

/-- A node is eligible exactly if it is fit. -/
theorem isEligible_iff_fit : s.isEligible false n ↔ s.Fit n := by
  rw [isEligible_eq]
  cases shown : s.view.trusted? n with
  | none =>
    refine iff_of_false (by simp) fun fit => ?_
    have seen := fit.thawed
    rw [View.nodeFrozen?, shown] at seen
    cases seen
  | some d =>
    have monitor : s.view.nodeMonitor? n = some d.monitor := by rw [View.nodeMonitor?, shown]; rfl
    have frozen : s.view.nodeFrozen? n = some d.isFrozen := by rw [View.nodeFrozen?, shown]; rfl
    have own : s.view.instance? n s.path = Entries.get? d.instances s.path := by
      rw [View.instance?, shown, Option.bind_some]
    simp only [Option.any_some, Bool.and_eq_true, decide_eq_true_eq, Bool.not_eq_true',
      Option.any_eq_true, Bool.false_and, Bool.or_false, and_assoc]
    constructor
    · rintro ⟨idle, thawed, i, held, able⟩
      exact ⟨⟨_, monitor, idle⟩, frozen.trans (congrArg some thawed), i, own.trans held, able⟩
    · rintro ⟨⟨m, known, idle⟩, thawed, i, seen, able⟩
      rw [monitor] at known
      cases known
      rw [frozen] at thawed
      exact ⟨idle, Option.some.inj thawed, i, own.symm.trans seen, able⟩

/-! ## Whose turn it is -/

/-- Nothing in the cluster keeps the service from starting here. -/
structure Admitted (s : Situation) : Prop where
  parents : ∀ p ∈ s.config.parents, s.view.parentState p = .satisfied
  inScope : s.view.localNode ∈ s.config.scope
  fit : s.Fit s.view.localNode
  /-- A failover service runs on no other node, and no node that is fit to run it
  comes first. -/
  leads : s.config.topology = .failover →
    (∀ n ∈ s.view.reach s.path, n ≠ s.view.localNode → ¬ (s.view.avail n s.path).isRunning)
      ∧ ∀ n, Placement.Before s.config.placement s.path s.config.scope n s.view.localNode →
        ¬ s.Fit n
  /-- A flex service has room for an instance, and fewer candidates come first
  than instances are missing. -/
  counts : s.config.topology = .flex →
    s.elsewhere.length < s.config.flexMax
      ∧ ∃ rank, (s.candidates false).idxOf? s.view.localNode = some rank
        ∧ rank < s.target - s.elsewhere.length

/-- No other node runs the service exactly if none that is searched is seen to. -/
theorem elsewhere_eq_nil_iff : s.elsewhere = []
    ↔ ∀ n ∈ s.view.reach s.path, n ≠ s.view.localNode →
      ¬ (s.view.avail n s.path).isRunning := by
  unfold elsewhere
  rw [List.filter_eq_nil_iff]
  simp only [View.mem_runningOn_iff, decide_eq_true_eq, and_imp]
  exact forall_congr' fun n => forall_congr' fun _ =>
    ⟨fun h other runs => h runs other, fun h runs other => h other runs⟩

/-- A candidate is a node of the scope that is fit. -/
theorem fit_of_mem_candidates (h : n ∈ s.candidates false) : n ∈ s.config.scope ∧ s.Fit n := by
  obtain ⟨ordered, able⟩ := List.mem_filter.1 h
  rw [Bool.and_eq_true] at able
  exact ⟨Placement.mem_ordered.1 ordered, isEligible_iff_fit.1 able.2⟩

/-- **Nothing holds the service back** exactly if the cluster admits it. -/
theorem heldBy_eq_none_iff_admitted : s.heldBy false = none ↔ s.Admitted := by
  cases topology : s.config.topology with
  | failover =>
    rw [heldBy_eq_none_iff topology, View.parentsState_eq_satisfied_iff, elsewhere_eq_nil_iff,
      Placement.leader_eq_some_iff]
    simp only [← Bool.not_eq_true, isEligible_iff_fit]
    constructor
    · rintro ⟨parents, alone, inScope, fit, first⟩
      exact ⟨parents, inScope, fit, fun _ => ⟨alone, first⟩, fun flex => by
        rw [topology] at flex
        cases flex⟩
    · rintro ⟨parents, inScope, fit, leads, -⟩
      obtain ⟨alone, first⟩ := leads topology
      exact ⟨parents, alone, inScope, fit, first⟩
  | flex =>
    rw [heldBy_eq_none_iff_of_flex topology, View.parentsState_eq_satisfied_iff]
    constructor
    · rintro ⟨parents, room, rank, ranked, below⟩
      -- whoever has a rank is a candidate
      obtain ⟨bound, here, -⟩ := List.idxOf?_eq_some_iff.1 ranked
      obtain ⟨inScope, fit⟩ := fit_of_mem_candidates (here ▸ List.getElem_mem bound)
      exact ⟨parents, inScope, fit, fun failover => (by rw [topology] at failover; cases failover),
        fun _ => ⟨room, rank, ranked, below⟩⟩
    · rintro ⟨parents, -, -, -, counts⟩
      exact ⟨parents, counts topology⟩

/-- **When a service is started.** Exactly if a start is due on the node and the
cluster admits it. What is searched for instances is the scope that the service is
configured with, if that is the configuration of the local node. -/
theorem starts_iff_admitted (s : Situation) :
    (s.decide.starts ↔ s.Due ∧ s.Admitted)
      ∧ (s.view.localData?.bind (fun d => Entries.get? d.configs s.path) = some s.config →
        s.view.reach s.path = s.config.scope) := by
  refine ⟨?_, View.reach_of_local⟩
  rw [starts_iff, heldBy_eq_none_iff_admitted]

end Service.Situation

end HaCluster
