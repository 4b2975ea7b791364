import HaCluster.Proofs.Cluster.View
import HaCluster.Proofs.Placement.Order
import HaCluster.Proofs.Service.Start

/-!
# Who starts a failover service

No node asks another one before it starts a failover service. Each takes the
first eligible node of the placement order to be the leader and starts the
service only if it is the leader itself. What makes a node eligible is read
off its published data alone, so nodes that see the same data name the same
leader, and at most one of them starts the service.

The rule is about one moment. What a leader has begun, its successor does not
know of: an instance that is starting is not up yet, and no rule asks for it.
-/

namespace HaCluster.Service.Situation

variable {s t : Situation}

/-- Whether a node may run a new instance is read off what it published. -/
theorem isEligible_eq (s : Situation) (retrying : Bool) (node : String) :
    s.isEligible retrying node
      = (s.view.trusted? node).any (fun d =>
          d.monitor.state = .idle && !d.isFrozen
            && (Entries.get? d.instances s.path).any (fun i =>
              !i.isFrozen && i.constraints
                && (i.monitor.state ≠ .startFailed || (retrying && node = s.view.localNode)))) := by
  unfold isEligible View.nodeMonitor? View.nodeFrozen? View.instance?
  cases shown : s.view.trusted? node with
  | none => simp [shown]
  | some d =>
    have seen : (s.view.isAlive node && !s.view.isStale node) = true := by
      unfold View.trusted? at shown
      split at shown
      · assumption
      · cases shown
    simp [seen, shown]

/-- Two nodes that see the same data find the same nodes eligible, as long as
neither tries again what has failed. -/
theorem isEligible_congr (path : s.path = t.path)
    (shown : ∀ n, s.view.trusted? n = t.view.trusted? n) :
    s.isEligible false = t.isEligible false := by
  funext n
  rw [isEligible_eq, isEligible_eq, shown, path]
  simp

/-- The situation of a node that beats, on its own view of what it has in
common with the others. None of the nodes that beat is out of step for it. -/
structure FoundBy (s : Situation) (b : View.Basis) (node : String) : Prop where
  live : node ∈ b.live
  view : ∃ desynced, s.view = b.view node desynced ∧ ∀ n ∈ b.live, n ∉ desynced

/-- The leader is the same wherever it is determined. -/
theorem leader_agree {b : View.Basis} (fresh : ∀ n ∈ b.live, b.Fresh n) {m n : String}
    (hs : s.FoundBy b m) (ht : t.FoundBy b n) (path : s.path = t.path)
    (config : s.config = t.config) :
    Placement.leader s.config.placement s.path s.config.scope (s.isEligible false)
      = Placement.leader t.config.placement t.path t.config.scope (t.isEligible false) := by
  obtain ⟨liveS, dS, viewS, syncedS⟩ := hs
  obtain ⟨liveT, dT, viewT, syncedT⟩ := ht
  have shown : ∀ k, s.view.trusted? k = t.view.trusted? k := by
    intro k
    rw [viewS, viewT]
    exact View.Basis.trusted?_agree fresh liveS liveT syncedS syncedT k
  rw [isEligible_congr path shown, path, config]

/-- **At most one node starts a failover service.** Two live nodes that decide
about it on the same snapshot, whatever else they know or do, never both start
it. -/
theorem one_starter {b : View.Basis} (fresh : ∀ n ∈ b.live, b.Fresh n) {m n : String}
    (hs : s.FoundBy b m) (ht : t.FoundBy b n) (other : m ≠ n) (path : s.path = t.path)
    (config : s.config = t.config) (failover : s.config.topology = .failover) :
    ¬ (s.decide.starts ∧ t.decide.starts) := by
  rintro ⟨startsS, startsT⟩
  have leadS := ((heldBy_eq_none_iff failover false).mp (starts_iff.mp startsS).2).2.2
  have leadT := ((heldBy_eq_none_iff (config ▸ failover) false).mp (starts_iff.mp startsT).2).2.2
  -- both name one leader, and each of them says that it is itself
  rw [leader_agree fresh hs ht path config, leadT] at leadS
  obtain ⟨-, dS, viewS, -⟩ := hs
  obtain ⟨-, dT, viewT, -⟩ := ht
  rw [viewS, viewT] at leadS
  exact other (Option.some.inj leadS).symm

/-- What an idle node publishes that has an instance of `svc` which is down. -/
def downBlob (state : State) : Value :=
  let config := .map [("orchestrate", .str "ha"), ("scope", .ofStrings ["n1", "n2"])]
  let status := .map
    [("avail", .str "down"), ("monitor", .map [("status", Named.toValue state)])]
  .map
    [("monitor", .map [("status", .str "idle")]),
     ("services", .map [("config", .map [("svc", config)]), ("status", .map [("svc", status)])]),
     ("updated", .float 10)]

/-- Two nodes that beat. The first is ready to start `svc`. -/
def pair (second : State) : View.Basis where
  snapshot := .map [("cluster", .map
    [("nodes", .map [("n1", downBlob .ready), ("n2", downBlob second)])])]
  now := 10
  live := ["n1", "n2"]
  declared := ["n1", "n2"]
  staleAfter := .seconds 30

/-- The situation in which one of the two nodes decides about `svc`. -/
def ofPair (second : State) (node : String) : Situation where
  path := "svc"
  view := (pair second).view node []
  config := ⟨["n1", "n2"], .failover, 1, none, [], .ha, .nodesOrder, false⟩
  monitor := { Monitor.blank with state := if node = "n1" then .ready else second }
  nodeState := .idle
  nodeFrozen := false
  inFlight := none
  now := 10
  readyPeriod := 5
  maxStartRetries := 0

theorem one_starter_pair :
    (ofPair .ready "n1").decide.starts
      ∧ ¬ ((ofPair .ready "n1").decide.starts ∧ (ofPair .ready "n2").decide.starts) := by
  refine ⟨by decide +kernel, ?_⟩
  have fresh : ∀ n ∈ (pair .ready).live, (pair .ready).Fresh n := by
    have young : ¬ (Span.seconds 30).toSeconds < (10 : Float) - 10 := by decide +kernel
    intro n hn
    rcases List.mem_pair.mp hn with rfl | rfl
    · exact ⟨_, rfl, young⟩
    · exact ⟨_, rfl, young⟩
  exact one_starter fresh (m := "n1") (n := "n2")
    ⟨by decide, [], rfl, by simp⟩ ⟨by decide, [], rfl, by simp⟩ (by decide) rfl rfl rfl

/-! ## Peers that are starting -/

/-- The other nodes of the scope that are seen to be starting the service. -/
def startingElsewhere (s : Situation) : List String :=
  s.config.scope.filter (fun n => n ≠ s.view.localNode
    && (s.view.instance? n s.path).any (fun i => i.monitor.state = .starting))

/-- A failover service is not started while another node is seen to be
starting it. -/
def YieldsToStarting (s : Situation) : Prop :=
  s.config.topology = .failover → s.startingElsewhere ≠ [] → s.decide.starts = false

/-- **What makes a node wait for one that is starting.** Nothing but the
conditions of every start: that it is not due here, that a parent is not up,
that the service already runs elsewhere, or that the local node does not lead.
The record of the other node is not among them, so a node that comes to lead
while another one is starting starts the service a second time. -/
theorem yieldsToStarting_iff (s : Situation) :
    s.YieldsToStarting
      ↔ (s.config.topology = .failover →
        s.startingElsewhere = [] ∨ ¬ s.Due ∨ s.view.parentsState s.config.parents ≠ .satisfied
          ∨ s.elsewhere ≠ []
          ∨ Placement.leader s.config.placement s.path s.config.scope (s.isEligible false)
            ≠ some s.view.localNode) := by
  refine forall_congr' (fun failover => ?_)
  rw [← Bool.not_eq_true, starts_iff, heldBy_eq_none_iff failover]
  simp only [ne_eq, Decidable.imp_iff_not_or, not_not, not_and_or]

theorem not_yieldsToStarting_pair : ¬ (ofPair .starting "n1").YieldsToStarting := by
  intro yields
  have starting : (ofPair .starting "n1").startingElsewhere ≠ [] := by decide +kernel
  have starts : (ofPair .starting "n1").decide.starts = true := by decide +kernel
  exact absurd (yields rfl starting) (by rw [starts]; decide)

/-- An eligible node keeps every node after it from starting. So a node that is
starting is waited for by those after it, as long as it stays eligible. -/
theorem starts_eq_false_of_earlier (failover : s.config.topology = .failover) {n : String}
    {before after : List String}
    (order : Placement.ordered s.config.placement s.path s.config.scope
      = before ++ s.view.localNode :: after)
    (earlier : n ∈ before) (eligible : s.isEligible false n) : s.decide.starts = false := by
  rw [← Bool.not_eq_true, starts_iff, heldBy_eq_none_iff failover]
  rintro ⟨-, -, -, leads⟩
  exact Placement.leader_ne_of_earlier order earlier eligible leads

end HaCluster.Service.Situation
