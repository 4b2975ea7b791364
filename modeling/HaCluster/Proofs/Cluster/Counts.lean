import Mathlib.Data.Finset.Dedup
import Mathlib.Data.Finset.Card
import HaCluster.Cluster.Parents
import HaCluster.Proofs.Cluster.View

/-!
# How instances are counted

A service runs at most once on a node, so how many instances of it are up is a
number of nodes, whatever the scope of the service looks like. A scope may name
a node twice: no rule on configurations forbids it, and the placement order
drops the repetition. The queries that count walk the scope as it stands, once
for each time that a node is named. They count nodes exactly where no node on
which an instance runs is named twice (`countsNodes_iff`); where one is, a
parent can be taken to have all its instances when half of them are missing
(`not_countsNodes_twice`).
-/

namespace HaCluster.View

variable {v : View} {path n : String} {c : Service.Config}

/-- The nodes that are searched for instances that run: the scope of the service,
and the whole cluster where no configuration of it is to be found. -/
def reach (v : View) (path : String) : List String :=
  match v.serviceConfig? path with
  | some c => c.scope
  | none => v.clusterNodes

/-- A service that is configured on the local node is searched for in the scope
that it has there. -/
theorem reach_of_local (own : v.localData?.bind (fun d => Entries.get? d.configs path) = some c) :
    v.reach path = c.scope := by
  unfold reach serviceConfig?
  rw [own]

theorem reach_of_config (found : v.serviceConfig? path = some c) : v.reach path = c.scope := by
  unfold reach
  rw [found]

theorem runningOn_eq (v : View) (path : String) :
    v.runningOn path = (v.reach path).filter fun n => (v.avail n path).isRunning := rfl

theorem mem_runningOn_iff :
    n ∈ v.runningOn path ↔ n ∈ v.reach path ∧ (v.avail n path).isRunning :=
  List.mem_filter

/-- The nodes of a service's scope that are seen to report it up. -/
def nodesUp (v : View) (path : String) : Finset String :=
  match v.serviceConfig? path with
  | some c => c.scope.toFinset.filter fun n => v.avail n path = .up
  | none => ∅

/-- Instances of a service are counted once for each node. -/
structure CountsNodes (v : View) (path : String) : Prop where
  /-- The nodes where the service is up are counted, … -/
  upCount : v.upCount path = (v.nodesUp path).card
  /-- … those where an instance runs are listed once, … -/
  runningOn : (v.runningOn path).Nodup
  /-- … a flex parent has as many nodes up as it asks for, and one at least, … -/
  flex : ∀ parent c, Service.ParentRef.ofText parent = .anywhere path →
    v.serviceConfig? path = some c → c.topology = .flex →
      (v.parentState parent = .satisfied ↔ max 1 c.flexMin ≤ (v.nodesUp path).card)
  /-- … and a failover parent has one. -/
  failover : ∀ parent c, Service.ParentRef.ofText parent = .anywhere path →
    v.serviceConfig? path = some c → c.topology = .failover →
      (v.parentState parent = .satisfied ↔ ∃ n ∈ c.scope, v.avail n path = .up)

/-- A parent is satisfied by as many instances as are counted up. -/
theorem parentState_eq_satisfied_iff {parent : String}
    (ref : Service.ParentRef.ofText parent = .anywhere path)
    (found : v.serviceConfig? path = some c) :
    v.parentState parent = .satisfied ↔ needed c ≤ v.upCount path := by
  have counted : (c.scope.map fun n => v.avail n path).count .up = v.upCount path := by
    simp only [upCount, found, List.count_eq_countP, List.countP_map]
    exact List.countP_congr fun n _ => by simp
  unfold parentState
  rw [ref]
  simp only [found, counted]
  split
  · exact iff_of_true rfl ‹_›
  · split <;> exact iff_of_false (by simp) ‹_›

/-- What is counted, and the nodes that are there to count, come from one walk
through the scope. -/
theorem exists_walk (v : View) (path : String) : ∃ up : List String,
    up.Sublist (v.runningOn path) ∧ v.upCount path = up.length
      ∧ v.nodesUp path = up.toFinset := by
  unfold upCount nodesUp
  cases found : v.serviceConfig? path with
  | none => exact ⟨[], List.nil_sublist _, rfl, rfl⟩
  | some c =>
    refine ⟨c.scope.filter fun n => v.avail n path = .up, ?_, List.countP_eq_length_filter, ?_⟩
    · rw [runningOn_eq, reach_of_config found]
      refine List.monotone_filter_right _ fun n isUp => ?_
      rw [decide_eq_true_eq] at isUp
      rw [isUp]
      rfl
    · rw [List.toFinset_filter]
      simp only [decide_eq_true_eq]

/-- No node is missed: there are as many instances counted as nodes, or more. -/
theorem card_nodesUp_le (v : View) (path : String) :
    (v.nodesUp path).card ≤ v.upCount path := by
  obtain ⟨up, -, counted, nodes⟩ := exists_walk v path
  rw [counted, nodes]
  exact List.toFinset_card_le up

/-- Where no node is listed twice that runs an instance, those that are up are
nodes. -/
theorem upCount_eq_card (once : (v.runningOn path).Nodup) :
    v.upCount path = (v.nodesUp path).card := by
  obtain ⟨up, walk, counted, nodes⟩ := exists_walk v path
  rw [counted, nodes, List.toFinset_card_of_nodup (once.sublist walk)]

/-- A scope that a node is up in has nodes up. -/
theorem one_le_card_nodesUp_iff (found : v.serviceConfig? path = some c) :
    1 ≤ (v.nodesUp path).card ↔ ∃ n ∈ c.scope, v.avail n path = .up := by
  unfold nodesUp
  rw [found, Nat.one_le_iff_ne_zero, Finset.card_ne_zero]
  simp only [Finset.Nonempty, Finset.mem_filter, List.mem_toFinset]

/-- A list without repetitions names no element twice that is kept. -/
theorem nodup_filter_iff {p : String → Bool} {l : List String} :
    (l.filter p).Nodup ↔ ∀ n, p n → l.count n ≤ 1 := by
  rw [List.nodup_iff_count_le_one]
  refine forall_congr' fun n => ?_
  by_cases kept : p n
  · rw [List.count_filter kept]
    exact ⟨fun le _ => le, fun le => le kept⟩
  · rw [List.count_eq_zero_of_not_mem fun mem => kept (List.mem_filter.mp mem).2]
    exact iff_of_true (Nat.zero_le 1) (absurd · kept)

/-- **When nodes are counted.** Exactly where each node on which an instance is
seen to run stands once in the scope. -/
theorem countsNodes_iff :
    v.CountsNodes path
      ↔ ∀ n, (v.avail n path).isRunning → (v.reach path).count n ≤ 1 := by
  rw [← nodup_filter_iff (p := fun n => (v.avail n path).isRunning), ← runningOn_eq]
  refine ⟨CountsNodes.runningOn, fun once => ⟨upCount_eq_card once, once, ?_, ?_⟩⟩
  · intro parent c ref found flex
    rw [parentState_eq_satisfied_iff ref found, upCount_eq_card once, needed, flex, max_comm]
  · intro parent c ref found failover
    rw [parentState_eq_satisfied_iff ref found, upCount_eq_card once, needed, failover,
      one_le_card_nodesUp_iff found]

/-- A flex service needs two instances, and has one, on a node that its scope
names twice. -/
def twice : Basis where
  snapshot :=
    .map [("cluster", .map [("nodes", .map [("n1", .map
      [("services", .map
        [("config", .map [("db", .map
          [("flex_min", .int 2), ("scope", .ofStrings ["n1", "n1"]),
           ("topology", .str "flex")])]),
         ("status", .map [("db", .map [("avail", .str "up")])])]),
       ("updated", .float 10)])])])]
  now := 10
  live := ["n1"]
  declared := ["n1"]
  staleAfter := .seconds 30

/-- The configuration breaks no rule, and the one instance is counted as two. -/
theorem not_countsNodes_twice :
    ((twice.view "n1" []).serviceConfig? "db").map Service.Config.violations = some []
      ∧ (twice.view "n1" []).nodesUp "db" = {"n1"}
      ∧ (twice.view "n1" []).upCount "db" = 2
      ∧ (twice.view "n1" []).runningOn "db" = ["n1", "n1"]
      ∧ (twice.view "n1" []).parentState "db" = .satisfied
      ∧ ¬ (twice.view "n1" []).CountsNodes "db" := by
  have running : (twice.view "n1" []).runningOn "db" = ["n1", "n1"] := by decide +kernel
  refine ⟨by decide +kernel, by decide +kernel, by decide +kernel, running, by decide +kernel, ?_⟩
  intro counts
  have once := counts.runningOn
  rw [running] at once
  simp at once

end HaCluster.View
