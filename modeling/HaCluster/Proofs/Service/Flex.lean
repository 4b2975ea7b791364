import Mathlib.Data.Finset.Card
import Mathlib.Data.Nat.PSub
import HaCluster.Proofs.Service.Election

/-!
# How many nodes start a flex service

A flex service runs on several nodes, and every node that is short of
instances would like to help. Each of them ranks the candidates and starts
only if fewer candidates stand before it than instances are missing.

The nodes do not agree on how many are missing: one that is asked to start the
service everywhere counts up to `flex_max`, the others up to `flex_min`. But
they agree on the instances that run and on the ranking, and no node counts
further than `flex_max`. So all that start are among the first candidates, as
many as `flex_max` leaves room for (`starters_subset_take`).

The rule limits starts and nothing else. Where more instances run than
`flex_max` allows, no node stops one.
-/

namespace HaCluster

namespace View.Basis

/-- Whether a node published that its instance runs. -/
def runs (b : Basis) (path node : String) : Bool :=
  ((b.data? node).bind (fun d => Entries.get? d.instances path)).any
    (fun i => i.avail.isRunning)

/-- The nodes of a scope that beat and run an instance, as often as the scope
names them. -/
def runningIn (b : Basis) (scope : List String) (path : String) : List String :=
  scope.filter (fun n => b.live.contains n && b.runs path n)

/-- The nodes of a scope that beat and run an instance. -/
def runners (b : Basis) (scope : List String) (path : String) : Finset String :=
  (b.runningIn scope path).toFinset

end View.Basis

namespace Service.Situation

variable {s : Situation}

/-! ## The flex rule -/

/-- How many instances the local node wants. -/
def target (s : Situation) : Nat :=
  if s.globalStart then s.config.flexMax else s.config.flexMin

/-- The nodes that may run a new instance beside those that run one, the best
one first. -/
def candidates (s : Situation) (retrying : Bool) : List String :=
  Placement.ranked s.config.placement s.path s.config.scope
    (fun n => !s.elsewhere.contains n && s.isEligible retrying n)

/-- Nothing holds a flex service back if its parents are up, there is room for
an instance more, and fewer candidates stand before the local node than
instances are missing. -/
theorem heldBy_eq_none_iff_of_flex (flex : s.config.topology = .flex) (retrying : Bool) :
    s.heldBy retrying = none
      ↔ s.view.parentsState s.config.parents = .satisfied
        ∧ s.elsewhere.length < s.config.flexMax
        ∧ ∃ rank, (s.candidates retrying).idxOf? s.view.localNode = some rank
          ∧ rank < s.target - s.elsewhere.length := by
  unfold heldBy candidates target
  simp only [flex]
  cases s.view.parentsState s.config.parents with
  | unmet reason => simp
  | unknown reason => simp
  | satisfied =>
    generalize (if s.globalStart then s.config.flexMax else s.config.flexMin) = target
    generalize (Placement.ranked s.config.placement s.path s.config.scope _).idxOf? _ = rank
    by_cases full : s.config.flexMax ≤ s.elsewhere.length
    · simp [full]
    · by_cases enough : target ≤ s.elsewhere.length
      · simp [full, enough, Nat.sub_eq_zero_of_le enough]
      · cases rank with
        | none => simp [full, enough]
        | some rank => simp [full, enough, Nat.lt_of_not_le full, Nat.lt_sub_iff_add_lt]

/-- What holds the service back, where the number of missing instances is
taken by a subtraction that fails below zero. -/
def heldBy? (s : Situation) (retrying : Bool) : Option (Option Decision) :=
  let hold := fun reason => Decision.enter (if retrying then .startFailed else .idle) reason
  match s.view.parentsState s.config.parents, s.config.topology with
  | .satisfied, .flex =>
    let running := s.elsewhere.length
    if s.config.flexMax ≤ running then
      some (some (hold ("flex_max " ++ toString s.config.flexMax ++ " reached")))
    else if s.target ≤ running then
      some (some { hold (toString running ++ " instances up") with
        clearGlobalExpect := s.globalStart && s.startSatisfied })
    else
      (s.target.psub running).map (fun missing =>
        match (s.candidates retrying).idxOf? s.view.localNode with
        | none => some (hold "not eligible")
        | some rank =>
          if rank < missing then none else some (hold "enough better ranked candidates"))
  | _, _ => some (s.heldBy retrying)

/-- The subtraction never falls below zero: it is made only where instances are
missing. -/
theorem heldBy?_eq (s : Situation) (retrying : Bool) :
    s.heldBy? retrying = some (s.heldBy retrying) := by
  unfold heldBy?
  dsimp only
  split
  · next parents flex =>
    unfold heldBy
    simp only [parents, flex]
    split
    · rfl
    · split
      · next enough =>
        unfold target at enough
        rw [if_pos enough]
      · next missing =>
        rw [Nat.psub_eq_sub (Nat.le_of_not_le missing)]
        unfold target at missing ⊢
        rw [if_neg missing]
        rfl
  · rfl

/-! ## One snapshot, many nodes -/

/-- The nodes that beat decide about a flex service on one snapshot, in which
each of them published its blob lately and with the same configuration. They
may differ in all the rest, and so in what they are asked to do. -/
structure Deciding (b : View.Basis) (path : String) (c : Config) (s : String → Situation) :
    Prop where
  flex : c.topology = .flex
  valid : c.isValid
  fresh : ∀ n ∈ b.live, b.Fresh n
  carried : ∀ n ∈ b.live, (b.data? n).bind (fun d => Entries.get? d.configs path) = some c
  found : ∀ n ∈ b.live, (s n).FoundBy b n
  path : ∀ n ∈ b.live, (s n).path = path
  config : ∀ n ∈ b.live, (s n).config = c

/-- The nodes that decide to start the service. -/
def starters (b : View.Basis) (s : String → Situation) : Finset String :=
  b.live.toFinset.filter (fun n => (s n).decide.starts)

theorem mem_starters {b : View.Basis} {s : String → Situation} {n : String} :
    n ∈ starters b s ↔ n ∈ b.live ∧ (s n).decide.starts := by
  rw [starters, Finset.mem_filter, List.mem_toFinset]

namespace Deciding

variable {b : View.Basis} {path : String} {c : Config} {s : String → Situation} {m n : String}

theorem localNode (h : Deciding b path c s) (live : n ∈ b.live) :
    (s n).view.localNode = n := by
  obtain ⟨-, desynced, view, -⟩ := h.found n live
  rw [view]
  rfl

/-- Every node sees what the nodes that beat published. -/
theorem trusted? (h : Deciding b path c s) (live : n ∈ b.live) (m : String) :
    (s n).view.trusted? m = if m ∈ b.live then b.data? m else none := by
  obtain ⟨-, desynced, view, synced⟩ := h.found n live
  rw [view]
  split
  · next beats => exact View.Basis.trusted?_view beats (h.fresh m beats) (synced m beats)
  · next dead => exact View.Basis.trusted?_view_of_notMem dead (fun e => dead (e ▸ live))

theorem instance? (h : Deciding b path c s) (live : n ∈ b.live) (m : String) :
    (s n).view.instance? m path
      = if m ∈ b.live then (b.data? m).bind (fun d => Entries.get? d.instances path)
        else none := by
  rw [View.instance?, h.trusted? live]
  split <;> rfl

/-- The configuration that a node finds in its view is the one that it decides
on. -/
theorem serviceConfig? (h : Deciding b path c s) (live : n ∈ b.live) :
    (s n).view.serviceConfig? path = some c := by
  have own : (s n).view.localData? = b.data? n := by
    obtain ⟨-, desynced, view, -⟩ := h.found n live
    rw [View.localData?, h.localNode live, view, View.Basis.node?_view]
  rw [View.serviceConfig?, own, h.carried n live]

/-- All nodes see the same instances run. -/
theorem runningOn (h : Deciding b path c s) (live : n ∈ b.live) :
    (s n).view.runningOn path = b.runningIn c.scope path := by
  rw [View.runningOn, h.serviceConfig? live]
  refine List.filter_congr (fun m _ => ?_)
  rw [View.avail, h.instance? live, View.Basis.runs]
  by_cases beats : m ∈ b.live
  · rw [if_pos beats, List.contains_iff_mem.mpr beats, Bool.true_and]
    cases (b.data? m).bind (fun d => Entries.get? d.instances path) <;> rfl
  · have dead : b.live.contains m = false := by simpa using beats
    rw [if_neg beats, dead, Bool.false_and]
    rfl

/-- A node that starts the service does not run it, so that it counts every
instance that runs. -/
theorem elsewhere (h : Deciding b path c s) (live : n ∈ b.live) (due : (s n).Due) :
    (s n).elsewhere = b.runningIn c.scope path := by
  rw [Situation.elsewhere, h.path n live, h.runningOn live, h.localNode live, List.filter_eq_self]
  intro m running
  rw [decide_eq_true_iff]
  rintro rfl
  obtain ⟨-, i, seen, down, -⟩ := due.down
  rw [Situation.instance?, h.localNode live, h.path m live, h.instance? live, if_pos live] at seen
  have runs : b.runs path m = true := (Bool.and_eq_true_iff.mp (List.mem_filter.mp running).2).2
  rw [View.Basis.runs, seen, Option.any_some, down] at runs
  cases runs

/-- Nodes that start the service rank the same candidates. -/
theorem candidates (h : Deciding b path c s) (liveM : m ∈ b.live) (liveN : n ∈ b.live)
    (dueM : (s m).Due) (dueN : (s n).Due) :
    (s m).candidates false = (s n).candidates false := by
  have shown (k : String) : (s m).view.trusted? k = (s n).view.trusted? k := by
    rw [h.trusted? liveM, h.trusted? liveN]
  have same : (s m).path = (s n).path := (h.path m liveM).trans (h.path n liveN).symm
  unfold Situation.candidates
  rw [h.elsewhere liveM dueM, h.elsewhere liveN dueN, isEligible_congr same shown, same,
    h.config m liveM, h.config n liveN]

/-- No node wants more instances than `flex_max`. -/
theorem target_le (h : Deciding b path c s) (live : n ∈ b.live) : (s n).target ≤ c.flexMax := by
  have bounds : ¬ c.flexMax < c.flexMin := by
    intro above
    have valid := h.valid
    simp [Config.isValid, Config.violations, h.flex, above] at valid
  unfold target
  rw [h.config n live]
  split
  · exact le_rfl
  · exact Nat.le_of_not_lt bounds

/-- **Whoever starts is among the first candidates**, as many as `flex_max`
leaves room for. It does not matter whose ranking is looked at. -/
theorem starters_subset_take (h : Deciding b path c s) (starts : m ∈ starters b s) :
    starters b s
      ⊆ (((s m).candidates false).take
          (c.flexMax - (b.runningIn c.scope path).length)).toFinset := by
  intro n hn
  obtain ⟨liveM, startsM⟩ := mem_starters.mp starts
  obtain ⟨liveN, startsN⟩ := mem_starters.mp hn
  obtain ⟨dueM, -⟩ := starts_iff.mp startsM
  obtain ⟨dueN, free⟩ := starts_iff.mp startsN
  have flex : (s n).config.topology = .flex := by rw [h.config n liveN, h.flex]
  obtain ⟨-, -, rank, ranked, missing⟩ := (heldBy_eq_none_iff_of_flex flex false).mp free
  rw [h.localNode liveN, ← h.candidates liveM liveN dueM dueN] at ranked
  rw [h.elsewhere liveN dueN] at missing
  rw [List.mem_toFinset, List.mem_take_iff_getElem]
  obtain ⟨bound, here, -⟩ := List.idxOf?_eq_some_iff.mp ranked
  have most := h.target_le liveN
  exact ⟨rank, by omega, here⟩

end Deciding

/-- **Starts never take a flex service beyond `flex_max`.** If any of the nodes
that beat starts the service, then the nodes that run it and the nodes that
start it are together at most `flex_max`. And no node, whatever it is asked to
do, subtracts more instances than it wants. -/
theorem starts_within_flexMax {b : View.Basis} {path : String} {c : Config}
    {s : String → Situation} (h : Deciding b path c s) :
    ((starters b s).Nonempty → (b.runners c.scope path).card + (starters b s).card ≤ c.flexMax)
      ∧ ∀ n ∈ b.live, ∀ retrying,
        (s n).heldBy? retrying = some ((s n).heldBy retrying) := by
  refine ⟨?_, fun n _ retrying => heldBy?_eq (s n) retrying⟩
  rintro ⟨m, starts⟩
  have running : (b.runners c.scope path).card ≤ (b.runningIn c.scope path).length :=
    List.toFinset_card_le _
  have starting : (starters b s).card ≤ c.flexMax - (b.runningIn c.scope path).length :=
    calc (starters b s).card
        ≤ (((s m).candidates false).take _).toFinset.card :=
          Finset.card_le_card (h.starters_subset_take starts)
      _ ≤ (((s m).candidates false).take _).length := List.toFinset_card_le _
      _ ≤ _ := List.length_take_le _ _
  -- whoever starts found room for one instance more
  have room : (b.runningIn c.scope path).length < c.flexMax := by
    obtain ⟨live, startsM⟩ := mem_starters.mp starts
    obtain ⟨due, free⟩ := starts_iff.mp startsM
    have flex : (s m).config.topology = .flex := by rw [h.config m live, h.flex]
    have room := ((heldBy_eq_none_iff_of_flex flex false).mp free).2.1
    rwa [h.elsewhere live due, h.config m live] at room
  omega

/-- What is configured for `web`, a flex service of three nodes of which one
instance is needed. -/
def flexConfig (flexMax : Nat) : Config :=
  ⟨["n1", "n2", "n3"], .flex, 1, some flexMax, [], .ha, .nodesOrder, false⟩

/-- The record of an instance of `web` that is ready. -/
def readyRecord (expect : Option GlobalExpect) : Monitor :=
  { Monitor.blank with state := .ready, globalExpect := expect }

/-- What an idle node publishes about its instance of `web`. -/
def flexBlob (flexMax : Nat) (avail : Avail) (record : Monitor) : Value :=
  let status := .map [("avail", Named.toValue avail), ("monitor", record.toValue)]
  .map
    [("monitor", .map [("status", .str "idle")]),
     ("services", .map
      [("config", .map [("web", (flexConfig flexMax).toValue)]),
       ("status", .map [("web", status)])]),
     ("updated", .float 10)]

/-- Three nodes that beat, all of them ready. The first one runs `web`, the
second one perhaps. The second one is asked to start it everywhere. -/
def trio (flexMax : Nat) (second : Avail) : View.Basis where
  snapshot := .map [("cluster", .map [("nodes", .map
    [("n1", flexBlob flexMax .up (readyRecord none)),
     ("n2", flexBlob flexMax second (readyRecord (some .started))),
     ("n3", flexBlob flexMax .down (readyRecord none))])])]
  now := 10
  live := ["n1", "n2", "n3"]
  declared := ["n1", "n2", "n3"]
  staleAfter := .seconds 30

/-- The situation in which one of the three nodes decides about `web`. -/
def ofTrio (flexMax : Nat) (second : Avail) (node : String) : Situation where
  path := "web"
  view := (trio flexMax second).view node []
  config := flexConfig flexMax
  monitor := readyRecord (if node = "n2" then some .started else none)
  nodeState := .idle
  nodeFrozen := false
  inFlight := none
  now := 10
  readyPeriod := 5
  maxStartRetries := 0

/-- The three nodes see the data that each of them published. -/
theorem deciding_trio {flexMax : Nat} {second : Avail} (valid : (flexConfig flexMax).isValid)
    (published : ∀ n ∈ (trio flexMax second).live, ((trio flexMax second).data? n).any
      (fun d => ¬ (Span.seconds 30).toSeconds < 10 - d.updated
        ∧ Entries.get? d.configs "web" = some (flexConfig flexMax))) :
    Deciding (trio flexMax second) "web" (flexConfig flexMax) (ofTrio flexMax second) := by
  have shown (n : String) (live : n ∈ (trio flexMax second).live) :
      ∃ d, (trio flexMax second).data? n = some d ∧ ¬ (Span.seconds 30).toSeconds < 10 - d.updated
        ∧ Entries.get? d.configs "web" = some (flexConfig flexMax) := by
    obtain ⟨d, data, good⟩ := (Option.any_eq_true _ _).mp (published n live)
    exact ⟨d, data, of_decide_eq_true good⟩
  exact
    { flex := rfl
      valid := valid
      fresh := fun n live =>
        have ⟨d, data, young, _⟩ := shown n live
        ⟨d, data, young⟩
      carried := fun n live => by
        obtain ⟨d, data, -, carried⟩ := shown n live
        rw [data, Option.bind_some, carried]
      found := fun n live => ⟨live, [], rfl, by simp⟩
      path := fun _ _ => rfl
      config := fun _ _ => rfl }

theorem starts_within_flexMax_trio :
    (starters (trio 2 .down) (ofTrio 2 .down)).Nonempty
      ∧ ((trio 2 .down).runners (flexConfig 2).scope "web").card
          + (starters (trio 2 .down) (ofTrio 2 .down)).card ≤ 2 := by
  have starting : (starters (trio 2 .down) (ofTrio 2 .down)).Nonempty :=
    ⟨"n2", by decide +kernel⟩
  exact ⟨starting, (starts_within_flexMax (deciding_trio (by decide) (by decide +kernel))).1
    starting⟩

/-- Where nobody starts the service, more nodes than `flex_max` may run it. -/
theorem not_within_flexMax_trio :
    Deciding (trio 1 .up) "web" (flexConfig 1) (ofTrio 1 .up)
      ∧ (∀ n ∈ (trio 1 .up).live,
        ((ofTrio 1 .up n).view.instance? n "web").map Instance.monitor
          = some (ofTrio 1 .up n).monitor)
      ∧ ¬ ((trio 1 .up).runners (flexConfig 1).scope "web").card
          + (starters (trio 1 .up) (ofTrio 1 .up)).card ≤ (flexConfig 1).flexMax := by
  refine ⟨deciding_trio (by decide) (by decide +kernel), ?_, by decide +kernel⟩
  intro n hn
  rcases List.mem_cons.mp hn with rfl | hn
  · rfl
  · rcases List.mem_pair.mp hn with rfl | rfl <;> rfl

end Service.Situation

end HaCluster
