import HaCluster.Proofs.Cluster.Children
import HaCluster.Proofs.Service.Admission
import HaCluster.Proofs.Service.Rulings
import HaCluster.Proofs.Service.Transient

/-!
# When a service is stopped

A stop has one of two reasons. A node that is being emptied stops what runs on it
(`Vacates`), and a service that is asked to stop is stopped wherever nothing is
frozen (`Retires`). Both wait for the children, but for different ones: a node
that is being emptied only for those that run on it, a request for those that run
anywhere in their scope.

A frozen node or instance is out of bounds for every other rule. What may still
be done about it is to stop it because the node is being emptied, and to freeze
or thaw it if that is what is asked for (`stops_iff_and_frozen`).
-/

namespace HaCluster.Service

/-- Whether a decision stops the service. -/
def Decision.stops (d : Decision) : Bool := d.action.any fun a => a.kind = .stop

namespace Situation

variable {s : Situation} {c : String}

/-- A service is a child if the configuration that trusted nodes publish of it
names this one as a parent. -/
def IsChild (s : Situation) (c : String) : Prop :=
  ∃ cfg, s.view.publishedConfig? c = some cfg ∧ cfg.Names s.path

theorem mem_children_iff_isChild : c ∈ s.view.children s.path ↔ s.IsChild c :=
  View.mem_children_iff

/-- The node is being emptied of the service, and no child runs on it. -/
structure Vacates (s : Situation) : Prop where
  leaves : s.emptied
  alone : ∀ c, s.IsChild c → ¬ (s.view.avail s.view.localNode c).isRunning

/-- The service is asked to stop, nothing is frozen, and no child runs on a node
of its scope. -/
structure Retires (s : Situation) : Prop where
  stays : s.emptied = false
  asked : s.monitor.globalExpect = some .stopped
  thawed : s.Thawed
  alone : ∀ c, s.IsChild c → ∀ n ∈ s.view.reach c, ¬ (s.view.avail n c).isRunning

theorem runningOn_eq_nil_iff : s.view.runningOn c = []
    ↔ ∀ n ∈ s.view.reach c, ¬ (s.view.avail n c).isRunning :=
  List.filter_eq_nil_iff

theorem stops_stopForNode (reason : String) (stops : s.Stops)
    (alone : ∀ c, s.IsChild c → ¬ (s.view.avail s.view.localNode c).isRunning) :
    (s.stopForNode reason).stops := by
  have none : (s.view.children s.path).filter
      (fun c => (s.view.avail s.view.localNode c).isRunning) = [] :=
    List.filter_eq_nil_iff.2 fun c hc => alone c (mem_children_iff_isChild.1 hc)
  unfold stopForNode
  rw [if_neg (by rw [stops.isRunning]; decide), if_neg stops.unfailed]
  dsimp only
  rw [none]
  rfl

theorem stops_stop (stops : s.Stops)
    (alone : ∀ c, s.IsChild c → ∀ n ∈ s.view.reach c, ¬ (s.view.avail n c).isRunning) :
    s.stop.stops := by
  have none : (s.view.children s.path).filter (fun c => !(s.view.runningOn c).isEmpty) = [] := by
    rw [List.filter_eq_nil_iff]
    intro c hc
    simp [runningOn_eq_nil_iff.2 (alone c (mem_children_iff_isChild.1 hc))]
  unfold stop
  dsimp only
  rw [none, if_neg (by decide), if_pos stops.isRunning, if_neg stops.unfailed]
  rfl

/-- **When a service is stopped.** Exactly if the instance is seen to run, no stop
of it failed, and the node is being emptied or the service asked to stop. -/
theorem stops_iff : s.decide.stops
    ↔ s.inFlight = none ∧ s.monitor.state.isTransient = false ∧ s.Stops
      ∧ (s.Vacates ∨ s.Retires) := by
  constructor
  · intro stops
    obtain ⟨a, action, stop⟩ := (Option.any_eq_true _ _).1 stops
    have idle := inFlight_of_action action
    have settled := settled_of_action action
    obtain ⟨e, effects, ruling⟩ := s.exists_ruling
    have launched : e.action = some a := effects ▸ action
    refine ⟨idle, settled, ?_⟩
    cases ruling with
    | empties leaves stops alone =>
      exact ⟨stops, .inl ⟨leaves, fun c hc => alone c (mem_children_iff_isChild.2 hc)⟩⟩
    | stops attends asked thawed stops alone =>
      refine ⟨stops, .inr ⟨(attends_iff.1 attends).2.2, asked, thawed, fun c hc => ?_⟩⟩
      exact runningOn_eq_nil_iff.1 (alone c (mem_children_iff_isChild.2 hc))
    | _ =>
      -- whatever else is launched is no stop
      cases launched <;> cases stop
  · rintro ⟨idle, settled, stops, vacates | retires⟩
    · obtain ⟨reason, decided⟩ := decide_of_emptied idle settled vacates.leaves
      rw [decided]
      exact stops_stopForNode reason stops vacates.alone
    · rw [decide_of_attends (attends_iff.2 ⟨idle, settled, retires.stays⟩)]
      have rule : s.orchestrate = s.stop := by
        unfold orchestrate unlessFrozen
        simp [retires.asked, retires.thawed.1, retires.thawed.2]
      rw [rule]
      exact stops_stop stops retires.alone

/-- **What is done about what is frozen.** A node that is being emptied stops the
service, and a request to freeze or to thaw is followed. -/
theorem action_of_frozen (frozen : ¬ s.Thawed) {a : Action} (action : s.decide.action = some a) :
    a = .whole s.path .stop ∧ s.Vacates
      ∨ a = .whole s.path .freeze ∧ s.monitor.globalExpect = some .frozen
      ∨ a = .whole s.path .thaw ∧ s.monitor.globalExpect = some .thawed := by
  obtain ⟨e, effects, ruling⟩ := s.exists_ruling
  have launched : e.action = some a := effects ▸ action
  cases ruling with
  | rests | retries | settles => cases launched
  | empties leaves stops alone =>
    cases launched
    exact .inl ⟨rfl, leaves, fun c hc => alone c (mem_children_iff_isChild.2 hc)⟩
  | freezes attends asked =>
    cases launched
    exact .inr (.inl ⟨rfl, asked⟩)
  | thaws attends asked =>
    cases launched
    exact .inr (.inr ⟨rfl, asked⟩)
  | stops attends asked thawed => exact absurd thawed frozen
  | provisions attends thawed => exact absurd thawed frozen
  | starts attends thawed => exact absurd thawed frozen
  | restarts attends thawed => exact absurd thawed frozen

/-- **Stops, and what is frozen.** When a service is stopped, and that nothing but
such a stop of a node that is being emptied, and what is asked for, is done about
an instance that is frozen or lies on a frozen node. -/
theorem stops_iff_and_frozen (s : Situation) :
    (s.decide.stops ↔ s.inFlight = none ∧ s.monitor.state.isTransient = false ∧ s.Stops
        ∧ (s.Vacates ∨ s.Retires))
      ∧ (s.nodeFrozen ∨ s.instanceFrozen → ∀ a, s.decide.action = some a →
        a = .whole s.path .stop ∧ s.Vacates
          ∨ a = .whole s.path .freeze ∧ s.monitor.globalExpect = some .frozen
          ∨ a = .whole s.path .thaw ∧ s.monitor.globalExpect = some .thawed) := by
  refine ⟨stops_iff, fun frozen a action => action_of_frozen ?_ action⟩
  rintro ⟨node, here⟩
  rw [node, here] at frozen
  exact frozen.elim nofun nofun

/-- A frozen node shuts down while `svc` is up on it. -/
def leaving : Situation :=
  let b : View.Basis := { pair .ready with
    snapshot := .map [("cluster", .map
      [("nodes", .map [("n1", upBlob), ("n2", downBlob .idle)])])] }
  { ofPair .ready "n1" with view := b.view "n1" [], nodeState := .shutting, nodeFrozen := true }

theorem stops_iff_and_frozen_leaving : leaving.decide.stops ∧ leaving.Stops ∧ leaving.Vacates := by
  have stops : leaving.decide.stops := by decide +kernel
  have action : leaving.decide.action = some (.whole "svc" .stop) := by decide +kernel
  refine ⟨stops, ((stops_iff_and_frozen leaving).1.1 stops).2.2.1, ?_⟩
  rcases (stops_iff_and_frozen leaving).2 (.inl rfl) _ action with
    ⟨-, vacates⟩ | ⟨same, -⟩ | ⟨same, -⟩
  · exact vacates
  · exact absurd same (by decide)
  · exact absurd same (by decide)

end Situation

end HaCluster.Service
