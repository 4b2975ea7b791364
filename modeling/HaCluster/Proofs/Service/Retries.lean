import HaCluster.Proofs.Service.Start

/-!
# What a decision makes of a start that failed

A service that the cluster keeps up by itself, and that does not run, is not
acted on but by starting it. Of such a service a decision does one of three
things (`Attempt`): it waits, it gets ready for another attempt and counts it as
a retry, or it starts the service from `ready`.

Waiting keeps a start that failed in mind, with two exceptions: where the local
status is unknown, and where the node is being emptied, the record becomes
`idle` (`Situation.forgets`), and the next attempt is none that is counted.

Of whatever service, a retry is to be counted only of an instance that is seen, and
only as long as there are retries left: of the starts that are allowed, or of the
restarts that a resource is granted (`Situation.Counts`).
-/

namespace HaCluster.Service

variable {s : Situation}

namespace Situation

/-- The node is being emptied of the service. -/
def emptied (s : Situation) : Bool :=
  match s.nodeState with
  | .shutting => true
  | .draining | .drained => !s.config.alwaysOn
  | _ => false

/-- What the service is decided about on does not remember that its start
failed: the local status is unknown, or the node is being emptied. -/
def forgets (s : Situation) : Bool := s.avail = .unknown || s.emptied

/-- A service that does not run, and that nothing is asked of but what the
cluster does by itself. -/
structure Lingers (s : Situation) : Prop where
  kept : s.config.orchestration = .ha
  down : s.avail.isRunning = false
  unasked : s.monitor.globalExpect = none
  fresh : s.monitor.localExpect = none

end Situation

/-- A decision changes neither what is expected of an instance nor drops its
counters. -/
structure Decision.Plain (d : Decision) : Prop where
  expects : d.localExpect = .keep
  drops : d.dropRetries = none

/-- What a decision does about starting a service. -/
inductive Attempt (s : Situation) (d : Decision) : Prop
  /-- It neither starts it nor counts anything. -/
  | waits (action : d.action = none) (count : d.countRetry = none)
    (kept : s.monitor.state = .startFailed → d.state = .startFailed ∨ s.forgets)
  /-- It gets ready for another attempt after one that failed. -/
  | retries (idle : s.inFlight = none) (failed : s.monitor.state = .startFailed)
    (left : s.startRetries < s.maxStartRetries) (action : d.action = none)
    (count : d.countRetry = some serviceRetries)
  | starts (idle : s.inFlight = none) (ready : s.monitor.state = .ready)
    (action : d.action = some (.whole s.path .start)) (count : d.countRetry = none)

namespace Situation

/-- What holds a service back leaves a start that failed as it is. -/
theorem heldBy_waits {retrying : Bool} {d : Decision} (h : s.heldBy retrying = some d) :
    d.countRetry = none ∧ d.Plain ∧ (retrying → d.state = .startFailed) := by
  obtain ⟨state, reason, clear, -, rfl⟩ := holds_of_heldBy h
  exact ⟨rfl, ⟨rfl, rfl⟩, fun again => if_pos again⟩

/-- What is done about a service whose start did not fail. -/
theorem attempt_proceed (idle : s.inFlight = none) (unfailed : s.monitor.state ≠ .startFailed) :
    Attempt s (s.proceed false) ∧ (s.proceed false).Plain := by
  have vacuous {d : Decision} :
      s.monitor.state = .startFailed → d.state = .startFailed ∨ s.forgets :=
    fun failed => absurd failed unfailed
  unfold proceed
  cases held : s.heldBy false with
  | some d =>
    obtain ⟨count, plain, -⟩ := heldBy_waits held
    exact ⟨.waits (action_heldBy held) count vacuous, plain⟩
  | none =>
    dsimp only
    split
    · exact ⟨.waits rfl rfl vacuous, rfl, rfl⟩
    · rename_i ready
      split
      · exact ⟨.waits rfl rfl vacuous, rfl, rfl⟩
      · exact ⟨.starts idle (Decidable.not_not.1 ready) rfl rfl, rfl, rfl⟩

/-- **A start that failed** is tried again as long as there are retries left,
and counted; until then it is kept in mind. -/
theorem attempt_retry (idle : s.inFlight = none) (failed : s.monitor.state = .startFailed) :
    Attempt s s.retry ∧ s.retry.Plain := by
  unfold retry
  dsimp only
  split
  · exact ⟨.waits rfl rfl fun _ => .inl rfl, rfl, rfl⟩
  · rename_i left
    split
    · exact ⟨.waits rfl rfl fun _ => .inl rfl, rfl, rfl⟩
    · unfold proceed
      cases held : s.heldBy true with
      | some d =>
        obtain ⟨count, plain, kept⟩ := heldBy_waits held
        exact ⟨.waits (action_heldBy held) count fun _ => .inl (kept rfl), plain⟩
      | none =>
        dsimp only
        rw [if_pos (by rw [failed]; decide)]
        exact ⟨.retries idle failed (Nat.not_le.1 left) rfl rfl, rfl, rfl⟩

theorem attempt_start (h : s.Lingers) (idle : s.inFlight = none) :
    Attempt s s.start ∧ s.start.Plain := by
  have fresh : s.startedHere = false := by
    unfold startedHere
    rw [h.fresh]
    rfl
  unfold start
  rw [fresh, if_neg (by simp [h.kept])]
  cases seen : s.instance? with
  | none =>
    have unknown : s.forgets = true := by
      unfold forgets avail
      rw [seen]
      rfl
    exact ⟨.waits rfl rfl fun _ => .inr unknown, rfl, rfl⟩
  | some i =>
    have same : s.avail = i.avail := by
      unfold avail
      rw [seen]
      rfl
    dsimp only
    rw [if_neg (by rw [← same, h.down]; decide), if_neg Bool.false_ne_true]
    split
    · rename_i unknown
      have forgets : s.forgets = true := by
        unfold forgets
        rw [same, unknown]
        rfl
      exact ⟨.waits rfl rfl fun _ => .inr forgets, rfl, rfl⟩
    · split
      · exact attempt_retry idle ‹_›
      · exact attempt_proceed idle ‹_›

theorem attempt_orchestrate (h : s.Lingers) (idle : s.inFlight = none) :
    Attempt s s.orchestrate ∧ s.orchestrate.Plain := by
  unfold orchestrate
  rw [h.unasked]
  dsimp only
  unfold unlessFrozen
  rw [h.unasked]
  dsimp only
  -- what stays as it is while the node or the instance is frozen is a failure
  have stays (reason : String) :
      Attempt s (.enter (if s.monitor.state.isFailed then s.monitor.state else .idle) reason) :=
    .waits rfl rfl fun failed => .inl (by rw [failed]; rfl)
  split
  · exact ⟨stays _, rfl, rfl⟩
  · split
    · exact ⟨stays _, rfl, rfl⟩
    · exact attempt_start h idle

/-- A node that is being emptied has nothing to stop. -/
theorem attempt_stopForNode (h : s.Lingers) (emptied : s.emptied) (reason : String) :
    Attempt s (s.stopForNode reason) ∧ (s.stopForNode reason).Plain := by
  unfold stopForNode
  rw [if_pos (by rw [h.down]; rfl)]
  refine ⟨.waits rfl rfl fun _ => .inr ?_, ?_, rfl⟩
  · unfold forgets
    rw [emptied, Bool.or_true]
  · show Change.clearIfSet s.monitor.localExpect = _
    rw [h.fresh]
    rfl

/-- **What is decided about a service that does not run** is to wait, to retry
or to start it, and nothing else. -/
theorem attempt_decide (h : s.Lingers) : Attempt s s.decide ∧ s.decide.Plain := by
  unfold decide
  cases idle : s.inFlight with
  | some kind => exact ⟨.waits rfl rfl fun failed => .inl failed, rfl, rfl⟩
  | none =>
    dsimp only
    split
    · rename_i transient
      refine ⟨.waits rfl rfl fun failed => ?_, rfl, rfl⟩
      rw [failed] at transient
      cases transient
    · cases state : s.nodeState with
      | shutting =>
        exact attempt_stopForNode h (by unfold emptied; rw [state]) _
      | draining | drained =>
        dsimp only
        split
        · exact attempt_orchestrate h idle
        · rename_i leaves
          refine attempt_stopForNode h ?_ _
          unfold emptied
          rw [state]
          simpa using leaves
      | _ => exact attempt_orchestrate h idle

/-! ## What is counted -/

/-- A decision counts a retry at most of an instance that is seen, and of which
there are retries left. -/
def Counts (s : Situation) (d : Decision) : Prop :=
  ∀ key, d.countRetry = some key → ∃ i, s.instance? = some i
    ∧ ((Entries.get? s.monitor.retries key).getD 0 < s.maxStartRetries
      ∨ ∃ r, (key, r) ∈ i.resources ∧ (Entries.get? s.monitor.retries key).getD 0 < r.restarts)

end Situation

end HaCluster.Service
