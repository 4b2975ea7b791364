import HaCluster.Service.Decision

/-!
# When a service starts

The rules about an instance are many, and only the last of them starts a
service: every other one waits, stops, freezes or restarts a single resource.
So a start says a lot about the situation it is decided in. This module
collects what it says: `Due` is all that the local node knows about itself
and the instance, and the rest is what the parents, the other instances and
the placement order have to say.
-/

namespace HaCluster.Service

/-- Whether a decision starts the whole service. -/
def Decision.starts (d : Decision) : Bool :=
  d.action.any (fun a => a.kind = .start && a.resources.isEmpty)

/-- A decision to wait: it goes to a state that nothing is under way in, or stays with the
start that failed if that was to be tried again. At most a request is dropped. -/
def Decision.Holds (retrying : Bool) (d : Decision) : Prop :=
  ∃ state reason clear, state.isTransient = false
    ∧ d = { Decision.enter (if retrying then .startFailed else state) reason with
      clearGlobalExpect := clear }

namespace Situation

variable {s : Situation}

/-- A start is due as far as the node itself is concerned: it is expected,
nothing on the node forbids it, and the instance has been ready for long
enough. -/
structure Due (s : Situation) : Prop where
  idle : s.inFlight = none
  ready : s.monitor.state = .ready
  waited : ¬ s.waited < s.readyPeriod
  /-- The node is not being emptied of this service. -/
  kept : s.nodeState ≠ .shutting
    ∧ (s.nodeState = .draining ∨ s.nodeState = .drained → s.config.alwaysOn)
  expected : s.monitor.globalExpect = none ∨ s.monitor.globalExpect = some .started
  thawed : s.nodeFrozen = false ∧ s.instanceFrozen = false
  wanted : s.globalStart ∨ s.config.orchestration = .ha
  /-- It is not up, nor was it when last started here. -/
  down : s.startedHere = false
    ∧ ∃ i, s.instance? = some i ∧ i.avail.isRunning = false ∧ i.avail ≠ .unknown

/-! ## Rules that start nothing -/

@[simp]
theorem starts_enter (state : State) (reason : String) :
    (Decision.enter state reason).starts = false := rfl

@[simp]
theorem starts_stopForNode (reason : String) : (s.stopForNode reason).starts = false := by
  unfold stopForNode
  split
  · rfl
  · split
    · rfl
    · dsimp only
      split <;> rfl

@[simp]
theorem starts_stop : s.stop.starts = false := by
  unfold stop
  dsimp only
  split
  · rfl
  · split
    · split <;> rfl
    · rfl

@[simp]
theorem starts_freeze : s.freeze.starts = false := by
  unfold freeze
  split
  · rfl
  · split <;> rfl

@[simp]
theorem starts_thaw : s.thaw.starts = false := by
  unfold thaw
  split
  · rfl
  · split <;> rfl

@[simp]
theorem starts_provision : s.provision.starts = false := by
  unfold provision
  split
  · rfl
  · split <;> rfl

/-- A restart names its resource, so it is no start of the service. -/
@[simp]
theorem starts_running (i : Instance) (here : Bool) : (s.running i here).starts = false := by
  unfold running
  split
  · dsimp only
    split
    · rfl
    · split <;> rfl
  · rfl

/-- What holds a service back makes it wait. -/
theorem holds_of_heldBy {retrying : Bool} {d : Decision} (h : s.heldBy retrying = some d) :
    d.Holds retrying := by
  have hold (state : State) (quiet : state.isTransient = false) (reason : String) (clear : Bool) :
      Decision.Holds retrying
        { Decision.enter (if retrying then .startFailed else state) reason with
          clearGlobalExpect := clear } := ⟨state, reason, clear, quiet, rfl⟩
  unfold heldBy at h
  dsimp only at h
  generalize (if s.globalStart then s.config.flexMax else s.config.flexMin) = target at h
  split at h
  · cases h
    exact hold .waitParents rfl _ false
  · cases h
    exact hold .waitParents rfl _ false
  · split at h
    · -- failover: it runs elsewhere, or another node leads, or none does
      split at h
      · cases h
        exact hold .idle rfl _ _
      · split at h
        · cases h
          exact hold .idle rfl _ false
        · split at h
          · cases h
          · cases h
            exact hold .waitLeader rfl _ false
    · -- flex: enough instances run, or enough better candidates are there
      split at h
      · cases h
        exact hold .idle rfl _ false
      · split at h
        · cases h
          exact hold .idle rfl _ _
        · split at h
          · cases h
            exact hold .idle rfl _ false
          · split at h
            · cases h
            · cases h
              exact hold .idle rfl _ false

theorem action_heldBy {retrying : Bool} {d : Decision} (h : s.heldBy retrying = some d) :
    d.action = none := by
  obtain ⟨state, reason, clear, -, rfl⟩ := holds_of_heldBy h
  rfl

theorem starts_heldBy {retrying : Bool} {d : Decision} (h : s.heldBy retrying = some d) :
    d.starts = false := by
  unfold Decision.starts
  rw [action_heldBy h]
  rfl

/-- Nothing holds a failover service back if its parents are up, no other node
of its scope runs it and the placement order puts the local node in charge. -/
theorem heldBy_eq_none_iff (failover : s.config.topology = .failover) (retrying : Bool) :
    s.heldBy retrying = none
      ↔ s.view.parentsState s.config.parents = .satisfied ∧ s.elsewhere = []
        ∧ Placement.leader s.config.placement s.path s.config.scope (s.isEligible retrying)
          = some s.view.localNode := by
  unfold heldBy
  simp only [failover]
  cases s.view.parentsState s.config.parents with
  | unmet reason => simp
  | unknown reason => simp
  | satisfied =>
    cases s.elsewhere with
    | cons n rest => simp
    | nil =>
      cases Placement.leader s.config.placement s.path s.config.scope (s.isEligible retrying) with
      | none => simp
      | some leader => simp

/-! ## The rule that starts -/

theorem starts_proceed (retrying : Bool) : (s.proceed retrying).starts
    ↔ s.heldBy retrying = none ∧ s.monitor.state = .ready ∧ ¬ s.waited < s.readyPeriod := by
  unfold proceed
  cases held : s.heldBy retrying with
  | some d => simp [starts_heldBy held]
  | none =>
    dsimp only
    by_cases ready : s.monitor.state = .ready
    · rw [if_neg (fun h => h ready)]
      by_cases short : s.waited < s.readyPeriod
      · simp [short]
      · simp [short, ready, Decision.starts, Decision.act, Action.whole]
    · rw [if_pos ready]
      simp [ready, Decision.starts, Decision.enter]

/-- A start that failed is tried again from `ready`, never straight away. -/
theorem starts_retry (failed : s.monitor.state = .startFailed) : s.retry.starts = false := by
  unfold retry
  dsimp only
  split
  · rfl
  · split
    · rfl
    · rw [← Bool.not_eq_true, starts_proceed, failed]
      simp

theorem starts_start : s.start.starts
    ↔ (s.globalStart ∨ s.config.orchestration = .ha)
      ∧ (s.startedHere = false
        ∧ ∃ i, s.instance? = some i ∧ i.avail.isRunning = false ∧ i.avail ≠ .unknown)
      ∧ (s.proceed false).starts := by
  unfold start
  cases here : s.startedHere with
  | true =>
    -- where it was started once, it is looked at, and not started
    simp only [Bool.not_true, Bool.and_false, Bool.false_and, Bool.false_eq_true, if_false,
      if_true, false_and, and_false, iff_false, reduceCtorEq]
    split
    · simp
    · split
      · simp
      · split <;> simp [Decision.starts, Decision.enter]
  | false =>
    by_cases wanted : s.globalStart ∨ s.config.orchestration = .ha
    · rw [if_neg (by simpa [Decidable.or_iff_not_imp_left] using wanted)]
      cases seen : s.instance? with
      | none => simp
      | some i =>
        cases running : i.avail.isRunning with
        | true => simp [running]
        | false =>
          by_cases unknown : i.avail = .unknown
          · rw [unknown] at running
            simp [unknown, running]
          · by_cases failed : s.monitor.state = .startFailed
            · simp [running, unknown, failed, starts_retry, starts_proceed]
            · simp [running, unknown, failed, wanted]
    · rw [if_pos (by simpa [not_or] using wanted)]
      simp [wanted]

theorem starts_unlessFrozen : s.unlessFrozen.starts
    ↔ (s.nodeFrozen = false ∧ s.instanceFrozen = false)
      ∧ s.monitor.globalExpect ≠ some .stopped ∧ s.monitor.globalExpect ≠ some .provisioned
      ∧ s.start.starts := by
  unfold unlessFrozen
  cases node : s.nodeFrozen with
  | true => simp
  | false =>
    cases frozen : s.instanceFrozen with
    | true => simp
    | false =>
      simp only [Bool.false_eq_true, if_false, and_self, true_and]
      cases s.monitor.globalExpect with
      | none => simp
      | some e => cases e <;> simp

theorem starts_orchestrate : s.orchestrate.starts
    ↔ s.monitor.globalExpect ≠ some .frozen ∧ s.monitor.globalExpect ≠ some .thawed
      ∧ s.unlessFrozen.starts := by
  unfold orchestrate
  cases s.monitor.globalExpect with
  | none => simp
  | some e => cases e <;> simp

theorem starts_decide : s.decide.starts
    ↔ s.inFlight = none ∧ s.monitor.state.isTransient = false
      ∧ (s.nodeState ≠ .shutting
        ∧ (s.nodeState = .draining ∨ s.nodeState = .drained → s.config.alwaysOn))
      ∧ s.orchestrate.starts := by
  unfold decide
  cases s.inFlight with
  | some kind => simp
  | none =>
    cases s.monitor.state.isTransient with
    | true => simp
    | false =>
      -- only a node that is being emptied treats its services differently
      cases s.nodeState <;> cases s.config.alwaysOn <;> simp

/-- **A start is decided exactly if it is due and nothing holds it back.** -/
theorem starts_iff : s.decide.starts ↔ s.Due ∧ s.heldBy false = none := by
  rw [starts_decide, starts_orchestrate, starts_unlessFrozen, starts_start, starts_proceed]
  constructor
  · rintro ⟨idle, -, kept, notFrozen, notThawed, thawed, notStopped, notProvisioned, wanted, down,
      free, ready, waited⟩
    refine ⟨⟨idle, ready, waited, kept, ?_, thawed, wanted, down⟩, free⟩
    cases expected : s.monitor.globalExpect with
    | none => exact .inl rfl
    | some e => cases e <;> simp_all
  · rintro ⟨⟨idle, ready, waited, kept, expected, thawed, wanted, down⟩, free⟩
    -- a record that is `ready` has no action under way
    have settled : s.monitor.state.isTransient = false := by
      rw [ready]
      rfl
    have unasked (e : GlobalExpect) (he : e ≠ .started) : s.monitor.globalExpect ≠ some e := by
      rcases expected with h | h
      · simp [h]
      · rw [h]
        exact fun same => he (Option.some.inj same).symm
    exact ⟨idle, settled, kept, unasked _ nofun, unasked _ nofun, thawed, unasked _ nofun,
      unasked _ nofun, wanted, down, free, ready, waited⟩

end Situation

end HaCluster.Service
