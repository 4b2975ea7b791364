import HaCluster.Proofs.Service.Rulings

/-!
# States behind which an action runs

Six states of a record say that an action is under way. Nothing but the action
brings a service out of them again, so a decision goes to such a state only
together with the action that the state is about (`backed_decide`). A record
that is found in such a state without an action is not believed: the service is
decided about once more, from `idle`.

An action that failed is kept in mind in a state of its own, one for each kind of
action (`State.failed`).
-/

namespace HaCluster.Service

/-- The action that is under way in a state. -/
def State.actionKind? : State → Option ActionKind
  | .starting | .restarting => some .start
  | .stopping => some .stop
  | .freezing => some .freeze
  | .thawing => some .thaw
  | .provisioning => some .provision
  | _ => none

/-- The state in which the failure of an action of some kind is kept. -/
def State.failed : ActionKind → State
  | .start => .startFailed
  | .stop => .stopFailed
  | .freeze => .freezeFailed
  | .thaw => .thawFailed
  | .provision => .provisionFailed

namespace State

theorem isTransient_eq (s : State) : s.isTransient = s.actionKind?.isSome := by
  cases s <;> rfl

theorem actionKind?_eq_none {s : State} : s.actionKind? = none ↔ s.isTransient = false := by
  rw [isTransient_eq, Option.isSome_eq_false_iff, Option.isNone_iff_eq_none]

/-- That is the state that a failed action leaves behind. -/
theorem failure_eq_failed (k : ActionKind) : k.outcome.failure = failed k := by
  cases k <;> rfl

/-- Nothing is under way in it. -/
theorem isTransient_failed (k : ActionKind) : (failed k).isTransient = false := by
  cases k <;> rfl

end State

/-- A decision launches the action that is under way in the state it goes to,
and no other one. -/
def Decision.Backed (d : Decision) : Prop := d.state.actionKind? = d.action.map Action.kind

namespace Situation

variable {s : Situation}

theorem backed_enter {state : State} (h : state.isTransient = false) (reason : String) :
    (Decision.enter state reason).Backed := State.actionKind?_eq_none.2 h

/-! ## Rule by rule -/

theorem backed_stopForNode (reason : String) : (s.stopForNode reason).Backed := by
  unfold stopForNode
  split
  · rfl
  · split
    · rfl
    · dsimp only
      split <;> rfl

theorem backed_stop : s.stop.Backed := by
  unfold stop
  dsimp only
  split
  · rfl
  · split
    · split <;> rfl
    · rfl

theorem backed_freeze : s.freeze.Backed := by
  unfold freeze
  split
  · rfl
  · split <;> rfl

theorem backed_thaw : s.thaw.Backed := by
  unfold thaw
  split
  · rfl
  · split <;> rfl

theorem backed_provision : s.provision.Backed := by
  unfold provision
  split
  · rfl
  · split <;> rfl

theorem backed_running (i : Instance) (here : Bool) : (s.running i here).Backed := by
  unfold running
  split
  · dsimp only
    split
    · rfl
    · split <;> rfl
  · rfl

/-- Nothing is under way in a service that is held back. -/
theorem backed_heldBy {retrying : Bool} {d : Decision} (h : s.heldBy retrying = some d) :
    d.Backed := by
  obtain ⟨state, reason, clear, quiet, rfl⟩ := holds_of_heldBy h
  cases retrying with
  | true => rfl
  | false => exact State.actionKind?_eq_none.2 quiet

theorem backed_proceed (retrying : Bool) : (s.proceed retrying).Backed := by
  unfold proceed
  split
  · next held => exact backed_heldBy held
  · split
    · rfl
    · split <;> rfl

theorem backed_retry : s.retry.Backed := by
  unfold retry
  dsimp only
  split
  · rfl
  · split
    · rfl
    · exact backed_proceed true

theorem backed_start (settled : s.monitor.state.isTransient = false) : s.start.Backed := by
  unfold start
  split
  · rfl
  · split
    · rfl
    · split
      · exact backed_running _ _
      · split
        · split
          · exact backed_enter settled _
          · rfl
        · split
          · rfl
          · split
            · exact backed_retry
            · exact backed_proceed false

theorem backed_unlessFrozen (settled : s.monitor.state.isTransient = false) :
    s.unlessFrozen.Backed := by
  have stay : (if s.monitor.state.isFailed then s.monitor.state else .idle).isTransient = false := by
    split
    · exact settled
    · rfl
  unfold unlessFrozen
  dsimp only
  split
  · exact backed_enter stay _
  · split
    · exact backed_enter stay _
    · split
      · exact backed_stop
      · exact backed_provision
      · exact backed_start settled

theorem backed_orchestrate (settled : s.monitor.state.isTransient = false) :
    s.orchestrate.Backed := by
  unfold orchestrate
  split
  · exact backed_freeze
  · exact backed_thaw
  · exact backed_unlessFrozen settled

/-- **A service for which nothing is in flight** is brought into a transient
state only together with the action that the state is about. -/
theorem backed_decide (free : s.inFlight = none) : s.decide.Backed := by
  unfold decide
  rw [free]
  dsimp only
  split
  · rfl
  · next transient =>
    have settled : s.monitor.state.isTransient = false := by simpa using transient
    split
    · exact backed_stopForNode _
    · split
      · exact backed_orchestrate settled
      · exact backed_stopForNode _
    · split
      · exact backed_orchestrate settled
      · exact backed_stopForNode _
    · exact backed_orchestrate settled

/-- No action is launched for a record that says that one is under way. -/
theorem settled_of_action {a : Action} (h : s.decide.action = some a) :
    s.monitor.state.isTransient = false := by
  have free := inFlight_of_action h
  rw [← Bool.not_eq_true]
  intro transient
  unfold decide at h
  rw [free] at h
  dsimp only at h
  rw [if_pos transient] at h
  cases h

/-- Beside an action in flight the record is left in the state it is in. -/
theorem decide_of_inFlight {kind : ActionKind} (h : s.inFlight = some kind) :
    s.decide.action = none ∧ s.decide.state = s.monitor.state := by
  unfold decide
  rw [h]
  exact ⟨rfl, rfl⟩

end Situation

end HaCluster.Service
