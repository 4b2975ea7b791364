import HaCluster.Proofs.Service.Cleared
import HaCluster.Proofs.Service.Retries

/-!
# What a decision does, and on what grounds

Apart from naming a state, a decision has three effects: it launches an action,
increments a retry counter, or drops one. Most decisions have none of them. The
others are few, and each has its grounds (`Ruling`): what was asked for, what is
seen of the instance, and what must not run.

The rules are gone through once, here (`ruling_decide`). Whoever wants to know
why an action was launched, or why a counter changed, looks through the list. It
also shows that a decision launches its action on no service but the one that it is
about (`about_decide`).
-/

namespace HaCluster.Service

/-- What a decision does besides naming a state. -/
structure Effects where
  action : Option Action
  /-- The retry counter to increment. -/
  count : Option String
  /-- The retry counter to drop. -/
  drop : Option String
  deriving DecidableEq

namespace Effects

/-- Nothing is done. -/
def none : Effects := ⟨.none, .none, .none⟩

/-- An action is launched on the whole service. -/
def whole (path : String) (kind : ActionKind) : Effects := ⟨some (.whole path kind), .none, .none⟩

end Effects

/-- The effects of a decision. -/
def Decision.effects (d : Decision) : Effects := ⟨d.action, d.countRetry, d.dropRetries⟩

/-- Whatever a decision launches, it launches on one service. -/
def Decision.About (path : String) (d : Decision) : Prop := ∀ a, d.action = some a → a.path = path

variable {s : Situation}

/-- The first resource of an instance that is down while it should be watched. -/
def Instance.fallen (i : Instance) : Option (String × Resource) :=
  i.resources.find? fun e => e.2.monitored && e.2.status = .down

namespace Situation

/-- How often a resource was restarted since its counter was dropped. -/
def restarted (s : Situation) (rid : String) : Nat :=
  (Entries.get? s.monitor.retries rid).getD 0

/-- The grounds on which a stop is launched: the instance is seen to run, and no
stop of it failed. -/
structure Stops (s : Situation) : Prop where
  runs : ∃ i, s.instance? = some i ∧ i.avail.isRunning
  unfailed : s.monitor.state ≠ .stopFailed

/-- What a decision may do, and on what grounds. -/
inductive Ruling (s : Situation) : Effects → Prop
  | rests : Ruling s .none
  /-- The node is being emptied, and no child of the service runs here. -/
  | empties (leaves : s.emptied) (stops : s.Stops)
      (alone : ∀ c ∈ s.view.children s.path, ¬ (s.view.avail s.view.localNode c).isRunning) :
      Ruling s (.whole s.path .stop)
  /-- The service is asked to stop, and no child of it runs anywhere. -/
  | stops (attends : s.Attends) (asked : s.monitor.globalExpect = some .stopped)
      (thawed : s.Thawed) (stops : s.Stops)
      (alone : ∀ c ∈ s.view.children s.path, s.view.runningOn c = []) :
      Ruling s (.whole s.path .stop)
  | freezes (attends : s.Attends) (asked : s.monitor.globalExpect = some .frozen) :
      Ruling s (.whole s.path .freeze)
  | thaws (attends : s.Attends) (asked : s.monitor.globalExpect = some .thawed) :
      Ruling s (.whole s.path .thaw)
  | provisions (attends : s.Attends) (thawed : s.Thawed)
      (asked : s.monitor.globalExpect = some .provisioned) :
      Ruling s (.whole s.path .provision)
  | starts (attends : s.Attends) (thawed : s.Thawed) (free : s.heldBy false = none) :
      Ruling s (.whole s.path .start)
  /-- A watched resource of an instance that runs is down, and has a restart
  left. -/
  | restarts (attends : s.Attends) (thawed : s.Thawed) (here : s.startedHere) (i : Instance)
      (seen : s.instance? = some i) (runs : i.avail.isRunning) (rid : String) (r : Resource)
      (fallen : i.fallen = some (rid, r)) (left : s.restarted rid < r.restarts) :
      Ruling s ⟨some (.onResource s.path .start rid), some rid, none⟩
  /-- A start that failed is tried again. -/
  | retries (i : Instance) (seen : s.instance? = some i)
      (left : s.startRetries < s.maxStartRetries) : Ruling s ⟨none, some serviceRetries, none⟩
  /-- An instance runs and nothing of it is down: the starts that failed are
  forgotten. -/
  | settles (i : Instance) (seen : s.instance? = some i) (whole : i.fallen = none) :
      Ruling s ⟨none, none, some serviceRetries⟩

/-! ## Rule by rule -/

theorem stops_of_isRunning (runs : s.avail.isRunning) (unfailed : s.monitor.state ≠ .stopFailed) :
    s.Stops := by
  refine ⟨?_, unfailed⟩
  unfold avail at runs
  cases seen : s.instance? with
  | none =>
    rw [seen] at runs
    cases runs
  | some i =>
    rw [seen] at runs
    exact ⟨i, rfl, runs⟩

theorem Stops.isRunning (h : s.Stops) : s.avail.isRunning := by
  obtain ⟨i, seen, runs⟩ := h.runs
  unfold avail
  rw [seen]
  exact runs

theorem ruling_stopForNode (leaves : s.emptied) (reason : String) :
    Ruling s (s.stopForNode reason).effects := by
  unfold stopForNode
  split
  · exact .rests
  · next runs =>
    split
    · exact .rests
    · next unfailed =>
      dsimp only
      split
      · next alone =>
        refine .empties leaves (stops_of_isRunning (by simpa using runs) unfailed) fun c hc => ?_
        exact List.filter_eq_nil_iff.1 (List.isEmpty_iff.1 alone) c hc
      · exact .rests

theorem ruling_stop (attends : s.Attends) (thawed : s.Thawed)
    (asked : s.monitor.globalExpect = some .stopped) : Ruling s s.stop.effects := by
  unfold stop
  dsimp only
  split
  · exact .rests
  · next alone =>
    split
    · next runs =>
      split
      · exact .rests
      · next unfailed =>
        refine .stops attends asked thawed (stops_of_isRunning runs unfailed) fun c hc => ?_
        have down : (s.view.children s.path).filter (fun c => !(s.view.runningOn c).isEmpty)
            = [] := by simpa using alone
        simpa using List.filter_eq_nil_iff.1 down c hc
    · exact .rests

theorem ruling_freeze (attends : s.Attends) (asked : s.monitor.globalExpect = some .frozen) :
    Ruling s s.freeze.effects := by
  unfold freeze
  split
  · exact .rests
  · split
    · exact .rests
    · exact .freezes attends asked

theorem ruling_thaw (attends : s.Attends) (asked : s.monitor.globalExpect = some .thawed) :
    Ruling s s.thaw.effects := by
  unfold thaw
  split
  · exact .rests
  · split
    · exact .rests
    · exact .thaws attends asked

theorem ruling_provision (attends : s.Attends) (thawed : s.Thawed)
    (asked : s.monitor.globalExpect = some .provisioned) : Ruling s s.provision.effects := by
  unfold provision
  split
  · exact .rests
  · split
    · exact .rests
    · exact .provisions attends thawed asked

theorem ruling_running (attends : s.Attends) (thawed : s.Thawed) {i : Instance}
    (seen : s.instance? = some i) (runs : i.avail.isRunning) :
    Ruling s (s.running i s.startedHere).effects := by
  unfold running
  split
  · next rid r fallen =>
    dsimp only
    split
    · exact .rests
    · next here =>
      split
      · next left =>
        exact .restarts attends thawed (by simpa using here) i seen runs rid r fallen left
      · exact .rests
  · next whole =>
    unfold Decision.effects
    dsimp only
    split
    · exact .settles i seen whole
    · exact .rests

theorem ruling_proceed {retrying : Bool} (attends : s.Attends) (thawed : s.Thawed)
    (unfailed : retrying = false ∨ s.monitor.state ≠ .ready)
    (left : retrying → ∃ i, s.instance? = some i ∧ s.startRetries < s.maxStartRetries) :
    Ruling s (s.proceed retrying).effects := by
  unfold proceed
  cases held : s.heldBy retrying with
  | some d =>
    -- what holds a service back does nothing
    obtain ⟨count, plain, -⟩ := heldBy_waits held
    have nothing : d.effects = .none := by
      rw [Decision.effects, action_heldBy held, count, plain.drops]
      rfl
    exact nothing ▸ .rests
  | none =>
    dsimp only
    split
    · cases retrying with
      | false => exact .rests
      | true =>
        obtain ⟨i, seen, left⟩ := left rfl
        exact .retries i seen left
    · next ready =>
      split
      · exact .rests
      · have fresh : retrying = false := unfailed.resolve_right (fun h => h (by simpa using ready))
        subst fresh
        exact .starts attends thawed held

theorem ruling_retry (attends : s.Attends) (thawed : s.Thawed) {i : Instance}
    (seen : s.instance? = some i) (failed : s.monitor.state = .startFailed) :
    Ruling s s.retry.effects := by
  unfold retry
  dsimp only
  split
  · exact .rests
  · next left =>
    split
    · exact .rests
    · exact ruling_proceed attends thawed (.inr (by rw [failed]; decide))
        fun _ => ⟨i, seen, Nat.not_le.1 left⟩

theorem ruling_start (attends : s.Attends) (thawed : s.Thawed) : Ruling s s.start.effects := by
  unfold start
  split
  · exact .rests
  · split
    · exact .rests
    · next i seen =>
      split
      · next runs => exact ruling_running attends thawed seen runs
      · split
        · split <;> exact .rests
        · split
          · exact .rests
          · split
            · next failed => exact ruling_retry attends thawed seen failed
            · exact ruling_proceed attends thawed (.inl rfl) nofun

theorem ruling_orchestrate (attends : s.Attends) : Ruling s s.orchestrate.effects := by
  unfold orchestrate
  split
  · next asked => exact ruling_freeze attends asked
  · next asked => exact ruling_thaw attends asked
  · unfold unlessFrozen
    dsimp only
    split
    · exact .rests
    · next node =>
      split
      · exact .rests
      · next frozen =>
        have thawed : s.Thawed := ⟨by simpa using node, by simpa using frozen⟩
        split
        · next asked => exact ruling_stop attends thawed asked
        · next asked => exact ruling_provision attends thawed asked
        · exact ruling_start attends thawed

/-! ## The whole decision -/

/-- The decision comes to what is requested where the node is not being emptied
of the service. -/
theorem attends_iff : s.Attends
    ↔ s.inFlight = none ∧ s.monitor.state.isTransient = false ∧ s.emptied = false := by
  have kept : (s.nodeState ≠ .shutting
      ∧ (s.nodeState = .draining ∨ s.nodeState = .drained → s.config.alwaysOn))
        ↔ s.emptied = false := by
    unfold emptied
    cases s.nodeState <;> simp
  exact ⟨fun ⟨idle, settled, stays⟩ => ⟨idle, settled, kept.1 stays⟩,
    fun ⟨idle, settled, stays⟩ => ⟨idle, settled, kept.2 stays⟩⟩

/-- A node that is being emptied stops the service. -/
theorem decide_of_emptied (idle : s.inFlight = none) (settled : s.monitor.state.isTransient = false)
    (leaves : s.emptied) : ∃ reason, s.decide = s.stopForNode reason := by
  unfold decide
  unfold emptied at leaves
  rw [idle]
  dsimp only
  rw [if_neg (by rw [settled]; decide)]
  cases state : s.nodeState <;> rw [state] at leaves
  case shutting => exact ⟨_, rfl⟩
  case draining | drained =>
    dsimp only at leaves ⊢
    rw [if_neg (by simpa using leaves)]
    exact ⟨_, rfl⟩
  all_goals cases leaves

theorem decide_of_attends (attends : s.Attends) : s.decide = s.orchestrate := by
  obtain ⟨idle, settled, stays⟩ := attends_iff.1 attends
  unfold decide
  unfold emptied at stays
  rw [idle]
  dsimp only
  rw [if_neg (by rw [settled]; decide)]
  cases state : s.nodeState <;> rw [state] at stays
  case shutting => cases stays
  case draining | drained =>
    dsimp only at stays ⊢
    rw [if_pos (by simpa using stays)]

/-- **Whatever a decision does, it has its grounds.** -/
theorem ruling_decide (s : Situation) : Ruling s s.decide.effects := by
  cases idle : s.inFlight with
  | some kind =>
    unfold decide
    rw [idle]
    exact .rests
  | none =>
    cases settled : s.monitor.state.isTransient with
    | true =>
      unfold decide
      rw [idle]
      dsimp only
      rw [if_pos settled]
      exact .rests
    | false =>
      cases leaves : s.emptied with
      | true =>
        obtain ⟨reason, decided⟩ := decide_of_emptied idle settled leaves
        rw [decided]
        exact ruling_stopForNode leaves reason
      | false =>
        have attends : s.Attends := attends_iff.2 ⟨idle, settled, leaves⟩
        rw [decide_of_attends attends]
        exact ruling_orchestrate attends

/-- The effects of a decision, and the ruling that they come from. -/
theorem exists_ruling (s : Situation) : ∃ e, s.decide.effects = e ∧ s.Ruling e :=
  ⟨_, rfl, ruling_decide s⟩

/-- **A retry is counted** only of an instance that is seen, and only if one is
left. -/
theorem counts_decide : s.Counts s.decide := by
  intro key counts
  obtain ⟨e, effects, ruling⟩ := s.exists_ruling
  have counted : e.count = some key := effects ▸ counts
  cases ruling with
  | restarts _ _ _ i seen _ rid r fallen left =>
    cases counted
    exact ⟨i, seen, .inr ⟨r, List.mem_of_find?_eq_some fallen, left⟩⟩
  | retries i seen left =>
    cases counted
    exact ⟨i, seen, .inl left⟩
  | _ => cases counted

/-! ## Whose actions are launched -/

/-- **An action is launched on the service itself**, whatever the situation. -/
theorem about_decide : s.decide.About s.path := by
  intro a action
  obtain ⟨e, effects, ruling⟩ := s.exists_ruling
  have launched : e.action = some a := effects ▸ action
  cases ruling <;> cases launched <;> rfl

/-- The start of a whole service is the one action that counts as a start. -/
theorem action_decide_eq_start_iff :
    s.decide.action = some (.whole s.path .start) ↔ s.decide.starts := by
  unfold Decision.starts
  cases decided : s.decide.action with
  | none => simp
  | some a =>
    obtain ⟨path, kind, resources⟩ := a
    have here : path = s.path := about_decide _ decided
    simp [Action.whole, here]

/-- **No action is launched beside another one.** -/
theorem action_decide_of_inFlight {kind : ActionKind} (h : s.inFlight = some kind) :
    s.decide.action = none := by
  unfold decide
  rw [h]
  rfl

theorem inFlight_of_action {a : Action} (h : s.decide.action = some a) : s.inFlight = none := by
  cases inFlight : s.inFlight with
  | none => rfl
  | some kind =>
    rw [action_decide_of_inFlight inFlight] at h
    cases h

end Situation

end HaCluster.Service
