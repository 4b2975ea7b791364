import HaCluster.Proofs.Service.Unseen

/-!
# When a request to the cluster counts as satisfied

A service may be asked to be stopped, frozen, thawed or provisioned everywhere.
A node drops its copy of such a request once it takes it for satisfied. What it
asks before that is what it can see: that the instance here does not speak
against the request, nor any other one in the scope (`clears_iff`).

Of an instance that cannot be seen nothing is known, so a request should not
count as satisfied there. But such an instance speaks against nothing. It is
passed over, and so is one that is seen and does not say whether it runs: the
request is dropped on what is known only where there is neither
(`clearsWhenKnown_iff`).
-/

namespace HaCluster.Service

/-- What an instance has to be where it satisfies a request. -/
def Instance.satisfies (i : Instance) : GlobalExpect → Prop
  | .started => i.avail = .up
  | .stopped => i.avail ≠ .unknown ∧ i.avail.isRunning = false
  | .frozen => i.isFrozen = true
  | .thawed => i.isFrozen = false
  | .provisioned => i.provisioned = some true

namespace Situation

variable {s : Situation} {e : GlobalExpect} {n : String}

/-- The nodes that the service may run on, as far as the view knows them. -/
def scope (s : Situation) : List String :=
  ((s.view.serviceConfig? s.path).map Config.scope).getD []

/-- A request for the service is about a node: the local one, and every other
one of the scope that beats. -/
def Concerns (s : Situation) (n : String) : Prop :=
  n = s.view.localNode ∨ n ∈ s.scope ∧ s.view.isAlive n

/-- A request other than one to start is dropped only where every instance that
it is about is seen to satisfy it. -/
def ClearsWhenKnown (s : Situation) : Prop :=
  ∀ e, s.monitor.globalExpect = some e → e ≠ .started → s.decide.clearGlobalExpect = true →
    ∀ n, s.Concerns n → ∃ i, s.view.instance? n s.path = some i ∧ i.satisfies e

/-- The instance on a node can be seen, and tells whether it satisfies a
request: one that is asked to stop knows whether it runs. -/
def Tells (s : Situation) (e : GlobalExpect) (n : String) : Prop :=
  ∃ i, s.view.instance? n s.path = some i ∧ (e = .stopped → i.avail ≠ .unknown)

/-! ## What is asked before a request is dropped -/

/-- The decision comes to what is requested: no action is under way, and the
node is not being emptied of the service. -/
structure Attends (s : Situation) : Prop where
  idle : s.inFlight = none
  settled : s.monitor.state.isTransient = false
  kept : s.nodeState ≠ .shutting
    ∧ (s.nodeState = .draining ∨ s.nodeState = .drained → s.config.alwaysOn)

/-- Nothing here is frozen. -/
def Thawed (s : Situation) : Prop := s.nodeFrozen = false ∧ s.instanceFrozen = false

/-- A request counts as satisfied: it is here, and no instance in the scope is
seen that it is not satisfied by. -/
def Settles (s : Situation) : GlobalExpect → Prop
  | .started => False
  | .stopped => s.Thawed ∧ (∀ c ∈ s.view.children s.path, s.view.runningOn c = [])
    ∧ s.avail.isRunning = false ∧ s.view.runningOn s.path = []
  | .frozen => s.instanceFrozen = true ∧ ∀ x ∈ s.view.scopeInstances s.path, x.2.isFrozen = true
  | .thawed => s.instanceFrozen = false
    ∧ ∀ x ∈ s.view.scopeInstances s.path, x.2.isFrozen = false
  | .provisioned => s.Thawed ∧ s.instance?.bind Instance.provisioned = some true
    ∧ ∀ x ∈ s.view.scopeInstances s.path, x.2.provisioned = some true

@[simp]
theorem clear_enter (state : State) (reason : String) :
    (Decision.enter state reason).clearGlobalExpect = false := rfl

@[simp]
theorem clear_act (state : State) (action : Action) (reason : String) :
    (Decision.act state action reason).clearGlobalExpect = false := rfl

@[simp]
theorem clear_stopForNode (reason : String) :
    (s.stopForNode reason).clearGlobalExpect = false := by
  unfold stopForNode
  split
  · rfl
  · split
    · rfl
    · dsimp only
      split <;> rfl

theorem clear_stop : s.stop.clearGlobalExpect = true
    ↔ (∀ c ∈ s.view.children s.path, s.view.runningOn c = [])
      ∧ s.avail.isRunning = false ∧ s.view.runningOn s.path = [] := by
  have down : (s.view.children s.path).filter (fun c => !(s.view.runningOn c).isEmpty) = []
      ↔ ∀ c ∈ s.view.children s.path, s.view.runningOn c = [] := by
    rw [List.filter_eq_nil_iff]
    simp
  rw [← down]
  unfold stop
  dsimp only
  generalize (s.view.children s.path).filter (fun c => !(s.view.runningOn c).isEmpty) = children
  cases children with
  | cons c rest => simp
  | nil =>
    cases s.avail.isRunning with
    | true =>
      by_cases failed : s.monitor.state = .stopFailed <;> simp [failed]
    | false => simp

theorem clear_freeze : s.freeze.clearGlobalExpect = true
    ↔ s.instanceFrozen = true ∧ ∀ x ∈ s.view.scopeInstances s.path, x.2.isFrozen = true := by
  unfold freeze
  cases s.instanceFrozen with
  | true => simp
  | false => by_cases failed : s.monitor.state = .freezeFailed <;> simp [failed]

theorem clear_thaw : s.thaw.clearGlobalExpect = true
    ↔ s.instanceFrozen = false ∧ ∀ x ∈ s.view.scopeInstances s.path, x.2.isFrozen = false := by
  unfold thaw
  cases s.instanceFrozen with
  | true => by_cases failed : s.monitor.state = .thawFailed <;> simp [failed]
  | false => simp

theorem clear_provision : s.provision.clearGlobalExpect = true
    ↔ s.instance?.bind Instance.provisioned = some true
      ∧ ∀ x ∈ s.view.scopeInstances s.path, x.2.provisioned = some true := by
  unfold provision
  cases here : s.instance?.bind Instance.provisioned with
  | none => by_cases failed : s.monitor.state = .provisionFailed <;> simp [failed]
  | some b =>
    cases b with
    | true => simp
    | false => by_cases failed : s.monitor.state = .provisionFailed <;> simp [failed]

theorem clear_orchestrate (asked : s.monitor.globalExpect = some e) (ne : e ≠ .started) :
    s.orchestrate.clearGlobalExpect = true ↔ s.Settles e := by
  -- a frozen node or instance does not come to the other two requests
  have open_ {d : Decision} {P : Prop} (h : d.clearGlobalExpect = true ↔ P)
      (rule : s.unlessFrozen = if s.nodeFrozen || s.instanceFrozen then
        .enter (if s.monitor.state.isFailed then s.monitor.state else .idle)
          (if s.nodeFrozen then "node frozen" else "instance frozen") else d) :
      s.unlessFrozen.clearGlobalExpect = true ↔ s.Thawed ∧ P := by
    rw [rule]
    unfold Thawed
    cases s.nodeFrozen <;> cases s.instanceFrozen <;> simp [h]
  unfold orchestrate
  rw [asked]
  cases e with
  | started => exact absurd rfl ne
  | frozen => exact clear_freeze
  | thawed => exact clear_thaw
  | stopped =>
    refine open_ clear_stop ?_
    unfold unlessFrozen
    rw [asked]
    cases s.nodeFrozen <;> cases s.instanceFrozen <;> rfl
  | provisioned =>
    refine open_ clear_provision ?_
    unfold unlessFrozen
    rw [asked]
    cases s.nodeFrozen <;> cases s.instanceFrozen <;> rfl

theorem clear_decide : s.decide.clearGlobalExpect = true
    ↔ s.Attends ∧ s.orchestrate.clearGlobalExpect = true := by
  have attends : s.Attends ↔ s.inFlight = none ∧ s.monitor.state.isTransient = false
      ∧ (s.nodeState ≠ .shutting
        ∧ (s.nodeState = .draining ∨ s.nodeState = .drained → s.config.alwaysOn)) :=
    ⟨fun ⟨a, b, c⟩ => ⟨a, b, c⟩, fun ⟨a, b, c⟩ => ⟨a, b, c⟩⟩
  rw [attends]
  unfold decide
  cases s.inFlight with
  | some kind => simp
  | none =>
    cases s.monitor.state.isTransient with
    | true => simp
    | false => cases s.nodeState <;> cases s.config.alwaysOn <;> simp

/-- **When a request is dropped**: where the decision comes to it, and nothing
that is seen speaks against it. -/
theorem clears_iff (asked : s.monitor.globalExpect = some e) (ne : e ≠ .started) :
    s.decide.clearGlobalExpect = true ↔ s.Attends ∧ s.Settles e := by
  rw [clear_decide, clear_orchestrate asked ne]

/-! ## What is seen -/

theorem mem_scopeInstances {i : Instance} (mem : n ∈ s.scope)
    (seen : s.view.instance? n s.path = some i) : (n, i) ∈ s.view.scopeInstances s.path := by
  unfold scope at mem
  unfold View.scopeInstances
  cases found : s.view.serviceConfig? s.path with
  | none =>
    rw [found] at mem
    cases mem
  | some c =>
    rw [found] at mem
    exact List.mem_filterMap.2 ⟨n, mem, by rw [seen]; rfl⟩

theorem mem_runningOn {i : Instance} (mem : n ∈ s.scope)
    (seen : s.view.instance? n s.path = some i) (running : i.avail.isRunning = true) :
    n ∈ s.view.runningOn s.path := by
  unfold scope at mem
  unfold View.runningOn
  cases found : s.view.serviceConfig? s.path with
  | none =>
    rw [found] at mem
    cases mem
  | some c =>
    rw [found] at mem
    refine List.mem_filter.2 ⟨mem, ?_⟩
    rw [View.avail, seen]
    exact running

/-- Where a request counts as satisfied, every instance that tells satisfies
it. -/
theorem Settles.satisfies (h : s.Settles e) (about : s.Concerns n) (tells : s.Tells e n) :
    ∃ i, s.view.instance? n s.path = some i ∧ i.satisfies e := by
  obtain ⟨i, seen, known⟩ := tells
  refine ⟨i, seen, ?_⟩
  -- of the local instance its own rule has asked, of the others the scope
  have here (eq : n = s.view.localNode) : s.instance? = some i := by rw [← seen, eq]; rfl
  cases e with
  | started => exact h.elim
  | stopped =>
    obtain ⟨-, -, local_, down⟩ := h
    refine ⟨known rfl, ?_⟩
    rcases about with eq | ⟨mem, -⟩
    · simpa [avail, here eq] using local_
    · rw [← Bool.not_eq_true]
      intro running
      have mem := mem_runningOn mem seen running
      rw [down] at mem
      cases mem
  | frozen =>
    obtain ⟨local_, frozen⟩ := h
    show i.isFrozen = true
    rcases about with eq | ⟨mem, -⟩
    · simpa [instanceFrozen, here eq] using local_
    · exact frozen (n, i) (mem_scopeInstances mem seen)
  | thawed =>
    obtain ⟨local_, thawed⟩ := h
    show i.isFrozen = false
    rcases about with eq | ⟨mem, -⟩
    · simpa [instanceFrozen, here eq] using local_
    · exact thawed (n, i) (mem_scopeInstances mem seen)
  | provisioned =>
    obtain ⟨-, local_, provisioned⟩ := h
    show i.provisioned = some true
    rcases about with eq | ⟨mem, -⟩
    · simpa [here eq] using local_
    · exact provisioned (n, i) (mem_scopeInstances mem seen)

theorem tells_of_satisfies (ne : e ≠ .started)
    (h : ∃ i, s.view.instance? n s.path = some i ∧ i.satisfies e) : s.Tells e n := by
  obtain ⟨i, seen, satisfied⟩ := h
  refine ⟨i, seen, ?_⟩
  rintro rfl
  exact satisfied.1

/-- **When a request is dropped on what is known.** Exactly if, wherever it
counts as satisfied, the instances that it is about can all be seen, and know
whether they run if they are asked to stop. What is hidden or says nothing is
never what keeps a request. -/
theorem clearsWhenKnown_iff (s : Situation) :
    s.ClearsWhenKnown ↔ ∀ e, s.monitor.globalExpect = some e → s.Attends → s.Settles e →
      ∀ n, s.Concerns n → s.Tells e n := by
  have other {e : GlobalExpect} (h : s.Settles e) : e ≠ .started := by
    rintro rfl
    exact h
  constructor
  · intro holds e asked attends settles n about
    have dropped := (clears_iff asked (other settles)).2 ⟨attends, settles⟩
    exact tells_of_satisfies (other settles) (holds e asked (other settles) dropped n about)
  · intro tells e asked ne dropped n about
    obtain ⟨attends, settles⟩ := (clears_iff asked ne).1 dropped
    exact settles.satisfies about (tells e asked attends settles n about)

/-- The first of two nodes is asked to stop `svc`, which is down there. The
second one beats, but its copy, in which `svc` is up, is out of step. -/
def stoppingBesideLostPeer : Situation :=
  { beforeLostPeer with
    monitor := { Monitor.blank with globalExpect := some .stopped } }

/-- The request to stop is dropped while `svc` may run on the second node. -/
theorem not_clearsWhenKnown_lostPeer : ¬ stoppingBesideLostPeer.ClearsWhenKnown := by
  intro holds
  have dropped : stoppingBesideLostPeer.decide.clearGlobalExpect = true := by decide +kernel
  have about : stoppingBesideLostPeer.Concerns "n2" := .inr (by decide +kernel)
  have hidden : stoppingBesideLostPeer.view.instance? "n2" "svc" = none := by
    have lost : stoppingBesideLostPeer.view.trusted? "n2" = none :=
      Option.isNone_iff_eq_none.1 (by decide +kernel)
    rw [View.instance?, lost]
    rfl
  obtain ⟨i, seen, -⟩ := holds .stopped rfl nofun dropped "n2" about
  rw [show stoppingBesideLostPeer.path = "svc" from rfl, hidden] at seen
  cases seen

end Situation

end HaCluster.Service
