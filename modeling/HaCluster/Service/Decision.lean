import HaCluster.Cluster.Parents
import HaCluster.Decimal.Fixed
import HaCluster.Placement.Order
import HaCluster.Service.Action

/-!
# What a service instance does next

The decision about an instance names the next state of its monitor record and
at most one action. Rules are tried in order and the first that applies
decides. No action is launched while another one is in flight, and none on
data that cannot be seen.

Starting takes the most rules. A service starts only if it is wanted, its
instance here is known not to run, its parents are up and the placement order
puts this node in charge; and then only after the record has been `ready` for
a while, so that the peers can see it coming.
-/

namespace HaCluster.Service

/-- The key under which the retries of the whole service are counted; the
other keys are resources. -/
def serviceRetries : String := "service"

/-- Everything that the decision about an instance looks at. -/
structure Situation where
  path : String
  view : View
  config : Config
  monitor : Monitor
  nodeState : Node.State
  nodeFrozen : Bool
  /-- The action that runs for the service on this node. -/
  inFlight : Option ActionKind
  now : Float
  /-- How long the record has to be `ready` before a start, in seconds. -/
  readyPeriod : Float
  maxStartRetries : Nat
  deriving Inhabited

/-- What to change in the monitor record, and the action to launch. -/
structure Decision where
  state : State
  reason : String
  action : Option Action
  localExpect : Change LocalExpect
  clearGlobalExpect : Bool
  /-- The retry counter to increment. -/
  countRetry : Option String
  /-- The retry counter to drop. -/
  dropRetries : Option String
  deriving DecidableEq, Inhabited

namespace Decision

/-- To go to a state. -/
def enter (state : State) (reason : String) : Decision :=
  ⟨state, reason, none, .keep, false, none, none⟩

/-- To go to a state and launch an action. -/
def act (state : State) (action : Action) (reason : String) : Decision :=
  { Decision.enter state reason with action := some action }

end Decision

namespace Situation

/-- The local instance, as far as it can be seen. -/
def instance? (s : Situation) : Option Instance :=
  s.view.instance? s.view.localNode s.path

/-- Whether the local instance can be used. -/
def avail (s : Situation) : Avail :=
  (s.instance?.map Instance.avail).getD .unknown

/-- Whether the local instance is known to be frozen. -/
def instanceFrozen (s : Situation) : Bool :=
  (s.instance?.map Instance.isFrozen).getD false

/-- What a node that is being emptied does about an instance. -/
def stopForNode (s : Situation) (reason : String) : Decision :=
  if !s.avail.isRunning then
    { Decision.enter .idle reason with localExpect := .clearIfSet s.monitor.localExpect }
  else if s.monitor.state = .stopFailed then .enter .stopFailed (reason ++ ", stop failed")
  else
    let children := (s.view.children s.path).filter
      (fun c => (s.view.avail s.view.localNode c).isRunning)
    if children.isEmpty then .act .stopping (.whole s.path .stop) reason
    else .enter .waitChildren (reason ++ ", children up: " ++ ", ".intercalate children)

/-- What is done about a service that is expected to be stopped. -/
def stop (s : Situation) : Decision :=
  let children := (s.view.children s.path).filter (fun c => !(s.view.runningOn c).isEmpty)
  if !children.isEmpty then .enter .waitChildren ("children up: " ++ ", ".intercalate children)
  else if s.avail.isRunning then
    if s.monitor.state = .stopFailed then .enter .stopFailed "stop failed"
    else .act .stopping (.whole s.path .stop) "stop requested"
  else
    { Decision.enter .idle "stopped" with
      localExpect := .clearIfSet s.monitor.localExpect
      clearGlobalExpect := (s.view.runningOn s.path).isEmpty }

/-- What is done about a service that is expected to be frozen. -/
def freeze (s : Situation) : Decision :=
  if s.instanceFrozen then
    { Decision.enter .idle "frozen" with
      clearGlobalExpect := (s.view.scopeInstances s.path).all (fun e => e.2.isFrozen) }
  else if s.monitor.state = .freezeFailed then .enter .freezeFailed "freeze failed"
  else .act .freezing (.whole s.path .freeze) "freeze requested"

/-- What is done about a service that is expected to be thawed. -/
def thaw (s : Situation) : Decision :=
  if !s.instanceFrozen then
    { Decision.enter .idle "thawed" with
      clearGlobalExpect := (s.view.scopeInstances s.path).all (fun e => !e.2.isFrozen) }
  else if s.monitor.state = .thawFailed then .enter .thawFailed "thaw failed"
  else .act .thawing (.whole s.path .thaw) "thaw requested"

/-- What is done about a service that is expected to be provisioned. -/
def provision (s : Situation) : Decision :=
  if (s.instance?.bind Instance.provisioned).getD false then
    { Decision.enter .idle "provisioned" with
      clearGlobalExpect :=
        (s.view.scopeInstances s.path).all (fun e => e.2.provisioned = some true) }
  else if s.monitor.state = .provisionFailed then .enter .provisionFailed "provision failed"
  else .act .provisioning (.whole s.path .provision) "provision requested"

/-- Whether the cluster runs as many instances as a start is to bring
about. -/
def startSatisfied (s : Situation) : Bool :=
  let up := s.view.upCount s.path
  match s.config.topology with
  | .failover => 1 ≤ up
  | .flex => s.config.flexMin ≤ up

/-- Whether a node may run a new instance of the service. A start that failed
rules a node out, except for the local one when it tries again. -/
def isEligible (s : Situation) (retrying : Bool) (node : String) : Bool :=
  let v := s.view
  v.isAlive node && !v.isStale node
    && (v.nodeMonitor? node).any (fun m => m.state = .idle)
    && !(v.nodeFrozen? node).getD true
    && (v.instance? node s.path).any (fun i =>
      !i.isFrozen && i.constraints
        && (i.monitor.state ≠ .startFailed || (retrying && node = v.localNode)))

/-- What is done about an instance that runs. -/
def running (s : Situation) (i : Instance) (startedHere : Bool) : Decision :=
  match i.resources.find? (fun e => e.2.monitored && e.2.status = .down) with
  | some (rid, r) =>
    let down := "monitored resource " ++ rid ++ " down"
    if !startedHere then .enter .idle down
    else
      let used := (Entries.get? s.monitor.retries rid).getD 0
      if used < r.restarts then
        { Decision.act .restarting (.onResource s.path .start rid)
            (down ++ ", restart " ++ toString (used + 1) ++ "/" ++ toString r.restarts) with
          countRetry := some rid }
      else
        { Decision.enter .idle (down ++ ", no restart left") with localExpect := .clear }
  | none =>
    { Decision.enter .idle "up" with
      localExpect := if startedHere then .keep else .set .started
      clearGlobalExpect := s.monitor.globalExpect = some .started && s.startSatisfied
      dropRetries :=
        if Entries.contains s.monitor.retries serviceRetries then some serviceRetries
        else none }

/-- Whether the service is asked to start everywhere. -/
def globalStart (s : Situation) : Bool := s.monitor.globalExpect = some .started

/-- Whether the service was started on this node. -/
def startedHere (s : Situation) : Bool := s.monitor.localExpect = some .started

/-- How often the start was retried. -/
def startRetries (s : Situation) : Nat :=
  (Entries.get? s.monitor.retries serviceRetries).getD 0

/-- How long the record has been in its state, in seconds. -/
def waited (s : Situation) : Float := s.now - s.monitor.stateSince

/-- The other nodes of the scope that run an instance. -/
def elsewhere (s : Situation) : List String :=
  (s.view.runningOn s.path).filter (· ≠ s.view.localNode)

/-- What keeps a service from starting here though it could start, if
anything does. -/
def heldBy (s : Situation) (retrying : Bool) : Option Decision :=
  let hold := fun (state : State) reason =>
    Decision.enter (if retrying then .startFailed else state) reason
  let satisfied := s.globalStart && s.startSatisfied
  match s.view.parentsState s.config.parents with
  | .unmet reason => some (hold .waitParents reason)
  | .unknown reason => some (hold .waitParents reason)
  | .satisfied =>
    match s.config.topology with
    | .failover =>
      match s.elsewhere with
      | n :: _ => some { hold .idle ("running on " ++ n) with clearGlobalExpect := satisfied }
      | [] =>
        match Placement.leader s.config.placement s.path s.config.scope (s.isEligible retrying) with
        | none => some (hold .idle "no eligible node")
        | some leader =>
          if leader = s.view.localNode then none
          else some (hold .waitLeader ("leader is " ++ leader))
    | .flex =>
      let running := s.elsewhere.length
      let target := if s.globalStart then s.config.flexMax else s.config.flexMin
      if s.config.flexMax ≤ running then
        some (hold .idle ("flex_max " ++ toString s.config.flexMax ++ " reached"))
      else if target ≤ running then
        some { hold .idle (toString running ++ " instances up") with
          clearGlobalExpect := satisfied }
      else
        let candidates := Placement.ranked s.config.placement s.path s.config.scope
          (fun n => !s.elsewhere.contains n && s.isEligible retrying n)
        match candidates.idxOf? s.view.localNode with
        | none => some (hold .idle "not eligible")
        | some rank =>
          if rank < target - running then none
          else some (hold .idle "enough better ranked candidates")

/-- What is done about a service that may start here: it gets ready, and
starts when it has been ready long enough. -/
def proceed (s : Situation) (retrying : Bool) : Decision :=
  match s.heldBy retrying with
  | some d => d
  | none =>
    if s.monitor.state ≠ .ready then
      { Decision.enter .ready "start conditions met" with
        countRetry := if retrying then some serviceRetries else none }
    else if s.waited < s.readyPeriod then
      .enter .ready ("ready for " ++ Decimal.fixedText s.waited 1 ++ "s")
    else .act .starting (.whole s.path .start) "ready period elapsed"

/-- What is done about an instance whose start failed: it is tried again
after a pause that grows with every retry. -/
def retry (s : Situation) : Decision :=
  let used := s.startRetries
  if s.maxStartRetries ≤ used then .enter .startFailed "start failed, no retry left"
  else if s.waited < s.readyPeriod * Float.ofNat (used + 1) then
    .enter .startFailed ("start failed, retry " ++ toString (used + 1) ++ " pending")
  else s.proceed true

/-- What is done about a service that nothing keeps from running. -/
def start (s : Situation) : Decision :=
  if !s.globalStart && !s.startedHere && s.config.orchestration ≠ .ha then
    .enter .idle "not orchestrated"
  else
    match s.instance? with
    | none => .enter .idle "no local status yet"
    | some i =>
      if i.avail.isRunning then s.running i s.startedHere
      else if s.startedHere then
        if i.updated < s.monitor.stateSince then
          .enter s.monitor.state "waiting for a status refresh"
        else
          { Decision.enter .idle ("instance went " ++ Named.name i.avail) with
            localExpect := .clear }
      else if i.avail = .unknown then .enter .idle "local status unknown"
      else if s.monitor.state = .startFailed then s.retry
      else s.proceed false

/-- What is done about a service that is expected to be anything but frozen
or thawed. -/
def unlessFrozen (s : Situation) : Decision :=
  let stay := if s.monitor.state.isFailed then s.monitor.state else .idle
  if s.nodeFrozen then .enter stay "node frozen"
  else if s.instanceFrozen then .enter stay "instance frozen"
  else
    match s.monitor.globalExpect with
    | some .stopped => s.stop
    | some .provisioned => s.provision
    | _ => s.start

/-- What is done about a service on a node that is not being emptied. -/
def orchestrate (s : Situation) : Decision :=
  match s.monitor.globalExpect with
  | some .frozen => s.freeze
  | some .thawed => s.thaw
  | _ => s.unlessFrozen

/-- The decision about an instance. -/
def decide (s : Situation) : Decision :=
  match s.inFlight with
  | some kind => .enter s.monitor.state (Named.name kind ++ " in flight")
  | none =>
    if s.monitor.state.isTransient then
      .enter .idle (Named.name s.monitor.state ++ " without an action in flight, revalidating")
    else
      match s.nodeState with
      | .shutting => s.stopForNode "node shutting down"
      | .draining | .drained =>
        if s.config.alwaysOn then s.orchestrate else s.stopForNode "node draining"
      | _ => s.orchestrate

end Situation

end HaCluster.Service
