import HaCluster.Daemon.State
import HaCluster.Monitor.World
import HaCluster.Node.Decision
import HaCluster.Service.Decision
import HaCluster.Status.Pool

/-!
# Rounds of the monitor

The orchestration loop of one node. Each round takes note of the actions that
ended, takes in the statuses that were read, decides about the node, then
decides about every local service on one picture of the cluster and launches
at most one action per service. Only the monitor launches actions.

A round that fails keeps what it has done so far. A failure of one service
does not keep the round from the others.
-/

namespace HaCluster

/-- An action that runs. -/
structure Running where
  action : Action
  /-- The number of its process. -/
  process : Nat
  /-- When it was launched, in seconds. -/
  since : Float
  deriving Inhabited

namespace Monitor

/-- What can be observed during a round. -/
inductive Event where
  | node (old new : Node.State) (reason : String)
  | service (path : String) (old new : Service.State) (reason : String)
  | launched (action : Action)
  /-- An action ended; without a code if it could not be launched at all. -/
  | done (action : Action) (code : Option Int)
  deriving DecidableEq, Inhabited

/-- What one round did. -/
structure Report where
  nodeState : Node.State
  launched : List Action
  /-- The actions that ended, with their exit codes. -/
  completed : List (Action × Int)
  /-- The services whose evaluation failed. -/
  failed : List (String × DataError)
  /-- The peers whose copies were dropped. -/
  purged : List String
  /-- The patches to broadcast, oldest first. -/
  outgoing : List Message
  /-- Whether the node is shutting down and nothing runs any more. -/
  exit : Bool
  deriving Inhabited

end Monitor

/-- The monitor of one node, with the daemon it shares its state with and the
world it acts on. -/
structure Monitor (W : Type) where
  daemon : Daemon
  world : W
  pool : Status.Pool
  /-- The actions that run, by service. -/
  running : Entries Running
  /-- What was observed, oldest first. -/
  events : List Monitor.Event

namespace Monitor

variable {W : Type} [World W]

/-- A step of a monitor that may fail. -/
abbrev Step (W α : Type) := EStateM DataError (Monitor W) α

/-- A monitor that has not run yet. -/
def new (daemon : Daemon) (world : W) : Monitor W :=
  ⟨daemon, world, Status.Pool.new daemon.settings.workers, [], []⟩

/-! ## Steps on the parts -/

/-- Runs a step of the daemon. -/
def onDaemon {α : Type} (m : Daemon.Step DataError α) : Step W α := fun s =>
  match m s.daemon with
  | .ok x d => .ok x { s with daemon := d }
  | .error e d => .error e { s with daemon := d }

/-- Runs a mutation of the store. -/
def mutate {α : Type} (m : Mutation α) : Step W α := onDaemon (Daemon.mutate m)

/-- Runs a step and answers whether it failed, instead of failing. -/
def attempt {α : Type} (m : Step W α) : Step W (Except DataError α) := fun s =>
  match m s with
  | .ok x s => .ok (.ok x) s
  | .error e s => .ok (.error e) s

/-- Notes an event. -/
def emit (e : Event) : Step W Unit := modify fun s => { s with events := s.events ++ [e] }

/-- Submits a service whose status is to be read. -/
def submit (now : Float) (service : String) : Step W Unit := modify fun s =>
  { s with pool := s.pool.submit (World.readStatus s.world) now service }

/-- Reads the settings that a file holds. -/
def loadSettings (host : Daemon.Host) (w : W) (file : String) :
    Except Daemon.SettingsError Daemon.Settings :=
  match World.readFile w file with
  | some text => Daemon.Settings.ofText host text
  | none => .error .unreadable

/-- Reads the settings again if they changed. Settings that cannot be used
leave the old ones. -/
def reload (host : Daemon.Host) : Step W Unit := modify fun s =>
  match Daemon.reloadSettings (loadSettings host s.world) s.daemon with
  | .ok _ d => { s with daemon := d }
  | .error _ d => { s with daemon := d }

/-! ## Actions that ended -/

/-- The record of an instance after its action ended. -/
def outcome (action : Action) (success : Bool) (m : Service.Monitor) : Service.Monitor :=
  let o := action.kind.outcome
  if success then { m with state := o.success, localExpect := o.expect.apply m.localExpect }
  else { m with state := o.failure }

/-- Why the state of a service changed when its action ended. -/
def endReason (action : Action) : Option Int → String
  | some code => Named.name action.kind ++ " exited " ++ toString code
  | none => Named.name action.kind ++ " could not be launched"

/-- Takes note of the end of an action; without a code, it could not be
launched. -/
def complete (at_ now : Float) (action : Action) (code : Option Int) : Step W Unit := do
  let node := (← get).daemon.nodeName
  let before := Node.Blob.instanceMonitor (← get).daemon.store node action.path
  let edit := outcome action (code = some 0)
  let _ ← mutate (Node.Blob.updateInstanceMonitor node action.path at_ edit)
  submit now action.path
  emit (.done action code)
  if before.state ≠ (edit before).state then
    emit (.service action.path before.state (edit before).state (endReason action code))

/-- Asks of every running action whether it has ended. -/
def pollAll : Entries Running → W → List (String × Int) × W
  | [], w => ([], w)
  | (service, r) :: rest, w =>
    let (code, w) := World.poll r.process w
    let (ended, w) := pollAll rest w
    (match code with
      | some code => (service, code) :: ended
      | none => ended, w)

/-- Takes note of actions that ended. -/
def completeAll (at_ now : Float) : List (String × Int) → Step W (List (Action × Int))
  | [] => pure []
  | (service, code) :: rest => do
    match Entries.get? (← get).running service with
    | none => completeAll at_ now rest
    | some r =>
      modify fun s => { s with running := Entries.erase s.running service }
      complete at_ now r.action (some code)
      pure ((r.action, code) :: (← completeAll at_ now rest))

/-- Takes note of every action that ended. -/
def reap (at_ now : Float) : Step W (List (Action × Int)) := do
  let s ← get
  let (ended, world) := pollAll s.running s.world
  set { s with world := world }
  completeAll at_ now ended

/-! ## Statuses -/

/-- Takes in what was read of a service. What is no mapping is passed over. -/
def ingestOne (r : Status.Refreshed) : Step W Unit :=
  match r.reading with
  | .ok (some (.map doc)) =>
    let dated := if Entries.contains doc "updated" then doc
      else Entries.insert doc "updated" (.float r.readAt)
    onDaemon (Daemon.postStatus r.service (.map dated))
  | _ => pure ()

/-- Submits the configured services and takes in every status that is
ready. -/
def ingest (now : Float) : Step W Unit := do
  let d := (← get).daemon
  (Node.Blob.keysAt d.store ((Layout.services d.nodeName).key "config")).forM (submit now)
  let (ready, pool) := (← get).pool.drain
  modify fun s => { s with pool := pool }
  ready.forM ingestOne

/-! ## The node -/

/-- The nodes whose data counts when the cluster is asked whether it is
frozen. -/
def liveNodes (v : View) : List String :=
  v.clusterNodes.filter (fun n => (v.node? n).isSome && v.isAlive n && !v.isStale n)

/-- What the decision about the node looks at. -/
def nodeSituation (d : Daemon) (v : View) (flag : Bool) (at_ : Float) : Node.Situation :=
  let frozen := flag || (v.localData?.map Node.Data.isFrozen).getD false
  let frozenOn (n : String) : Bool :=
    if n = v.localNode then frozen else (v.nodeFrozen? n).getD false
  { monitor := (v.nodeMonitor? v.localNode).getD d.nodeMonitor
    frozen := frozen
    configLoaded := true
    peersKnown := v.peersKnown || v.declaredPeers.isEmpty
    uptime := at_ - d.startedAt
    rejoinGrace := d.settings.rejoinGrace.toSeconds
    drainableDown := v.localServices.all (fun p =>
      ((v.serviceConfig? p).map Service.Config.alwaysOn).getD false
        || !(v.avail v.localNode p).isRunning)
    clusterFrozen := (liveNodes v).all frozenOn
    clusterThawed := !(liveNodes v).any frozenOn }

/-- Freezes or thaws the node and keeps the file that freezes it in step. -/
def setNodeFrozen (frozen : Bool) (at_ : Float) : Step W Unit := do
  modify fun s =>
    match s.daemon.settings.freezeFlag with
    | some file => { s with world := World.setFile file frozen s.world }
    | none => s
  onDaemon (Daemon.setFrozen frozen at_)

/-- What became of the node in a round. -/
structure NodeOutcome where
  state : Node.State
  /-- Whether services must not be touched. -/
  hold : Bool
  frozen : Bool

/-- Decides about the node. -/
def evaluateNode (at_ : Float) (v : View) : Step W NodeOutcome := do
  let s ← get
  let flag := (s.daemon.settings.freezeFlag.map (World.fileExists s.world)).getD false
  let situation := nodeSituation s.daemon v flag at_
  let decision := situation.decide
  if let some freeze := decision.freeze then
    setNodeFrozen freeze at_
  let _ ← mutate (Node.Blob.updateMonitor s.daemon.nodeName at_ (fun m =>
    { m with
      state := decision.state.getD m.state
      globalExpect := if decision.clearGlobalExpect then none else m.globalExpect }))
  let old := situation.monitor.state
  let state := decision.state.getD old
  if state ≠ old then
    emit (.node old state decision.reason)
  pure ⟨state, decision.holdServices, decision.freeze.getD situation.frozen⟩

/-! ## Services -/

/-- Launches an action. Answers whether it runs. -/
def launch (at_ now : Float) (action : Action) : Step W Bool := do
  let s ← get
  let (process, world) := World.launch action s.world
  set { s with world := world }
  match process with
  | some process =>
    emit (.launched action)
    modify fun s =>
      { s with running := Entries.insert s.running action.path ⟨action, process, at_⟩ }
    pure true
  | none =>
    complete at_ now action none
    pure false

/-- The record of an instance after a decision. -/
def applyDecision (d : Service.Decision) (m : Service.Monitor) : Service.Monitor :=
  let counted := match d.countRetry with
    | some key => Entries.insert m.retries key ((Entries.get? m.retries key).getD 0 + 1)
    | none => m.retries
  { m with
    state := d.state
    localExpect := d.localExpect.apply m.localExpect
    globalExpect := if d.clearGlobalExpect then none else m.globalExpect
    retries := match d.dropRetries with
      | some key => Entries.erase counted key
      | none => counted }

/-- What the decision about a local service looks at. -/
def serviceSituation (s : Monitor W) (v : View) (node : NodeOutcome) (at_ : Float)
    (service : String) (config : Service.Config) : Service.Situation where
  path := service
  view := v
  config := config
  monitor := ((v.instance? v.localNode service).map Service.Instance.monitor).getD
    Service.Monitor.blank
  nodeState := node.state
  nodeFrozen := node.frozen
  inFlight := (Entries.get? s.running service).map (fun r => r.action.kind)
  now := at_
  readyPeriod := s.daemon.settings.readyPeriod.toSeconds
  maxStartRetries := s.daemon.settings.maxStartRetries

/-- Decides about a local service and does what was decided. Answers the
action that was launched, if any. -/
def orchestrate (at_ now : Float) (v : View) (node : NodeOutcome) (service : String) :
    Step W (Option Action) := do
  match v.localData?.bind (fun d => Entries.get? d.configs service) with
  | none => pure none
  | some config =>
    let situation := serviceSituation (← get) v node at_ service config
    let decision := situation.decide
    let _ ← mutate (Node.Blob.updateInstanceMonitor v.localNode service at_
      (applyDecision decision))
    if decision.state ≠ situation.monitor.state then
      emit (.service service situation.monitor.state decision.state decision.reason)
    match decision.action, situation.inFlight with
    | some action, none =>
      if ← launch at_ now action then pure (some action) else pure none
    | _, _ => pure none

/-- Decides about the local services one after the other: the actions that
were launched and the services that failed. -/
def orchestrateAll (at_ now : Float) (v : View) (node : NodeOutcome) :
    List String → Step W (List Action × List (String × DataError))
  | [] => pure ([], [])
  | service :: rest => do
    let r ← attempt (orchestrate at_ now v node service)
    let (launched, failed) ← orchestrateAll at_ now v node rest
    match r with
    | .ok (some action) => pure (action :: launched, failed)
    | .ok none => pure (launched, failed)
    | .error e => pure (launched, (service, e) :: failed)

/-- The instances of services that are no longer configured and for which
nothing runs. -/
def orphans (s : Monitor W) (v : View) : List String :=
  v.localInstances.filter (fun service =>
    !v.localServices.contains service && !Entries.contains s.running service)

/-- Drops the instances of services that are no longer configured, once
nothing runs for them. -/
def dropOrphans (v : View) : Step W Unit := do
  (orphans (← get) v).forM (fun service => mutate (Node.Blob.dropInstance v.localNode service))

/-! ## Peers -/

/-- Whether a peer has announced maintenance lately enough to keep its copy. -/
def isAway (blob : Value) (at_ grace : Float) : Bool :=
  let m := (Node.Data.ofValue blob).monitor
  m.state = .maintenance && at_ - m.stateSince < grace

/-- The peers that are down and whose copies are to be dropped. -/
def downPeers (d : Daemon) (live : List String) (at_ : Float) : List String :=
  ((View.blobs d.store.data).filter (fun e =>
    e.1 ≠ d.nodeName && !live.contains e.1
      && !isAway e.2 at_ d.settings.rejoinGrace.toSeconds)).map Prod.fst

/-- Drops the copies of the peers that are down. -/
def purgeDownPeers (live : List String) (at_ : Float) : Step W (List String) := do
  let peers := downPeers (← get).daemon live at_
  peers.forM (fun peer => onDaemon (Daemon.purge peer))
  pure peers

/-! ## A round -/

/-- Whether the shutdown of the node is complete. -/
def shutdownComplete (s : Monitor W) (v : View) (state : Node.State) : Bool :=
  state = .shutting && s.running.isEmpty
    && v.localInstances.all (fun p => !(v.avail v.localNode p).isRunning)

/-- One round at a time `at_`; `now` is what the clocks show. -/
def round (host : Daemon.Host) (now : Moment) (at_ : Float) : Step W Report := do
  reload host
  let completed ← reap at_ now.wall
  ingest now.wall
  let live := (← get).daemon.heartbeats.beating now.steady
  let (declared, d) := (← get).daemon.declaredNodes
  modify fun s => { s with daemon := d }
  let view (s : Monitor W) : View := s.daemon.viewOf at_ live declared
  let node ← evaluateNode at_ (view (← get))
  let (launched, failed) ←
    if node.hold then pure ([], [])
    else do
      let v := view (← get)
      let r ← orchestrateAll at_ now.wall v node v.localServices
      dropOrphans v
      pure r
  let purged ← purgeDownPeers live at_
  mutate (Node.Blob.stamp (← get).daemon.nodeName (← get).running.length at_)
  let exit := shutdownComplete (← get) (view (← get)) node.state
  let (outgoing, d) := (← get).daemon.nextPatches at_
  modify fun s => { s with daemon := d }
  pure ⟨node.state, launched, completed, failed, purged, outgoing, exit⟩

end Monitor

end HaCluster
