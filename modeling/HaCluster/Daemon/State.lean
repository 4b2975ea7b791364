import HaCluster.Clock
import HaCluster.Cluster.View
import HaCluster.Daemon.Derived
import HaCluster.Daemon.Settings
import HaCluster.Node.Blob
import HaCluster.Node.Update
import HaCluster.Replication.PeerTable
import HaCluster.Replication.Publisher
import HaCluster.Service.Update

/-!
# The state of a daemon

Everything that the monitor, the listener and the heartbeats of one node
share: the store with the local blob and the copies of the peers, what is
known of the peers, the settings in force, and two requests to the monitor,
to wake up and to stop.

A step that fails keeps what it has already changed, as in a store.
-/

namespace HaCluster

/-- The state of one daemon. -/
structure Daemon where
  /-- The name of the node, fixed for the life of the daemon. -/
  nodeName : String
  store : Store
  heartbeats : Heartbeat.Registry
  peers : PeerTable
  settings : Daemon.Settings
  /-- The file that the settings are read from again when it changes. -/
  settingsFile : Option String
  /-- How many settings have been in force. -/
  generation : Nat
  /-- Whether the settings file is said to have changed. -/
  settingsChanged : Bool
  /-- The declared nodes, as derived from the settings. -/
  declared : Daemon.Derived (List String)
  publisher : Publisher
  /-- Whether the monitor was asked to wake up and has not yet done so. -/
  wakePending : Bool
  stopRequested : Bool
  /-- When the daemon started, in seconds. -/
  startedAt : Float
  deriving Inhabited

namespace Daemon

/-- Why a request was refused. -/
inductive Refusal where
  | data (e : DataError)
  /-- The configuration of a service does not decode. -/
  | undecodable (service : String) (e : DecodeError)
  /-- The configuration of a service breaks rules. -/
  | invalid (service : String) (violations : List Violation)
  deriving DecidableEq, Inhabited

/-- The wording of a refusal. -/
def Refusal.message : Refusal → String
  | .data e => e.message
  | .undecodable service e => "service " ++ service ++ ": " ++ e.message
  | .invalid service vs => "service " ++ service ++ ": " ++ Violation.report vs

/-- A step of a daemon that may fail. -/
abbrev Step (ε α : Type) := EStateM ε Daemon α

/-- What the journal of a daemon keeps: changes of the local blob, its
statistics apart. -/
def journalOf (nodeName : String) : Journal :=
  ⟨Layout.node nodeName, [Path.ofKeys ["stats"]]⟩

/-- A daemon that has just started. -/
def start (settings : Settings) (settingsFile : Option String) (now : Float) : Daemon where
  nodeName := settings.nodeName
  store := Store.new
    (.map [("cluster", .map [("nodes", .map [(settings.nodeName, Node.emptyBlob)])])])
    (some (journalOf settings.nodeName))
  heartbeats := Heartbeat.Registry.new settings.heartbeat
  peers := []
  settings := settings
  settingsFile := settingsFile
  generation := 1
  settingsChanged := false
  declared := none
  publisher := Publisher.new
  wakePending := false
  stopRequested := false
  startedAt := now

/-! ## Waking and stopping the monitor -/

/-- Asks the monitor to wake up. -/
def wake (d : Daemon) : Daemon := { d with wakePending := true }

/-- Takes the pending request to wake up, if any. -/
def awaken (d : Daemon) : Bool × Daemon := (d.wakePending, { d with wakePending := false })

/-- Asks the monitor to stop. -/
def requestStop (d : Daemon) : Daemon := { d with stopRequested := true }.wake

/-! ## Settings -/

/-- Puts other settings in force. The name of the node stays. -/
def replaceSettings (d : Daemon) (settings : Settings) : Daemon :=
  { d with
    settings := { settings with nodeName := d.nodeName }
    generation := d.generation + 1 }.wake

/-- Notes that the settings file has changed. -/
def noteSettingsChanged (d : Daemon) : Daemon := { d with settingsChanged := true }.wake

/-- Reads the settings again if they are said to have changed. Answers whether
others are in force; settings that cannot be used leave the old ones. -/
def reloadSettings (load : String → Except SettingsError Settings) :
    Step SettingsError Bool := fun d =>
  if d.settingsChanged then
    let d := { d with settingsChanged := false }
    match d.settingsFile with
    | none => .ok false d
    | some file =>
      match load file with
      | .ok settings => .ok true (d.replaceSettings settings)
      | .error e => .error e d
  else .ok false d

/-- The declared nodes, derived again after the settings changed. -/
def declaredNodes (d : Daemon) : List String × Daemon :=
  let (nodes, declared) := d.declared.get d.generation (fun _ => d.settings.clusterNodes)
  (nodes, { d with declared := declared })

/-! ## The local blob -/

/-- Runs a mutation of the store. -/
def mutate {α : Type} (m : Mutation α) : Step DataError α := fun d =>
  match m d.store with
  | .ok x s => .ok x { d with store := s }
  | .error e s => .error e { d with store := s }

/-- Runs a mutation of the store for a request. -/
def mutating {α : Type} (m : Mutation α) : Step Refusal α := fun d =>
  match mutate m d with
  | .ok x d => .ok x d
  | .error e d => .error (.data e) d

/-- Asks the monitor to wake up if something changed. -/
def wakeIf (changed : Bool) : Step Refusal Bool := fun d =>
  .ok changed (if changed then d.wake else d)

/-- The monitor record of the node. -/
def nodeMonitor (d : Daemon) : Node.Monitor := Node.Blob.monitor d.store d.nodeName

/-- The monitor record of an instance, if there is one. -/
def instanceMonitor? (d : Daemon) (service : String) : Option Service.Monitor :=
  Node.Blob.instanceMonitor? d.store d.nodeName service

/-- Changes the monitor record of the node. Answers whether it changed. -/
def setNodeMonitor (u : Node.Update) (at_ : Float) : Step Refusal Bool := do
  let changed ← mutating (Node.Blob.updateMonitor (← get).nodeName at_ u.apply)
  wakeIf changed

/-- Changes the monitor record of an instance. Answers whether it changed. -/
def setInstanceMonitor (service : String) (u : Service.Update) (at_ : Float) :
    Step Refusal Bool := do
  let changed ← mutating (Node.Blob.updateInstanceMonitor (← get).nodeName service at_ u.apply)
  wakeIf changed

/-- Takes in the status document of an instance. -/
def postStatus (service : String) (doc : Value) : Step DataError Unit := do
  let name := (← get).nodeName
  match doc with
  | .map entries => mutate (Node.Blob.replaceStatus name service entries)
  | other => throw (.wrongKind (Layout.serviceStatus name service) "map" other.kind)

/-- Adds or replaces a local service. -/
def postConfig (service : String) (config : Value) : Step Refusal Unit := do
  match Decode.ofValue Service.Config.decode config with
  | .error e => throw (.undecodable service e)
  | .ok c =>
    if c.isValid then
      mutating (Node.Blob.publishConfig (← get).nodeName service config)
      modify wake
    else throw (.invalid service c.violations)

/-- Removes a local service. Its instance goes away in the next round. -/
def removeService (service : String) : Step Refusal Unit := do
  mutating (Node.Blob.withdrawConfig (← get).nodeName service)
  modify wake

/-- Freezes the node at a time, or thaws it. -/
def setFrozen (frozen : Bool) (at_ : Float) : Step DataError Unit := do
  mutate (Node.Blob.setFrozen (← get).nodeName frozen at_)

/-- Publishes the node as in maintenance and asks the monitor to stop. It is
asked also if the record cannot be written. -/
def stop (at_ : Float) : Step Refusal Unit := fun d =>
  match setNodeMonitor (Node.Update.enter .maintenance) at_ d with
  | .ok _ d => .ok () d.requestStop
  | .error e d => .error e d.requestStop

/-! ## Peers -/

/-- Takes a message of a peer in. -/
def receive (d : Daemon) (peer : String) (m : Message) : Receipt × Daemon :=
  let (receipt, peers, store) := d.peers.receive d.store peer m
  (receipt, { d with peers := peers, store := store })

/-- Forgets a peer that is down, and its copy. -/
def purge (peer : String) : Step DataError Unit := fun d =>
  match d.peers.purge d.store peer with
  | (.ok (), peers, store) => .ok () { d with peers := peers, store := store }
  | (.error e, peers, store) => .error e { d with peers := peers, store := store }

/-- Every patch to broadcast, oldest first. -/
def nextPatches (d : Daemon) (now : Float) : List Message × Daemon :=
  let (patches, publisher, store) := d.publisher.nextPatches d.store now
  (patches, { d with publisher := publisher, store := store })

/-- A full message for a peer. -/
def fullMessage (d : Daemon) (now : Float) : Message × Daemon :=
  let (m, publisher, store) := d.publisher.full d.store now
  (m, { d with publisher := publisher, store := store })

/-- Takes in a beat of a peer. -/
def beat (d : Daemon) (transport peer : String) (at_ : Int) : Daemon :=
  { d with heartbeats := d.heartbeats.beat transport peer at_ }

/-- The cluster as the daemon sees it: the nodes that beat and the declared
ones are given. -/
def viewOf (d : Daemon) (now : Float) (live declared : List String) : View :=
  (View.build d.nodeName now d.store.data live declared d.settings.staleAfter).withDesynced
    d.peers.desynced

/-- The cluster as the daemon sees it at a moment. -/
def view (d : Daemon) (now : Moment) : View × Daemon :=
  let live := d.heartbeats.beating now.steady
  let (declared, d) := d.declaredNodes
  (d.viewOf now.wall live declared, d)

end Daemon

end HaCluster
