import HaCluster.Monitor.Run
import HaCluster.Simulation.Mesh
import HaCluster.Simulation.World

/-!
# A simulated cluster

Several daemons with their monitors, each in a scripted world of its own,
joined by a mesh. One clock serves them all, and it moves only when told to.
-/

namespace HaCluster.Simulation

/-- A node of a simulated cluster. -/
structure Member where
  monitor : Monitor World
  /-- Whether the monitor has not come to its end. -/
  active : Bool

namespace Member

/-- The daemon of a node. -/
def daemon (m : Member) : Daemon := m.monitor.daemon

/-- The world of a node. -/
def world (m : Member) : World := m.monitor.world

/-- A node with another state of its daemon. -/
def withDaemon (m : Member) (d : Daemon) : Member :=
  { m with monitor := { m.monitor with daemon := d } }

/-- A node in another world. -/
def withWorld (m : Member) (w : World) : Member :=
  { m with monitor := { m.monitor with world := w } }

end Member

/-- A simulated cluster. -/
structure Cluster where
  host : Daemon.Host
  /-- What the clock shows, in milliseconds. -/
  clock : Nat
  members : Entries Member
  mesh : Mesh

namespace Cluster

/-- What the clock shows. -/
def now (c : Cluster) : Moment := Moment.ofMillis c.clock

/-- A node of the cluster. -/
def member? (c : Cluster) (node : String) : Option Member := Entries.get? c.members node

/-- Replaces a node of the cluster. -/
def put (c : Cluster) (node : String) (m : Member) : Cluster :=
  { c with members := Entries.insert c.members node m }

/-- Adds a node with its settings and its world. -/
def add (c : Cluster) (node : String) (settings : Daemon.Settings) (settingsFile : Option String)
    (w : World) : Cluster :=
  c.put node ⟨Monitor.new (Daemon.start settings settingsFile c.now.wall) w, true⟩

/-- Hands what waits at a node to it: what became of each message. -/
def deliver (c : Cluster) (node : String) (m : Member) :
    Option (List (String × Receipt)) × Cluster :=
  let (receipts, d) := receiveAll (c.mesh.queue node) m.daemon
  (receipts,
    { c.put node (m.withDaemon d) with
      mesh := { c.mesh with queues := Entries.erase c.mesh.queues node } })

/-- A node sends the whole of its blob to another one. -/
def resync (c : Cluster) (sender dest : String) : Cluster :=
  match c.member? sender with
  | none => c
  | some m =>
    let (msg, d) := m.daemon.fullMessage c.now.wall
    let c := c.put sender (m.withDaemon d)
    { c with mesh := (c.mesh.send sender dest msg).getD c.mesh }

/-- Delivers to a node until nothing waits, where every sender whose copy went
out of step sends the whole of its blob. At most `limit` deliveries. -/
def deliverAll (node : String) : Nat → Cluster → List (String × Receipt) × Cluster
  | 0, c => ([], c)
  | limit + 1, c =>
    match c.member? node with
    | none => ([], c)
    | some m =>
      match c.deliver node m with
      | (none, c) => ([], c)
      | (some [], c) => ([], c)
      | (some receipts, c) =>
        let lost := receipts.filter (fun r => r.2 = .needResync)
        let c := lost.foldl (fun c r => c.resync r.1 node) c
        let (others, c) := deliverAll node limit c
        (receipts ++ others, c)

/-- Every other node that is active beats to a node. -/
def beatAll (c : Cluster) (node : String) (m : Member) : Member :=
  let others := (c.members.filter (fun e => e.1 ≠ node && e.2.active)).map Prod.fst
  m.withDaemon (others.foldl (fun d peer => beatSteadily d peer c.clock) m.daemon)

/-- What a round came to: its report or the fault, and the events. -/
abbrev RoundResult := Except DataError Monitor.Report × List Monitor.Event

/-- A round of a node at a time; its patches are sent if so told. -/
def tick (c : Cluster) (node : String) (m : Member) (at_ : Float) (broadcast : Bool) :
    RoundResult × Cluster :=
  let fresh := { m.monitor with
    pool := m.monitor.pool.settle (HaCluster.World.readStatus m.world) c.now.wall
    events := [] }
  match Monitor.round c.host c.now at_ fresh with
  | .ok report s =>
    let c := c.put node { m with monitor := s }
    ((.ok report, s.events),
      if broadcast then { c with mesh := c.mesh.broadcastAll node report.outgoing } else c)
  | .error e s => ((.error e, s.events), c.put node { m with monitor := s })

/-- A node hears its peers, takes their messages in and runs a round. -/
def round (c : Cluster) (node : String) (m : Member) :
    List (String × Receipt) × Option RoundResult × Cluster :=
  let (received, c) := deliverAll node 100 (c.put node (c.beatAll node m))
  match c.member? node with
  | none => (received, none, c)
  | some m =>
    let (result, c) := c.tick node m c.now.wall true
    (received, some result, c)

/-- Runs the monitor of a node to its end: the events on the way. -/
def run (c : Cluster) (node : String) (m : Member) : List Monitor.Event × Cluster :=
  let (msgs, s) := Monitor.run c.host c.now 1000 { m.monitor with events := [] }
  let c := c.put node ⟨s, false⟩
  (s.events, { c with mesh := c.mesh.broadcastAll node msgs })

end Cluster

end HaCluster.Simulation
