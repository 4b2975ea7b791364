import HaCluster.Simulation.Mesh

/-!
# Hand-built clusters

A tree as a cluster would publish it, built by hand to try decisions on. Every
node starts out idle, alive and fresh, and a change of a node's blob refreshes
it.
-/

namespace HaCluster.Simulation

/-- A hand-built cluster. -/
structure Sketch where
  localNode : String
  nodes : List String
  /-- The nodes that do not beat. -/
  down : List String
  /-- The time, in seconds. -/
  now : Float
  data : Value
  staleAfter : Span
  /-- The number of the last full message that was made. -/
  lastFull : Nat
  deriving Inhabited

namespace Sketch

/-- Stores a value where it is possible. -/
def store (f : Sketch) (path : Path) (v : Value) : Sketch :=
  { f with data := (f.data.store path v).toOption.getD f.data }

/-- The paths above a path, from the root on. -/
def above (path : Path) : List Path := (List.range path.length).map (fun n => path.take n)

/-- The paths above a path where nothing is stored, the outermost first. -/
def missingParents (f : Sketch) (path : Path) : List Path :=
  ((above path).reverse.takeWhile (fun p => (f.data.lookup p).isNone)).reverse

/-- Stores a value, and empty mappings above it where nothing is stored. -/
def put (f : Sketch) (path : Path) (v : Value) : Sketch :=
  ((f.missingParents path).foldl (fun f p => f.store p Value.empty) f).store path v

/-- Refreshes the blob of a node. -/
def touch (f : Sketch) (node : String) : Sketch :=
  f.store ((Layout.node node).key "updated") (.float f.now)

/-- Refreshes the blobs of all nodes. -/
def touchAll (f : Sketch) : Sketch := f.nodes.foldl touch f

/-- Stores a value in the blob of a node. -/
def putNode (f : Sketch) (node : String) (keys : List String) (v : Value) : Sketch :=
  (f.put (Layout.node node ++ Path.ofKeys keys) v).touch node

/-- Sets the state of a node. -/
def setNodeState (f : Sketch) (node : String) (s : Node.State) : Sketch :=
  match (f.data.lookup (Layout.nodeMonitor node)).getD Value.empty with
  | .map m =>
    let m := Entries.insert m "status" (Named.toValue s)
    f.putNode node ["monitor"] (.map (Entries.insert m "status_updated" (.float f.now)))
  | other => f.putNode node ["monitor"] other

/-- A cluster of idle nodes. -/
def new (localNode : String) (nodes : List String) : Sketch :=
  let empty : Sketch := ⟨localNode, nodes, [], 1000, Value.empty, Span.seconds 30, 0⟩
  nodes.foldl (fun f n => (f.put (Layout.node n) Node.emptyBlob).setNodeState n .idle)
    (empty.put Layout.nodes Value.empty)

/-- Moves the clock. -/
def advance (f : Sketch) (seconds : Float) : Sketch := { f with now := f.now + seconds }

/-- Silences a node. -/
def nodeDown (f : Sketch) (node : String) : Sketch := { f with down := node :: f.down }

/-- Lets a node beat again. -/
def nodeUp (f : Sketch) (node : String) : Sketch :=
  { f with down := f.down.filter (· ≠ node) }

/-- Freezes a node. -/
def freezeNode (f : Sketch) (node : String) : Sketch := f.putNode node ["frozen"] (.float f.now)

/-- Thaws a node. -/
def thawNode (f : Sketch) (node : String) : Sketch := f.putNode node ["frozen"] (.float 0)

/-- Configures a service on a node. -/
def serviceOn (f : Sketch) (node service : String) (config : Value) : Sketch :=
  f.putNode node ["services", "config", service] config

/-- Configures a service on every node. -/
def service (f : Sketch) (service : String) (config : Value) : Sketch :=
  f.nodes.foldl (fun f n => f.serviceOn n service config) f

/-- Sets a field of an instance. -/
def field (f : Sketch) (node service key : String) (v : Value) : Sketch :=
  f.putNode node ["services", "status", service, key] v

/-- Reports whether an instance can be used. -/
def avail (f : Sketch) (node service : String) (a : Avail) : Sketch :=
  ((f.field node service "avail" (Named.toValue a)).field node service "overall"
    (Named.toValue a)).field node service "updated" (.float f.now)

/-- Reports the status of a resource of an instance. -/
def resource (f : Sketch) (node service rid : String) (status : Value) : Sketch :=
  f.putNode node ["services", "status", service, "resources", rid] status

/-- The status document of an instance. -/
def instance? (f : Sketch) (node service : String) : Option Value :=
  f.data.lookup (Layout.serviceStatus node service)

/-- The blob of a node. -/
def blob (f : Sketch) (node : String) : Value :=
  (f.data.lookup (Layout.node node)).getD Value.empty

/-- The nodes that beat, in order. -/
def live (f : Sketch) : List String :=
  Entries.keySet (f.nodes.filter (fun n => !f.down.contains n))

/-- The cluster as the local node sees it. -/
def view (f : Sketch) : View :=
  View.build f.localNode f.now f.data f.live f.nodes f.staleAfter

/-- Feeds what the peers publish to a daemon, and their beats. -/
def seed (f : Sketch) (d : Daemon) (steady : Int) : Daemon × Sketch :=
  let f := { f with lastFull := f.lastFull + 1 }
  ((f.nodes.filter (· ≠ f.localNode)).foldl (fun d n =>
    if f.down.contains n then { d with heartbeats := d.heartbeats.markDown transport n }
    else ((beatSteadily d n steady).receive n ⟨f.lastFull, f.now, .full (f.blob n)⟩).2) d, f)

end Sketch

end HaCluster.Simulation
