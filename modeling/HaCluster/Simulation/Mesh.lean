import HaCluster.Daemon.State

/-!
# A mesh of nodes

Messages between the nodes of a simulated cluster. They travel as bytes and
wait in the queue of their destination; what is sent along a cut line is lost
without notice.
-/

namespace HaCluster.Simulation

/-- The lines between nodes and the messages on their way. -/
structure Mesh where
  nodes : List String
  /-- The lines that are cut, from sender to destination. -/
  cuts : List (String × String)
  /-- What waits at each destination, oldest first, with the sender. -/
  queues : Entries (List (String × List UInt8))
  deriving Inhabited

namespace Mesh

/-- A mesh on which nothing was sent. -/
def new (nodes : List String) : Mesh := ⟨nodes, [], []⟩

/-- Cuts the line from a node to another. -/
def cut (m : Mesh) (sender dest : String) : Mesh :=
  { m with cuts := (sender, dest) :: m.cuts }

/-- Mends the line from a node to another. -/
def heal (m : Mesh) (sender dest : String) : Mesh :=
  { m with cuts := m.cuts.filter (· ≠ (sender, dest)) }

/-- What waits at a node. -/
def queue (m : Mesh) (node : String) : List (String × List UInt8) :=
  (Entries.get? m.queues node).getD []

/-- Sends a message to a node; nothing if the sender does not know it. -/
def send (m : Mesh) (sender dest : String) (msg : Message) : Option Mesh :=
  if m.cuts.contains (sender, dest) then some m
  else if dest ≠ sender ∧ m.nodes.contains dest then
    some { m with
      queues := Entries.insert m.queues dest (m.queue dest ++ [(sender, msg.encode)]) }
  else none

/-- Sends a message to every other node. -/
def broadcast (m : Mesh) (sender : String) (msg : Message) : Mesh :=
  (m.nodes.filter (· ≠ sender)).foldl (fun m dest => (m.send sender dest msg).getD m) m

/-- Sends messages to every other node, in order. -/
def broadcastAll (m : Mesh) (sender : String) (msgs : List Message) : Mesh :=
  msgs.foldl (fun m msg => m.broadcast sender msg) m

end Mesh

/-- Hands messages that waited to a daemon, in order: what became of each.
Nothing if one of them cannot be read. -/
def receiveAll : List (String × List UInt8) → Daemon → Option (List (String × Receipt)) × Daemon
  | [], d => (some [], d)
  | (sender, bytes) :: rest, d =>
    match Message.ofBytes? bytes with
    | none => (none, d)
    | some msg =>
      let (receipt, d) := d.receive sender msg
      let (others, d) := receiveAll rest d
      (others.map ((sender, receipt) :: ·), d)

/-- The transport on which simulated nodes beat. -/
def transport : String := "hb#fixture"

/-- Enough regular beats for a peer to count as beating at once. -/
def beatSteadily (d : Daemon) (peer : String) (steady : Int) : Daemon :=
  [4, 3, 2, 1, 0].foldl (fun d i => d.beat transport peer (steady - 200 * i)) d

end HaCluster.Simulation
