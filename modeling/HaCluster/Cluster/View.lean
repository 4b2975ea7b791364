import HaCluster.Span.Basic
import HaCluster.Node.Data

/-!
# The cluster as one node sees it

A view is a picture of the cluster at one moment. Every decision of one round
is taken on the same view.

What a peer published counts only while it can be trusted: the peer beats,
its blob was refreshed lately, and its copy is in step. Otherwise its data is
hidden, and whoever asks for it learns that nothing is known; no answer says
that something is down because nobody could see it.
-/

namespace HaCluster

/-- A picture of the cluster, seen from one node. -/
structure View where
  localNode : String
  /-- The time of the picture, in seconds. -/
  now : Float
  /-- The nodes that the configuration names. -/
  declared : List String
  /-- The nodes that beat; the local one always does. -/
  live : List String
  /-- How old a peer's blob may be, in seconds. -/
  staleAfter : Float
  /-- The peers whose copies went out of step. -/
  desynced : List String
  nodes : Entries Node.Data
  deriving Inhabited

namespace View

/-- The blobs of all nodes in a snapshot of the tree. -/
def blobs (snapshot : Value) : Entries Value :=
  (((snapshot.get? "cluster").bind (fun c => c.get? "nodes")).bind Value.asMap?).getD []

/-- The view of a node on a snapshot. -/
def build (localNode : String) (now : Float) (snapshot : Value) (live declared : List String)
    (staleAfter : Span) : View where
  localNode := localNode
  now := now
  declared := declared
  live := localNode :: live
  staleAfter := staleAfter.toSeconds
  desynced := []
  nodes := Entries.mapValues Node.Data.ofValue (blobs snapshot)

/-- Hides the peers whose copies went out of step. -/
def withDesynced (v : View) (peers : List String) : View :=
  { v with desynced := peers.filter (· ≠ v.localNode) }

/-- The declared nodes, followed by the others that published data and the
local one. -/
def clusterNodes (v : View) : List String :=
  (Entries.keys v.nodes ++ [v.localNode]).foldl
    (fun l n => if l.contains n then l else l ++ [n]) v.declared

/-- The nodes that published data. -/
def knownNodes (v : View) : List String := Entries.keys v.nodes

/-- Whether a node beats. -/
def isAlive (v : View) (node : String) : Bool := v.live.contains node

/-- The blob of a node, whether it can be trusted or not. -/
def node? (v : View) (node : String) : Option Node.Data := Entries.get? v.nodes node

/-- Whether the copy of a node is missing, out of step or too old. The local
blob never is. -/
def isStale (v : View) (node : String) : Bool :=
  if node = v.localNode then false
  else if v.desynced.contains node then true
  else
    match v.node? node with
    | some d => v.staleAfter < v.now - d.updated
    | none => true

/-- The blob of a node if it can be trusted. -/
def trusted? (v : View) (node : String) : Option Node.Data :=
  if v.isAlive node && !v.isStale node then v.node? node else none

/-- The local blob. -/
def localData? (v : View) : Option Node.Data := v.node? v.localNode

/-- The monitor record of a node. -/
def nodeMonitor? (v : View) (node : String) : Option Node.Monitor :=
  (v.trusted? node).map Node.Data.monitor

/-- Whether a node is frozen. -/
def nodeFrozen? (v : View) (node : String) : Option Bool :=
  (v.trusted? node).map Node.Data.isFrozen

/-- The instance of a service on a node. -/
def instance? (v : View) (node path : String) : Option Service.Instance :=
  (v.trusted? node).bind (fun d => Entries.get? d.instances path)

/-- Whether the instance of a service on a node can be used. -/
def avail (v : View) (node path : String) : Avail :=
  ((v.instance? node path).map Service.Instance.avail).getD .unknown

/-- The configuration of a service: the local one, else that of the first
trusted node that publishes one. -/
def serviceConfig? (v : View) (path : String) : Option Service.Config :=
  match v.localData?.bind (fun d => Entries.get? d.configs path) with
  | some c => some c
  | none =>
    v.clusterNodes.findSome? (fun n =>
      (v.trusted? n).bind (fun d => Entries.get? d.configs path))

/-- The services that the local node is configured to run. -/
def localServices (v : View) : List String :=
  (v.localData?.map (fun d => Entries.keys d.configs)).getD []

/-- The services that have an instance on the local node. -/
def localInstances (v : View) : List String :=
  (v.localData?.map (fun d => Entries.keys d.instances)).getD []

/-- Whether the data of some peer can be seen. -/
def peersKnown (v : View) : Bool :=
  v.knownNodes.any (fun n => n ≠ v.localNode && (v.trusted? n).isSome)

/-- The declared nodes other than the local one. -/
def declaredPeers (v : View) : List String :=
  v.declared.filter (· ≠ v.localNode)

end View

namespace Service

/-- A reference to a parent: its instances anywhere, or the one on a node. -/
inductive ParentRef where
  | anywhere (path : String)
  | pinned (path node : String)
  deriving DecidableEq, Inhabited

namespace ParentRef

/-- Reads a reference: what follows the first `@` is a node. -/
def ofText (s : String) : ParentRef :=
  match s.toList.span (· ≠ '@') with
  | (path, _ :: node) => .pinned (String.ofList path) (String.ofList node)
  | (path, []) => .anywhere (String.ofList path)

/-- The service that a reference names. -/
def path : ParentRef → String
  | .anywhere p => p
  | .pinned p _ => p

end ParentRef

end Service

namespace View

/-- The configurations of all services that trusted nodes publish; of several
for one service, that of the first node. -/
def publishedConfigs (v : View) : Entries Service.Config :=
  ((v.knownNodes.filterMap v.trusted?).flatMap Node.Data.configs).foldl
    (fun m e => if Entries.contains m e.1 then m else Entries.insert m e.1 e.2) []

/-- The services that name a service as a parent, in order. -/
def children (v : View) (path : String) : List String :=
  (v.publishedConfigs.filter (fun e =>
    e.2.parents.any (fun p => (Service.ParentRef.ofText p).path = path))).map Prod.fst

/-- The nodes of a service's scope whose instances run. -/
def runningOn (v : View) (path : String) : List String :=
  let scope := match v.serviceConfig? path with
    | some c => c.scope
    | none => v.clusterNodes
  scope.filter (fun n => (v.avail n path).isRunning)

/-- How many nodes of a service's scope report it up. -/
def upCount (v : View) (path : String) : Nat :=
  match v.serviceConfig? path with
  | some c => c.scope.countP (fun n => v.avail n path = .up)
  | none => 0

/-- The instances of a service that can be seen in its scope. -/
def scopeInstances (v : View) (path : String) : List (String × Service.Instance) :=
  match v.serviceConfig? path with
  | some c => c.scope.filterMap (fun n => (v.instance? n path).map (n, ·))
  | none => []

end View

end HaCluster
