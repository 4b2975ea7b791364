import HaCluster.Node.Monitor

/-!
# What a node does next

A node starts up by loading its configuration and waiting for its peers. Then
it follows what is expected of it, until the daemon stops: maintenance is
left only by a restart.
-/

namespace HaCluster.Node

/-- Everything that the decision about a node looks at. -/
structure Situation where
  monitor : Monitor
  /-- Whether the node is frozen. -/
  frozen : Bool
  configLoaded : Bool
  /-- Whether some peer published its data, or there is no peer. -/
  peersKnown : Bool
  /-- How long the daemon has run, in seconds. -/
  uptime : Float
  /-- How long the daemon waits for its peers, in seconds. -/
  rejoinGrace : Float
  /-- Whether every local instance that a drain stops is down. -/
  drainableDown : Bool
  /-- Whether every live node is frozen. -/
  clusterFrozen : Bool
  /-- Whether no live node is frozen. -/
  clusterThawed : Bool
  deriving Inhabited

/-- What to change on the local node. -/
structure Decision where
  /-- The state to go to, if it is another one. -/
  state : Option State
  /-- Whether to freeze the node, or to thaw it. -/
  freeze : Option Bool
  clearGlobalExpect : Bool
  reason : String
  /-- Whether services must not be touched yet. -/
  holdServices : Bool
  /-- Whether the node goes on without having heard of any peer. -/
  degraded : Bool
  deriving DecidableEq, Inhabited

namespace Decision

/-- To go to a state. -/
def enter (state : State) (reason : String) : Decision :=
  ⟨some state, none, false, reason, false, false⟩

/-- To stay in the present state. -/
def keep (reason : String) : Decision :=
  ⟨none, none, false, reason, false, false⟩

end Decision

namespace Situation

/-- What an operational node does that nothing is expected of. -/
def unattended (s : Situation) : Decision :=
  match s.monitor.state with
  | .shutting | .draining | .drained => .enter .idle "no more node intent"
  | current =>
    if s.frozen then .enter .frozen "freeze flag present"
    else
      match current with
      | .frozen | .thawing => .enter .idle "thawed"
      | _ => .keep "idle"

/-- What an operational node does. -/
def operational (s : Situation) : Decision :=
  match s.monitor.globalExpect, s.monitor.localExpect with
  | some .shutdown, _ => .enter .shutting "shutdown requested"
  | _, some .shutdown => .enter .shutting "shutdown requested"
  | some .frozen, _ =>
    if s.frozen then
      { Decision.enter .frozen "frozen" with clearGlobalExpect := s.clusterFrozen }
    else { Decision.enter .frozen "freeze requested" with freeze := some true }
  | some .thawed, _ =>
    if s.frozen then { Decision.enter .thawing "thaw requested" with freeze := some false }
    else { Decision.enter .idle "thawed" with clearGlobalExpect := s.clusterThawed }
  | none, some .drain =>
    if s.drainableDown then .enter .drained "every drainable service is down"
    else .enter .draining "drain requested"
  | none, none => s.unattended

/-- What a node does, before the present state is taken into account. -/
def next (s : Situation) : Decision :=
  match s.monitor.state with
  | .init =>
    if s.configLoaded then .enter .rejoin "configuration loaded"
    else .keep "waiting for configuration"
  | .rejoin =>
    if s.peersKnown then .enter .idle "peer data received"
    else if s.rejoinGrace ≤ s.uptime then
      { Decision.enter .idle "rejoin grace period expired without peer data" with
        degraded := true }
    else .keep "waiting for peer data"
  | .maintenance => .keep "daemon stopping"
  | _ => s.operational

/-- Whether services must not be touched in a state. -/
def holdsServices : State → Bool
  | .init | .rejoin | .maintenance => true
  | _ => false

/-- The decision about a node. -/
def decide (s : Situation) : Decision :=
  let d := s.next
  { d with
    holdServices := holdsServices (d.state.getD s.monitor.state)
    state := if d.state = some s.monitor.state then none else d.state }

end Situation

end HaCluster.Node
