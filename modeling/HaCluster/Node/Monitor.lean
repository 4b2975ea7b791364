import HaCluster.Decode.Named

/-!
# Node monitors

The record that a node keeps of itself and publishes to its peers.
-/

namespace HaCluster.Node

/-- What a node is doing. -/
inductive State where
  | init
  | rejoin
  | idle
  | frozen
  | thawing
  | draining
  | drained
  | shutting
  /-- The daemon restarts; peers keep the node's data and do not take its
  services over. -/
  | maintenance
  deriving DecidableEq, Inhabited

instance : Named State where
  all := [.init, .rejoin, .idle, .frozen, .thawing, .draining, .drained, .shutting,
    .maintenance]
  name
    | .init => "init"
    | .rejoin => "rejoin"
    | .idle => "idle"
    | .frozen => "frozen"
    | .thawing => "thawing"
    | .draining => "draining"
    | .drained => "drained"
    | .shutting => "shutting"
    | .maintenance => "maintenance"

/-- What a node is expected to do by itself. -/
inductive LocalExpect where
  | drain
  | shutdown
  deriving DecidableEq, Inhabited

instance : Named LocalExpect where
  all := [.drain, .shutdown]
  name
    | .drain => "drain"
    | .shutdown => "shutdown"

/-- What every node is expected to do. -/
inductive GlobalExpect where
  | frozen
  | thawed
  | shutdown
  deriving DecidableEq, Inhabited

instance : Named GlobalExpect where
  all := [.frozen, .thawed, .shutdown]
  name
    | .frozen => "frozen"
    | .thawed => "thawed"
    | .shutdown => "shutdown"

/-- The record that a node keeps of itself. -/
structure Monitor where
  state : State
  /-- When the state last changed, in seconds. -/
  stateSince : Float
  localExpect : Option LocalExpect
  globalExpect : Option GlobalExpect
  deriving Inhabited

namespace Monitor

instance : BEq Monitor :=
  ⟨fun a b => a.state == b.state && a.stateSince == b.stateSince
    && a.localExpect == b.localExpect && a.globalExpect == b.globalExpect⟩

/-- The record of a node that has just started. -/
def blank : Monitor := ⟨.init, 0, none, none⟩

/-- The fields of a record. -/
def fields : List (Field Monitor) :=
  [Field.withDefault "status" Named.decode .init (fun x m => { m with state := x }),
   Field.withDefault "status_updated" Decode.float 0 (fun x m => { m with stateSince := x }),
   Field.withDefault "local_expect" (Decode.optional Named.decode) none
     (fun x m => { m with localExpect := x }),
   Field.withDefault "global_expect" (Decode.optional Named.decode) none
     (fun x m => { m with globalExpect := x })]

/-- Reads a record. -/
def decode : Decoder Monitor :=
  Decode.record "NodeMonitor" fields blank

/-- A record as a value of the tree. -/
def toValue (m : Monitor) : Value :=
  .map
    [("global_expect", .ofOption Named.toValue m.globalExpect),
     ("local_expect", .ofOption Named.toValue m.localExpect),
     ("status", Named.toValue m.state),
     ("status_updated", .real m.stateSince)]

end Monitor

end HaCluster.Node
