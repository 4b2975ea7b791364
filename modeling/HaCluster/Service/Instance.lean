import HaCluster.Decode.Named

/-!
# Service instances

An instance is a service on one node: what its drivers report about it, and
the record that the monitor keeps of it. A report that lacks a field stands
for the default, so a record decodes from an empty mapping.
-/

namespace HaCluster

/-- Whether something can be used. -/
inductive Avail where
  | up
  | down
  | warn
  | notApplicable
  | undef
  /-- Nothing is known: no report came, or its node is dead or stale. -/
  | unknown
  deriving DecidableEq, Inhabited

instance : Named Avail where
  all := [.up, .down, .warn, .notApplicable, .undef, .unknown]
  name
    | .up => "up"
    | .down => "down"
    | .warn => "warn"
    | .notApplicable => "n/a"
    | .undef => "undef"
    | .unknown => "unknown"

/-- Whether something runs and would have to be stopped. -/
def Avail.isRunning : Avail → Bool
  | .up => true
  | .warn => true
  | _ => false

namespace Service

/-- What a resource driver reports. -/
structure Resource where
  status : Avail
  label : String
  info : Entries Value
  /-- Lines of the driver's log, the newest last. -/
  log : List String
  /-- Whether the resource is restarted when it goes down. -/
  monitored : Bool
  /-- How many times it may be restarted. -/
  restarts : Nat
  deriving Inhabited

namespace Resource

/-- What a report without any field says. -/
def blank : Resource := ⟨.undef, "", [], [], false, 0⟩

/-- Reads a report. -/
def decode : Decoder Resource :=
  Decode.record "ResourceStatus"
    [Field.withDefault "status" Named.decode .undef (fun x r => { r with status := x }),
     Field.withDefault "label" Decode.string "" (fun x r => { r with label := x }),
     Field.withDefault "info" (Decode.entries Decode.value) [] (fun x r => { r with info := x }),
     Field.withDefault "log" (Decode.list Decode.string) [] (fun x r => { r with log := x }),
     Field.withDefault "monitor" Decode.bool false (fun x r => { r with monitored := x }),
     Field.withDefault "restart" Decode.u32 0 (fun x r => { r with restarts := x })]
    blank

/-- A report as a value of the tree. -/
def toValue (r : Resource) : Value :=
  .map
    [("info", .map r.info), ("label", .str r.label), ("log", .ofStrings r.log),
     ("monitor", .bool r.monitored), ("restart", .ofNat r.restarts),
     ("status", Named.toValue r.status)]

end Resource

/-- What the monitor is doing about an instance. -/
inductive State where
  | idle
  | waitParents
  | waitChildren
  | waitLeader
  | ready
  | starting
  | startFailed
  | stopping
  | stopFailed
  | restarting
  | freezing
  | freezeFailed
  | thawing
  | thawFailed
  | provisioning
  | provisionFailed
  deriving DecidableEq, Inhabited

instance : Named State where
  all := [.idle, .waitParents, .waitChildren, .waitLeader, .ready, .starting, .startFailed,
    .stopping, .stopFailed, .restarting, .freezing, .freezeFailed, .thawing, .thawFailed,
    .provisioning, .provisionFailed]
  name
    | .idle => "idle"
    | .waitParents => "wait parents"
    | .waitChildren => "wait children"
    | .waitLeader => "wait leader"
    | .ready => "ready"
    | .starting => "starting"
    | .startFailed => "start failed"
    | .stopping => "stopping"
    | .stopFailed => "stop failed"
    | .restarting => "restarting"
    | .freezing => "freezing"
    | .freezeFailed => "freeze failed"
    | .thawing => "thawing"
    | .thawFailed => "thaw failed"
    | .provisioning => "provisioning"
    | .provisionFailed => "provision failed"

/-- Whether an action runs on behalf of a state. -/
def State.isTransient : State → Bool
  | .starting | .stopping | .restarting | .freezing | .thawing | .provisioning => true
  | _ => false

/-- Whether a state says that an action failed. -/
def State.isFailed : State → Bool
  | .startFailed | .stopFailed | .freezeFailed | .thawFailed | .provisionFailed => true
  | _ => false

/-- What an instance is expected to be on its own node. -/
inductive LocalExpect where
  | started
  deriving DecidableEq, Inhabited

instance : Named LocalExpect where
  all := [.started]
  name
    | .started => "started"

/-- What a service is expected to be in the whole cluster. -/
inductive GlobalExpect where
  | started
  | stopped
  | frozen
  | thawed
  | provisioned
  deriving DecidableEq, Inhabited

instance : Named GlobalExpect where
  all := [.started, .stopped, .frozen, .thawed, .provisioned]
  name
    | .started => "started"
    | .stopped => "stopped"
    | .frozen => "frozen"
    | .thawed => "thawed"
    | .provisioned => "provisioned"

/-- The record that the monitor keeps of an instance. -/
structure Monitor where
  state : State
  /-- When the state last changed, in seconds. -/
  stateSince : Float
  localExpect : Option LocalExpect
  globalExpect : Option GlobalExpect
  /-- How many times the service or one of its resources was retried. -/
  retries : Entries Nat
  deriving Inhabited

namespace Monitor

instance : BEq Monitor :=
  ⟨fun a b => a.state == b.state && a.stateSince == b.stateSince
    && a.localExpect == b.localExpect && a.globalExpect == b.globalExpect
    && a.retries == b.retries⟩

/-- The record of an instance that nothing was done about. -/
def blank : Monitor := ⟨.idle, 0, none, none, []⟩

/-- The fields of a record. -/
def fields : List (Field Monitor) :=
  [Field.withDefault "status" Named.decode .idle (fun x m => { m with state := x }),
   Field.withDefault "status_updated" Decode.float 0 (fun x m => { m with stateSince := x }),
   Field.withDefault "local_expect" (Decode.optional Named.decode) none
     (fun x m => { m with localExpect := x }),
   Field.withDefault "global_expect" (Decode.optional Named.decode) none
     (fun x m => { m with globalExpect := x }),
   Field.withDefault "restart" (Decode.entries Decode.u32) []
     (fun x m => { m with retries := x })]

/-- Reads a record. -/
def decode : Decoder Monitor :=
  Decode.record "ServiceMonitor" fields blank

/-- A record as a value of the tree. -/
def toValue (m : Monitor) : Value :=
  .map
    [("global_expect", .ofOption Named.toValue m.globalExpect),
     ("local_expect", .ofOption Named.toValue m.localExpect),
     ("restart", .map (Entries.mapValues Value.ofNat m.retries)),
     ("status", Named.toValue m.state),
     ("status_updated", .real m.stateSince)]

end Monitor

/-- A service on one node. -/
structure Instance where
  avail : Avail
  overall : Avail
  /-- When the instance was frozen; zero if it is not. -/
  frozenAt : Float
  provisioned : Option Bool
  /-- Whether the node meets the constraints of the service. -/
  constraints : Bool
  monitor : Monitor
  resources : Entries Resource
  /-- When the report was made, in seconds. -/
  updated : Float
  deriving Inhabited

namespace Instance

/-- What a report without any field says. -/
def blank : Instance := ⟨.undef, .undef, 0, none, true, Monitor.blank, [], 0⟩

/-- Whether the instance is frozen. -/
def isFrozen (i : Instance) : Bool := 0 < i.frozenAt

/-- The fields of an instance. -/
def fields : List (Field Instance) :=
  [Field.withDefault "avail" Named.decode .undef (fun x i => { i with avail := x }),
   Field.withDefault "overall" Named.decode .undef (fun x i => { i with overall := x }),
   Field.withDefault "frozen" Decode.float 0 (fun x i => { i with frozenAt := x }),
   Field.withDefault "provisioned" (Decode.optional Decode.bool) none
     (fun x i => { i with provisioned := x }),
   Field.withDefault "constraints" Decode.bool true (fun x i => { i with constraints := x }),
   Field.withDefault "monitor" Monitor.decode Monitor.blank (fun x i => { i with monitor := x }),
   Field.withDefault "resources" (Decode.entries Resource.decode) []
     (fun x i => { i with resources := x }),
   Field.withDefault "updated" Decode.float 0 (fun x i => { i with updated := x })]

/-- Reads an instance. -/
def decode : Decoder Instance :=
  Decode.record "ServiceInstanceStatus" fields blank

/-- An instance as a value of the tree. -/
def toValue (i : Instance) : Value :=
  .map
    [("avail", Named.toValue i.avail),
     ("constraints", .bool i.constraints),
     ("frozen", .real i.frozenAt),
     ("monitor", i.monitor.toValue),
     ("overall", Named.toValue i.overall),
     ("provisioned", .ofOption .bool i.provisioned),
     ("resources", .map (Entries.mapValues Resource.toValue i.resources)),
     ("updated", .real i.updated)]

end Instance

end Service

end HaCluster
