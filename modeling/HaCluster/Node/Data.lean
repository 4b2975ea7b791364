import HaCluster.Node.Monitor
import HaCluster.Service.Config
import HaCluster.Service.Instance

/-!
# What a node publishes

A node's blob is read record by record. One that does not decode is left out
and the rest is used, and a configuration that breaks a rule excludes only
its own service.
-/

namespace HaCluster.Node

/-- The blob of a node. -/
structure Data where
  monitor : Monitor
  labels : Entries String
  /-- When the node was frozen; zero if it is not. -/
  frozenAt : Float
  instances : Entries Service.Instance
  configs : Entries Service.Config
  /-- When the blob was refreshed, in seconds. -/
  updated : Float
  deriving Inhabited

namespace Data

/-- Whether the node is frozen. -/
def isFrozen (d : Data) : Bool := 0 < d.frozenAt

/-- The records of a mapping that decode. -/
def decodable {α : Type} (d : Decoder α) (v : Option Value) : Entries α :=
  ((v.bind Value.asMap?).getD []).filterMap
    (fun e => (Decode.ofValue d e.2).toOption.map (fun x => (e.1, x)))

/-- The number under a key of a blob, or zero. -/
def numberAt (blob : Value) (key : String) : Float :=
  ((blob.get? key).bind Value.asFloat?).getD 0

/-- The record under a key of a blob, or a default. -/
def recordAt {α : Type} (d : Decoder α) (blob : Value) (key : String) (default : α) : α :=
  ((blob.get? key).bind (fun v => (Decode.ofValue d v).toOption)).getD default

/-- Reads a blob. -/
def ofValue (blob : Value) : Data :=
  let services := blob.get? "services"
  { monitor := recordAt Monitor.decode blob "monitor" Monitor.blank
    labels := recordAt (Decode.entries Decode.string) blob "labels" []
    frozenAt := numberAt blob "frozen"
    instances := decodable Service.Instance.decode (services.bind (fun s => s.get? "status"))
    configs := (decodable Service.Config.decode (services.bind (fun s => s.get? "config"))).filter
      (fun e => e.2.isValid)
    updated := numberAt blob "updated" }

end Data

/-- The blob that every node starts from. -/
def emptyBlob : Value :=
  .map
    [("frozen", .float 0),
     ("labels", Value.empty),
     ("monitor", .map [("status", .str "init"), ("status_updated", .float 0)]),
     ("services", .map [("config", Value.empty), ("status", Value.empty)]),
     ("stats", Value.empty),
     ("updated", .float 0)]

end HaCluster.Node
