import HaCluster.Tree.Path

/-!
# The layout of the shared tree

Every node owns one blob under `cluster.nodes.<node>`. It holds the record of
the node's monitor, its labels and freeze time, and for each service the
configuration and the status of the instance on that node; the record of the
service's monitor lies inside that status.
-/

namespace HaCluster.Layout

/-- Where the blobs of all nodes lie. -/
def nodes : Path := Path.ofKeys ["cluster", "nodes"]

/-- Where the blob of a node lies. -/
def node (name : String) : Path := nodes.key name

/-- Where the monitor record of a node lies. -/
def nodeMonitor (name : String) : Path := (node name).key "monitor"

/-- Where the services of a node lie. -/
def services (name : String) : Path := (node name).key "services"

/-- Where the status of a service's instance on a node lies. -/
def serviceStatus (name service : String) : Path :=
  ((services name).key "status").key service

/-- Where the configuration of a service, as a node publishes it, lies. -/
def serviceConfig (name service : String) : Path :=
  ((services name).key "config").key service

/-- Where the monitor record of a service instance lies. -/
def serviceMonitor (name service : String) : Path :=
  (serviceStatus name service).key "monitor"

end HaCluster.Layout
