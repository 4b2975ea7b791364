import HaCluster.Cluster.Layout
import HaCluster.Node.Data
import HaCluster.Store.Basic

/-!
# Changing the local blob

The mutations with which a node keeps its own blob: its monitor record, its
freeze time, and for each service the configuration, the status document and
the monitor record inside that document.

Records are written only when they change, so nothing is queued for the peers
that they know already. A status document never replaces the monitor record
that lies inside it, and the monitor record never touches the rest.
-/

namespace HaCluster

namespace Node

/-- A record after a change, dated by `at_` if the state is another one. -/
def Monitor.dated (next current : Monitor) (at_ : Float) : Monitor :=
  if next.state = current.state then next else { next with stateSince := at_ }

end Node

namespace Service

/-- A record after a change, dated by `at_` if the state is another one. -/
def Monitor.dated (next current : Monitor) (at_ : Float) : Monitor :=
  if next.state = current.state then next else { next with stateSince := at_ }

end Service

namespace Node.Blob

/-- The monitor record of a node, or that of a node that has just started if
there is none that can be read. -/
def monitor (s : Store) (node : String) : Node.Monitor :=
  (Decode.ofValue Node.Monitor.decode (s.getD (Layout.nodeMonitor node) .null)).toOption.getD
    Node.Monitor.blank

/-- The monitor record of an instance, if there is one that can be read. -/
def instanceMonitor? (s : Store) (node service : String) : Option Service.Monitor :=
  (s.get (Layout.serviceMonitor node service)).toOption.bind
    (fun v => (Decode.ofValue Service.Monitor.decode v).toOption)

/-- The monitor record of an instance, or that of an instance nothing was done
about. -/
def instanceMonitor (s : Store) (node service : String) : Service.Monitor :=
  (instanceMonitor? s node service).getD Service.Monitor.blank

/-- Edits the monitor record of a node. Answers whether it changed. -/
def updateMonitor (node : String) (at_ : Float) (edit : Node.Monitor → Node.Monitor) :
    Mutation Bool := fun s =>
  let current := monitor s node
  let next := (edit current).dated current at_
  if next == current then .ok false s
  else (do let _ ← Store.set (Layout.nodeMonitor node) next.toValue; pure true : Mutation Bool) s

/-- Makes sure that an instance has a status document. -/
def ensureInstance (node service : String) : Mutation Unit := do
  let _ ← Store.setIfAbsent (Layout.services node) Value.empty
  let _ ← Store.setIfAbsent ((Layout.services node).key "status") Value.empty
  let _ ← Store.setIfAbsent (Layout.serviceStatus node service) Value.empty
  pure ()

/-- Writes the monitor record of an instance that has a status document. -/
def writeInstanceMonitor (node service : String) (at_ : Float)
    (edit : Service.Monitor → Service.Monitor) : Mutation Bool := fun s =>
  let current := instanceMonitor s node service
  let next := (edit current).dated current at_
  if next == current && s.has (Layout.serviceMonitor node service) then .ok false s
  else
    (do let _ ← Store.set (Layout.serviceMonitor node service) next.toValue; pure true :
      Mutation Bool) s

/-- Edits the monitor record of an instance, which is made on first reference.
Answers whether it changed. -/
def updateInstanceMonitor (node service : String) (at_ : Float)
    (edit : Service.Monitor → Service.Monitor) : Mutation Bool := do
  ensureInstance node service
  writeInstanceMonitor node service at_ edit

/-- The keys of the mapping at a path. -/
def keysAt (s : Store) (path : Path) : List String :=
  Entries.keys (((s.getD path .null).asMap?).getD [])

/-- Removes what a new status document does not have, the monitor record
apart. -/
def dropOldKeys (node service : String) (doc : Entries Value) : List String → Mutation Unit
  | [] => pure ()
  | key :: rest => do
    if key ≠ "monitor" ∧ !Entries.contains doc key then
      let _ ← Store.unset ((Layout.serviceStatus node service).key key)
    dropOldKeys node service doc rest

/-- Replaces the status document of an instance, keeping its monitor
record. -/
def replaceStatus (node service : String) (doc : Entries Value) : Mutation Unit := do
  ensureInstance node service
  let path := Layout.serviceStatus node service
  dropOldKeys node service doc (keysAt (← get) path)
  let _ ← Store.merge path (Entries.erase doc "monitor")
  pure ()

/-- Publishes the configuration of a service. -/
def publishConfig (node service : String) (config : Value) : Mutation Unit := do
  let _ ← Store.setIfAbsent (Layout.services node) Value.empty
  let _ ← Store.setIfAbsent ((Layout.services node).key "config") Value.empty
  let _ ← Store.set (Layout.serviceConfig node service) config
  pure ()

/-- Withdraws the configuration of a service. -/
def withdrawConfig (node service : String) : Mutation Unit := do
  let _ ← Store.unsetIfPresent (Layout.serviceConfig node service)
  pure ()

/-- Drops the status document of an instance. -/
def dropInstance (node service : String) : Mutation Unit := do
  let _ ← Store.unsetIfPresent (Layout.serviceStatus node service)
  pure ()

/-- When a node was frozen; zero if it is not. -/
def frozenAt (s : Store) (node : String) : Float :=
  ((s.getD ((Layout.node node).key "frozen") .null).asFloat?).getD 0

/-- Freezes a node at a time, or thaws it. A node that is so already keeps its
freeze time. -/
def setFrozen (node : String) (frozen : Bool) (at_ : Float) : Mutation Unit := fun s =>
  if decide (0 < frozenAt s node) = frozen then .ok () s
  else
    (do
      let _ ← Store.set ((Layout.node node).key "frozen") (.float (if frozen then at_ else 0))
      pure () : Mutation Unit) s

/-- Stamps a blob with the time of a round and the number of running
actions. -/
def stamp (node : String) (running : Nat) (at_ : Float) : Mutation Unit := do
  let _ ← Store.set ((Layout.node node).key "stats")
    (.map [("procs", .ofNat running), ("tick", .float at_)])
  let _ ← Store.set ((Layout.node node).key "updated") (.float at_)
  pure ()

end Node.Blob

end HaCluster
