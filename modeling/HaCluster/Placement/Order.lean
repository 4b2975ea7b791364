import HaCluster.Placement.Hash
import HaCluster.Service.Config

/-!
# Placement

The nodes of a service's scope stand in an order that every node computes
alike from the path of the service and the scope, so the first eligible one
is a leader that all agree on without exchanging a message.
-/

namespace HaCluster.Placement

open Service (Policy)

/-- Whether a node comes before another one, or is it, in the order of a
service's own: by hash, and by name where the hashes are the same. -/
def precedes (path a b : String) : Bool :=
  let x := hashPair path a
  let y := hashPair path b
  x < y || (x == y && decide (a ≤ b))

/-- The nodes of a scope in placement order, each once. -/
def ordered (policy : Policy) (path : String) (scope : List String) : List String :=
  match policy with
  | .nodesOrder => scope.eraseDups
  | .spread => scope.eraseDups.mergeSort (precedes path)

/-- The eligible nodes in placement order. -/
def ranked (policy : Policy) (path : String) (scope : List String)
    (eligible : String → Bool) : List String :=
  (ordered policy path scope).filter eligible

/-- The one node that may act on a failover service. -/
def leader (policy : Policy) (path : String) (scope : List String)
    (eligible : String → Bool) : Option String :=
  (ordered policy path scope).find? eligible

end HaCluster.Placement
