import HaCluster.Cluster.View

/-!
# Parents

A service may wait for others to be up. A parent that cannot be seen well
enough to tell is unknown, which holds the service back just like a parent
that is known to be down.
-/

namespace HaCluster

/-- How a parent stands. The texts say why it is not satisfied. -/
inductive ParentState where
  | satisfied
  | unmet (reason : String)
  | unknown (reason : String)
  deriving DecidableEq, Inhabited

namespace View

/-- How many instances a parent needs: one, or as many as a flex service
asks for. -/
def needed (c : Service.Config) : Nat :=
  match c.topology with
  | .failover => 1
  | .flex => max c.flexMin 1

/-- How the parent that a reference names stands. -/
def parentState (v : View) (parent : String) : ParentState :=
  match Service.ParentRef.ofText parent with
  | .pinned path node =>
    match v.avail node path with
    | .up => .satisfied
    | .unknown => .unknown (parent ++ " has no data")
    | a => .unmet (parent ++ " is " ++ Named.name a)
  | .anywhere path =>
    match v.serviceConfig? path with
    | none => .unknown (parent ++ " is not configured on any live node")
    | some c =>
      let avails := c.scope.map (fun n => v.avail n path)
      let up := avails.count .up
      let share := toString up ++ "/" ++ toString (needed c) ++ " up instances"
      if needed c ≤ up then .satisfied
      else if avails.contains .unknown then
        .unknown (parent ++ " has " ++ share ++ ", some unknown")
      else .unmet (parent ++ " has " ++ share)

/-- How the first parent that is not satisfied stands. -/
def parentsState (v : View) (parents : List String) : ParentState :=
  ((parents.map v.parentState).find? (· ≠ .satisfied)).getD .satisfied

end View

end HaCluster
