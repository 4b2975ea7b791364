import HaCluster.Cluster.View

/-!
# Summaries

A summary has a line for each instance that can be seen, and one for each
node that cannot.
-/

namespace HaCluster

namespace Service.Instance

/-- Why an instance is not well: the last words of the first resource that
does not run and said something. -/
def failureCause? (i : Instance) : Option String :=
  i.resources.findSome? (fun (rid, r) =>
    if r.status.isRunning then none
    else r.log.getLast?.map (fun line => "(" ++ rid ++ ": " ++ line ++ ")"))

end Service.Instance

namespace View

/-- The line about an instance. -/
def instanceLine (node path : String) (i : Service.Instance) : String :=
  let line := path ++ "@" ++ node ++ ": " ++ Named.name i.monitor.state
  if i.monitor.state.isFailed || i.avail = .down then
    match i.failureCause? with
    | some cause => line ++ " " ++ cause
    | none => line
  else line

/-- The lines about the whole cluster. -/
def summary (v : View) : List String :=
  v.clusterNodes.flatMap (fun node =>
    match v.trusted? node with
    | none => [node ++ ": no data"]
    | some d => d.instances.map (fun e => instanceLine node e.1 e.2))

end View

end HaCluster
