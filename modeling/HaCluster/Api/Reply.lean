import HaCluster.Cluster.Summary
import HaCluster.Daemon.State
import HaCluster.Api.Request
import HaCluster.Text.Blank

/-!
# Serving requests

A daemon answers every request with a document: the data asked for, or the
reason why the request was refused. Requests come one a line, and lines of
blanks are passed over.
-/

namespace HaCluster

namespace Receipt

instance : Named Receipt where
  all := [.applied, .duplicate, .needResync]
  name
    | .applied => "applied"
    | .duplicate => "duplicate"
    | .needResync => "need_resync"

end Receipt

namespace Daemon

/-- A step that cannot fail. -/
def always {α : Type} (f : Daemon → α × Daemon) : Step Refusal α := fun d =>
  let (x, d) := f d
  .ok x d

/-- Whether something changed, as a reply says it. -/
def changed (b : Bool) : Value := .map [("changed", .bool b)]

/-- Serves one request. -/
def serve (now : Moment) : Request → Step Refusal Value
  | .setNode u => do pure (changed (← setNodeMonitor u now.wall))
  | .setInstance service u => do pure (changed (← setInstanceMonitor service u now.wall))
  | .postStatus service status => fun d =>
    match postStatus service status d with
    | .ok () d => .ok .null d
    | .error e d => .error (.data e) d
  | .postConfig service (some config) => do
    postConfig service config
    pure .null
  | .postConfig service none => do
    removeService service
    pure .null
  | .peerMessage peer m => do
    let receipt ← always (fun d => d.receive peer m)
    pure (.map [("outcome", Named.toValue receipt)])
  | .fullSync => always fun d =>
    -- what the full message cut from the journal goes out in the next round
    let (m, d) := d.fullMessage now.wall
    (Value.ofJson m.toJson, d.wake)
  | .clusterStatus => always fun d => (d.store.data, d)
  | .summary => always fun d =>
    let (v, d) := d.view now
    (.ofStrings v.summary, d)
  | .stop => do
    stop now.wall
    pure .null

end Daemon

/-- The answer to a line that was read as a request. -/
inductive Reply where
  | done (data : Value)
  | refused (why : Daemon.Refusal)
  /-- The line is no request. -/
  | unreadable (e : DecodeError)
  deriving Inhabited

namespace Reply

/-- The document for a failure. -/
def failure (error : Json) : Json := .object [("error", error), ("status", .int 1)]

/-- The document for a reply. -/
def toJson : Reply → Json
  | .done data => .object [("data", data.toJson), ("status", .int 0)]
  | .refused why => failure (.string why.message)
  | .unreadable e => failure (.string ("bad request: " ++ e.message))

end Reply

namespace Daemon

/-- Answers the text of a request. -/
def answer (d : Daemon) (now : Moment) (body : String) : Reply × Daemon :=
  match Decode.ofText Request.decode body with
  | .error e => (.unreadable e, d)
  | .ok r =>
    match serve now r d with
    | .ok data d => (.done data, d)
    | .error why d => (.refused why, d)

/-- The lines of a text that hold more than blanks. -/
def requestLines (input : String) : List String :=
  ((input.toList.splitOn '\n').map Text.trim).filterMap
    (fun l => if l.isEmpty then none else some (String.ofList l))

/-- Answers the requests of a text, one a line, in order. -/
def answerLines (d : Daemon) (now : Moment) (input : String) : List Reply × Daemon :=
  (requestLines input).foldl
    (fun acc line =>
      let (reply, d) := acc.2.answer now line
      (acc.1 ++ [reply], d)) ([], d)

end Daemon

end HaCluster
