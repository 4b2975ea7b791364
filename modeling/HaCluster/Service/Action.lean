import HaCluster.Cluster.Change
import HaCluster.Service.Instance

/-!
# Actions

An action is a command to run against a service instance. What becomes of the
instance's monitor record when the action ends is settled when it starts.
-/

namespace HaCluster

/-- What an action does. -/
inductive ActionKind where
  | start
  | stop
  | freeze
  | thaw
  | provision
  deriving DecidableEq, Inhabited

instance : Named ActionKind where
  all := [.start, .stop, .freeze, .thaw, .provision]
  name
    | .start => "start"
    | .stop => "stop"
    | .freeze => "freeze"
    | .thaw => "thaw"
    | .provision => "provision"

/-- A command to run against a service instance. -/
structure Action where
  path : String
  kind : ActionKind
  /-- The resources it is restricted to; none for the whole service. -/
  resources : List String
  deriving DecidableEq, Inhabited

/-- What becomes of a monitor record when an action ends. -/
structure Outcome where
  success : Service.State
  failure : Service.State
  /-- What a success makes of the local expectation. -/
  expect : Change Service.LocalExpect
  deriving DecidableEq, Inhabited

namespace ActionKind

/-- What an action of a kind leaves behind. -/
def outcome : ActionKind → Outcome
  | .start => ⟨.idle, .startFailed, .set .started⟩
  | .stop => ⟨.idle, .stopFailed, .clear⟩
  | .freeze => ⟨.idle, .freezeFailed, .keep⟩
  | .thaw => ⟨.idle, .thawFailed, .keep⟩
  | .provision => ⟨.idle, .provisionFailed, .keep⟩

end ActionKind

namespace Action

/-- An action on a whole service. -/
def whole (path : String) (kind : ActionKind) : Action := ⟨path, kind, []⟩

/-- An action on one resource. -/
def onResource (path : String) (kind : ActionKind) (resource : String) : Action :=
  ⟨path, kind, [resource]⟩

/-- The words that a command line passes after the command. -/
def arguments (a : Action) : List String :=
  [a.path, Named.name a.kind] ++ a.resources.flatMap (fun r => ["--rid", r])

/-- The text of an action. -/
def text (a : Action) : String :=
  " ".intercalate a.arguments

/-- Reads an action. -/
def decode : Decoder Action :=
  Decode.record "Action"
    [Field.required "path" Decode.string (fun x a => { a with path := x }),
     Field.required "kind" Named.decode (fun x a => { a with kind := x }),
     Field.required "rids" (Decode.list Decode.string) (fun x a => { a with resources := x })]
    default

/-- An action as a value of the tree. -/
def toValue (a : Action) : Value :=
  .map [("kind", Named.toValue a.kind), ("path", .str a.path), ("rids", .ofStrings a.resources)]

end Action

end HaCluster
