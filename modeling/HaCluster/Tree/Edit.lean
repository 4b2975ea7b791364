import HaCluster.Tree.Value
import HaCluster.Tree.Path

/-!
# Reading and editing the tree

`lookup` finds the node at a path. `store` and `remove` change one node and
leave everything beside its path alone: they descend to the container that
holds the last step of the path, change that container, and rebuild the nodes
above it.

A failed edit says why. The path is cut off at the first step that leads
nowhere or into a value of the wrong kind.
-/

namespace HaCluster

/-- Why a node of the tree could not be read or changed. -/
inductive DataError where
  /-- Nothing is stored at the path. -/
  | notFound (path : Path)
  /-- The node above the path does not exist. -/
  | noParent (path : Path)
  /-- The value at the path is of the wrong kind. -/
  | wrongKind (path : Path) (expected found : String)
  deriving DecidableEq, Inhabited

namespace DataError

/-- The wording of an error. -/
def message : DataError → String
  | .notFound p => "no data at " ++ p.text
  | .noParent p => "parent of " ++ p.text ++ " does not exist"
  | .wrongKind p expected found =>
    p.text ++ " is a " ++ found ++ ", expected a " ++ expected

/-- Whether the error says that nothing is stored at the path. -/
def isNotFound : DataError → Bool
  | .notFound _ => true
  | _ => false

end DataError

namespace Value

/-- The node one step below a value. -/
def step? : Value → Segment → Option Value
  | .map m, .key k => Entries.get? m k
  | .list l, .index i => l[i]?
  | _, _ => none

/-- The node at a path. -/
def lookup (v : Value) : Path → Option Value
  | [] => some v
  | s :: rest => (v.step? s).bind (fun child => child.lookup rest)

/-- Replaces the node one step below a value. A step that the value does not
have is left alone. -/
def putStep : Value → Segment → Value → Value
  | .map m, .key k, child => .map (Entries.insert m k child)
  | .list l, .index i, child => .list (l.set i child)
  | v, _, _ => v

/-- Whether a step leads into this kind of value. -/
def accepts : Value → Segment → Bool
  | .map _, .key _ => true
  | .list _, .index _ => true
  | _, _ => false

/-- Changes the node at a path with a function that may fail. The first
argument is the path from the root to the value given. -/
def editAt {α : Type} (f : Value → Except DataError (α × Value))
    (visited : Path) : Path → Value → Except DataError (α × Value)
  | [], v => f v
  | s :: rest, v =>
    match v.step? s with
    | some child => do
      let (a, child') ← editAt f (visited.child s) rest child
      pure (a, v.putStep s child')
    | none =>
      if v.accepts s then .error (.notFound (visited.child s))
      else .error (.wrongKind (visited.child s) s.container v.kind)

/-- Puts a value into a container. A list takes a new item at any of its
indices and directly after its last one. -/
def place (path : Path) (container : Value) (last : Segment) (v : Value) :
    Except DataError Value :=
  match container, last with
  | .map m, .key k => .ok (.map (Entries.insert m k v))
  | .list l, .index i =>
    if i < l.length then .ok (.list (l.set i v))
    else if i = l.length then .ok (.list (l ++ [v]))
    else .error (.noParent path)
  | other, s => .error (.wrongKind path.dropLast s.container other.kind)

/-- Takes a value out of a container. The items after it move up. -/
def take (path : Path) (container : Value) (last : Segment) :
    Except DataError (Value × Value) :=
  match container, last with
  | .map m, .key k =>
    match Entries.get? m k with
    | some old => .ok (old, .map (Entries.erase m k))
    | none => .error (.notFound path)
  | .list l, .index i =>
    match l[i]? with
    | some old => .ok (old, .list (l.eraseIdx i))
    | none => .error (.notFound path)
  | other, s => .error (.wrongKind path.dropLast s.container other.kind)

/-- Stores a value at a path. The node above it has to exist. -/
def store (v : Value) (path : Path) (x : Value) : Except DataError Value :=
  match path.getLast? with
  | none => .ok x
  | some last =>
    match editAt (fun c => (place path c last x).map ((), ·)) [] path.dropLast v with
    | .ok (_, v') => .ok v'
    | .error (.notFound _) => .error (.noParent path)
    | .error e => .error e

/-- Removes the node at a path: the node, and the tree without it. Removing
the root leaves `null`. -/
def remove (v : Value) (path : Path) : Except DataError (Value × Value) :=
  match path.getLast? with
  | none => .ok (v, .null)
  | some last =>
    match editAt (fun c => take path c last) [] path.dropLast v with
    | .ok r => .ok r
    | .error (.notFound _) => .error (.notFound path)
    | .error e => .error e

/-- The tree without the nodes at the given paths; paths that lead nowhere
are passed over. -/
def prune (v : Value) (excludes : List Path) : Value :=
  excludes.foldl (fun t ex => match t.remove ex with
    | .ok (_, t') => t'
    | .error _ => t) v

end Value

end HaCluster
