import HaCluster.Tree.Edit

/-!
# Differences between trees

A fragment says what is now stored at one path: a value, or nothing. `diff`
lists the fragments that lead from one tree to another, `apply` replays one.

Mappings are compared key by key: first the keys that went away, then the new
keys in order. Lists are compared index by index: first the indices that both
have, then the appended items, and at last the dropped items from the tail
down, so that no removal moves an item that a later fragment names. Any other
change is one fragment for the whole node.
-/

namespace HaCluster

/-- The value now stored at a path, or `none` if the node was removed. -/
structure Fragment where
  path : Path
  value : Option Value
  deriving Inhabited

namespace Fragment

/-- The node at the path was set. -/
def set (path : Path) (v : Value) : Fragment := ⟨path, some v⟩

/-- The node at the path was removed. -/
def unset (path : Path) : Fragment := ⟨path, none⟩

/-- The same change, seen from further up. -/
def rebase (base : Path) (f : Fragment) : Fragment :=
  { f with path := base ++ f.path }

instance : BEq Fragment :=
  ⟨fun a b => a.path == b.path && a.value == b.value⟩

end Fragment

namespace Value

mutual

/-- The fragments that lead from `old` to `new` at a path. -/
def changes (path : Path) (old new : Value) : List Fragment :=
  match new with
  | .map n =>
    match old with
    | .map o =>
      (o.filter (fun e => !Entries.contains n e.1)).map
          (fun e => Fragment.unset (path.key e.1))
        ++ changesOfEntries path o n
    | _ => [Fragment.set path (.map n)]
  | .list n =>
    match old with
    | .list o =>
      changesOfItems path 0 o n
        ++ ((List.range o.length).drop n.length).reverse.map
            (fun i => Fragment.unset (path.child (.index i)))
    | _ => [Fragment.set path (.list n)]
  | scalar => if old == scalar then [] else [Fragment.set path scalar]

/-- The fragments for the keys that the new mapping has. -/
def changesOfEntries (path : Path) (old : List (String × Value)) :
    List (String × Value) → List Fragment
  | [] => []
  | (k, v) :: rest =>
    (match Entries.get? old k with
      | some o => changes (path.key k) o v
      | none => [Fragment.set (path.key k) v])
      ++ changesOfEntries path old rest

/-- The fragments for the indices that the new list has, from `i` on. -/
def changesOfItems (path : Path) (i : Nat) (old : List Value) :
    List Value → List Fragment
  | [] => []
  | v :: rest =>
    (match old with
      | o :: _ => changes (path.child (.index i)) o v
      | [] => [Fragment.set (path.child (.index i)) v])
      ++ changesOfItems path (i + 1) old.tail rest

end

end Value

/-- The fragments that lead from one node to another at a path; `none` stands
for no node. -/
def diff (path : Path) : Option Value → Option Value → List Fragment
  | none, none => []
  | some _, none => [Fragment.unset path]
  | none, some n => [Fragment.set path n]
  | some o, some n => Value.changes path o n

namespace Value

/-- Replays one fragment. Removing what is already absent succeeds. -/
def apply (v : Value) (f : Fragment) : Except DataError Value :=
  match f.value with
  | some x => v.store f.path x
  | none =>
    match v.remove f.path with
    | .ok (_, v') => .ok v'
    | .error (.notFound _) => .ok v
    | .error e => .error e

/-- Replays fragments in order, up to the first that fails. -/
def replay (v : Value) (fs : List Fragment) : Except DataError Value :=
  fs.foldlM apply v

end Value

end HaCluster
