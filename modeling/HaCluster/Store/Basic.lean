import HaCluster.Tree.Diff

/-!
# The journaled store

A store is a tree together with a queue of the changes made to it. Every
local mutation computes its own difference; the part of it that lies under
the journal's head is queued for the peers, seen from the head, without the
excluded paths.

A mutation that fails leaves the store as it is. `merge` is a sequence of
mutations, of which those before a failure stay.
-/

namespace HaCluster

/-- Selects the part of the tree whose changes are queued. -/
structure Journal where
  /-- Changes under this path are queued, seen from it. -/
  head : Path
  /-- Paths below the head that change locally but are never queued. -/
  exclude : List Path
  deriving DecidableEq, Inhabited

namespace Journal

/-- Drops the excluded paths that lie under a value stored at `path`, which
is counted from the head. -/
def pruneBelow (j : Journal) (path : Path) (v : Value) : Value :=
  v.prune ((j.exclude.filterMap (fun ex => ex.below? path)).filter (fun p => !p.isEmpty))

/-- What is queued for one change: nothing outside the head or under an
excluded path; below the head the change itself; above the head what the
head has become. -/
def entry? (j : Journal) (f : Fragment) : Option Fragment :=
  match f.path.below? j.head with
  | some rel =>
    if j.exclude.any (fun ex => rel.startsWith ex) then none
    else some ⟨rel, f.value.map (j.pruneBelow rel)⟩
  | none =>
    match j.head.below? f.path with
    | some rest =>
      match f.value.bind (fun v => v.lookup rest) with
      | some v => some (Fragment.set Path.root (v.prune j.exclude))
      | none => some (Fragment.unset Path.root)
    | none => none

end Journal

/-- Fragments of a patch that could not be replayed. The others were. -/
structure PatchError where
  base : Path
  total : Nat
  failures : List (Fragment × DataError)
  deriving Inhabited

/-- The wording of a failed patch. -/
def PatchError.message (e : PatchError) : String :=
  toString e.failures.length ++ " of " ++ toString e.total
    ++ " patch fragments failed under " ++ e.base.text

/-- A tree and the changes queued for the peers, oldest first. -/
structure Store where
  data : Value
  journal : Option Journal
  queue : List Fragment
  deriving Inhabited

/-- A step that changes a store and may fail. What a failing step has
already changed stays changed. -/
abbrev Mutation (α : Type) := EStateM DataError Store α

namespace Store

/-- A store that holds a tree and has nothing queued. -/
def new (data : Value) (journal : Option Journal) : Store :=
  ⟨data, journal, []⟩

/-- The node at a path. -/
def get (s : Store) (path : Path) : Except DataError Value :=
  match s.data.lookup path with
  | some v => .ok v
  | none => .error (.notFound path)

/-- The node at a path, or a default where there is none. -/
def getD (s : Store) (path : Path) (default : Value) : Value :=
  (s.data.lookup path).getD default

/-- Whether there is a node at a path. -/
def has (s : Store) (path : Path) : Bool :=
  (s.data.lookup path).isSome

/-- Queues what the journal keeps of some changes. -/
def record (s : Store) (fs : List Fragment) : Store :=
  match s.journal with
  | none => s
  | some j => { s with queue := s.queue ++ fs.filterMap j.entry? }

/-- The content of the journal's head as a peer rebuilds it: without the
excluded paths. -/
def journalHead (s : Store) : Option Value :=
  s.journal.bind (fun j => (s.data.lookup j.head).map (fun v => v.prune j.exclude))

/-- Takes everything that is queued, oldest first. -/
def popJournal (s : Store) : List Fragment × Store :=
  (s.queue, { s with queue := [] })

/-- Stores a value at a path. -/
def set (path : Path) (v : Value) : Mutation (List Fragment) := fun s =>
  match s.data.store path v with
  | .error e => .error e s
  | .ok data =>
    let fs := diff path (s.data.lookup path) (some v)
    .ok fs ({ s with data }.record fs)

/-- Stores a value at a path where nothing is stored yet. -/
def setIfAbsent (path : Path) (v : Value) : Mutation (List Fragment) := fun s =>
  if s.has path then .ok [] s else set path v s

/-- Sets several keys of the mapping at a path one after the other; an empty
mapping is made first if there is none. -/
def merge (path : Path) (entries : Entries Value) : Mutation (List Fragment) := do
  let made ← setIfAbsent path Value.empty
  let sets ← entries.mapM (fun e => set (path.key e.1) e.2)
  pure (made ++ sets.flatten)

/-- Removes the node at a path. -/
def unset (path : Path) : Mutation (List Fragment) := fun s =>
  match s.data.remove path with
  | .error e => .error e s
  | .ok (old, data) =>
    let fs := diff path (some old) none
    .ok fs ({ s with data }.record fs)

/-- Removes the node at a path if there is one. -/
def unsetIfPresent (path : Path) : Mutation (List Fragment) := fun s =>
  match unset path s with
  | .error (.notFound _) s' => .ok [] s'
  | r => r

/-- Adds one to the integer at a path, which counts as zero where nothing is
stored. -/
def increment (path : Path) : Mutation Int64 := fun s =>
  match s.data.lookup path with
  | none => (do let _ ← set path (.int 1); pure 1 : Mutation Int64) s
  | some v =>
    match v.asInt? with
    | none => .error (.wrongKind path "int" v.kind) s
    | some i => (do let _ ← set path (.int (i + 1)); pure (i + 1) : Mutation Int64) s

/-- Replays changes made elsewhere, seen from `base`, without queueing them.
Every change is tried, also after one has failed. -/
def patch (s : Store) (base : Path) (fs : List Fragment) : Option PatchError × Store :=
  let step := fun (acc : List (Fragment × DataError) × Value) f =>
    match acc.2.apply (f.rebase base) with
    | .ok v => (acc.1, v)
    | .error e => (acc.1 ++ [(f, e)], acc.2)
  let (failures, data) := fs.foldl step ([], s.data)
  (if failures.isEmpty then none else some ⟨base, fs.length, failures⟩, { s with data })

end Store

end HaCluster
