/-!
# Paths into the shared tree

A path is the list of steps from the root to a node; the empty path is the
root itself. A step is a key of a mapping or an index into a list, and the
two stay apart even where they are written alike: the index `0` is not the
key `"0"`.
-/

namespace HaCluster

/-- One step of a path. -/
inductive Segment where
  | index (i : Nat)
  | key (k : String)
  deriving DecidableEq, Inhabited

namespace Segment

/-- The text of a step. -/
def text : Segment → String
  | .index i => toString i
  | .key k => k

/-- The kind of value that a step leads into. -/
def container : Segment → String
  | .index _ => "list"
  | .key _ => "map"

/-- The order of steps: every index comes before every key. -/
def cmp : Segment → Segment → Ordering
  | .index i, .index j => compare i j
  | .index _, .key _ => .lt
  | .key _, .index _ => .gt
  | .key a, .key b => compare a b

end Segment

/-- The address of a node of the tree. -/
abbrev Path := List Segment

namespace Path

/-- The address of the whole tree. -/
def root : Path := []

/-- The path that steps through the given keys. -/
def ofKeys (ks : List String) : Path := ks.map Segment.key

/-- The path one step further down. -/
def child (p : Path) (s : Segment) : Path := p ++ [s]

/-- The path one key further down. -/
def key (p : Path) (k : String) : Path := p.child (.key k)

/-- The path without its last step; the root has no parent. -/
def parent? (p : Path) : Option Path :=
  if p.isEmpty then none else some p.dropLast

/-- Whether `base` is the path itself or lies above it. -/
def startsWith (p base : Path) : Bool :=
  base.isPrefixOf p

/-- What is left of a path below `base`, if it lies there. -/
def below? (p base : Path) : Option Path :=
  if p.startsWith base then some (p.drop base.length) else none

/-- The text of a path: its steps, separated by dots. -/
def text (p : Path) : String :=
  if p.isEmpty then "<root>" else ".".intercalate (p.map Segment.text)

/-- The order of paths: step by step, a shorter path before its
continuations. -/
def cmp : Path → Path → Ordering
  | [], [] => .eq
  | [], _ :: _ => .lt
  | _ :: _, [] => .gt
  | a :: as, b :: bs => (Segment.cmp a b).then (cmp as bs)

/-- Below a prefix lies exactly what follows it. -/
theorem below?_append (base rest : Path) :
    below? (base ++ rest) base = some rest := by
  simp [below?, startsWith]

/-- A path below `base` is `base` followed by the rest. -/
theorem below?_eq_some_iff {p base rest : Path} :
    below? p base = some rest ↔ p = base ++ rest := by
  constructor
  · intro h
    unfold below? at h
    split at h
    · rename_i pre
      obtain ⟨t, rfl⟩ := List.isPrefixOf_iff_prefix.1 pre
      simpa using h
    · simp at h
  · rintro rfl
    exact below?_append base rest

end Path

end HaCluster
