import HaCluster.Power
import HaCluster.Tree.Diff
import HaCluster.Decode.Record

/-!
# Paths and fragments as documents

A path is the sequence of its steps, so that names with dots in them are
safe. A fragment is the sequence of its path and its value; one that removes
a node has only the path, which keeps it apart from storing `null`.
-/

namespace HaCluster

namespace Segment

/-- The document for a step. -/
def toJson : Segment → Json
  | .index i => Json.nat i
  | .key k => .string k

/-- Reads a step: a natural number of 64 bits or a text. -/
def decode : Decoder Segment
  | _, .string s => .ok (.key s)
  | _, .number (.integer n) =>
    if 0 ≤ n ∧ n < twoTo 64 then .ok (.index n.toNat) else .error (.noForm "Segment")
  | _, j => if j.isWhole then .error (.noForm "Segment") else .error .malformed

end Segment

namespace Path

/-- The document for a path. -/
def toJson (p : Path) : Json :=
  .array (p.map Segment.toJson)

/-- Reads a path. -/
def decode : Decoder Path :=
  Decode.list Segment.decode

end Path

namespace Fragment

/-- The document for a fragment. -/
def toJson (f : Fragment) : Json :=
  .array (f.path.toJson :: (f.value.map Value.toJson).toList)

/-- How messages describe a fragment. -/
def form : String := "a [path] or [path, value] sequence"

/-- Reads a fragment. -/
def decode : Decoder Fragment
  | _, .array [] => .error (.invalidLength 0 form)
  | o, .array [p] => do
    let path ← Path.decode o p
    pure ⟨path, none⟩
  | o, .array (p :: v :: rest) => do
    let path ← Path.decode o p
    let value ← Decode.value o v
    match rest with
    | [] => pure ⟨path, some value⟩
    | extra :: _ =>
      if extra.isUncut then .error (.invalidLength 3 form) else .error .malformed
  | _, j => Decode.wrongType j form

end Fragment

end HaCluster
