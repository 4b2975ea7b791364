import HaCluster.Decode.Named

/-!
# Requested changes

A change of an optional field keeps it, clears it or sets it. In a request an
absent field is kept, `null` and the text `unset` clear it, and one of the
names of its type sets it.
-/

namespace HaCluster

/-- A change of an optional field. -/
inductive Change (α : Type) where
  | keep
  | set (x : α)
  | clear
  deriving DecidableEq, Inhabited

namespace Change

variable {α : Type}

/-- The field after the change. -/
def apply : Change α → Option α → Option α
  | .keep, current => current
  | .set x, _ => some x
  | .clear, _ => none

/-- Clears a field where it is set. -/
def clearIfSet : Option α → Change α
  | some _ => .clear
  | none => .keep

/-- Reads a change. -/
def decode [Named α] : Decoder (Change α) := fun _ j => do
  let j ← Decode.buffer .buffered j
  match (Named.decode : Decoder α) .buffered j with
  | .ok x => .ok (.set x)
  | .error _ =>
    match j with
    | .null => .ok .clear
    | .string "unset" => .ok .clear
    | .string s => .error (.unexpectedText s)
    | _ => .error (.noForm "Repr")

end Change

end HaCluster
