/-!
# Values derived from the settings

A value that is derived from the settings is computed again only when the
generation of the settings has changed.
-/

namespace HaCluster.Daemon

/-- The derived value of one generation, if any was computed. -/
abbrev Derived (α : Type) := Option (Nat × α)

namespace Derived

variable {α : Type}

/-- Whether the value of a generation has to be computed. -/
def isOutdated (d : Derived α) (generation : Nat) : Bool :=
  match d with
  | some (g, _) => g ≠ generation
  | none => true

/-- The value of a generation, and what is kept of it. -/
def get (d : Derived α) (generation : Nat) (compute : Unit → α) : α × Derived α :=
  match d with
  | some (g, x) =>
    if g = generation then (x, d)
    else
      let y := compute ()
      (y, some (generation, y))
  | none =>
    let y := compute ()
    (y, some (generation, y))

end Derived

end HaCluster.Daemon
