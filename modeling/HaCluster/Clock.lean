import HaCluster.Span.Basic

/-!
# Moments

A daemon reads two clocks. The wall clock stamps what it publishes, in
seconds since the epoch; the steady clock, which nobody sets, dates
heartbeats, in milliseconds.
-/

namespace HaCluster

/-- What the clocks show at one moment. -/
structure Moment where
  /-- The wall clock, in seconds. -/
  wall : Float
  /-- The steady clock, in milliseconds. -/
  steady : Int
  deriving Inhabited

namespace Moment

/-- The moment at which both clocks show so many milliseconds. -/
def ofMillis (n : Nat) : Moment := ⟨(Span.millis n).toSeconds, n⟩

end Moment

end HaCluster
