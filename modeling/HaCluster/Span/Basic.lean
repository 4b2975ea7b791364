/-!
# Spans of time

A span is a number of nanoseconds. Decisions compare times in seconds as
floating-point numbers, so a span has a value in seconds too: the whole
seconds plus the rest as a fraction.
-/

namespace HaCluster

/-- A span of time. -/
structure Span where
  nanos : Nat
  deriving DecidableEq, Inhabited

namespace Span

/-- A span of whole seconds. -/
def seconds (n : Nat) : Span := ⟨n * 1000000000⟩

/-- A span of whole milliseconds. -/
def millis (n : Nat) : Span := ⟨n * 1000000⟩

/-- The span in seconds. -/
def toSeconds (d : Span) : Float :=
  Float.ofNat (d.nanos / 1000000000) + Float.ofNat (d.nanos % 1000000000) / 1000000000

/-- The whole milliseconds of a span. -/
def toMillis (d : Span) : Nat := d.nanos / 1000000

end Span

end HaCluster
