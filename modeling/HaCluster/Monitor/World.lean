import HaCluster.Service.Action
import HaCluster.Status.Reading

/-!
# The world around a monitor

What a monitor needs of the machine it runs on: it starts the processes of
actions and asks whether they have ended, it reads statuses, and it keeps the
file that freezes the node. Nothing is assumed of how a world answers: actions
may fail, hang or not start at all.
-/

namespace HaCluster

/-- A type whose values are worlds. Processes are known by their numbers. -/
class World (W : Type) where
  /-- Starts the process of an action; no number if it cannot be started. -/
  launch : Action → W → Option Nat × W
  /-- The exit code of a process, once it has ended. -/
  poll : Nat → W → Option Int × W
  /-- Asks a process to end. -/
  terminate : Nat → W → W
  /-- Ends a process. -/
  kill : Nat → W → W
  /-- The status that drivers report of a service. -/
  readStatus : W → String → Reading
  /-- The text of a file. -/
  readFile : W → String → Option String
  /-- Whether a file exists. -/
  fileExists : W → String → Bool
  /-- Makes a file, or removes it. -/
  setFile : String → Bool → W → W

end HaCluster
