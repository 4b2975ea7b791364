import HaCluster.Monitor.Round

/-!
# Running the monitor

The monitor announces the local blob, then goes from round to round until a
shutdown completes or a stop is requested. Between two rounds it sleeps unless
it is woken. On the way out it ends the actions that still run: it asks them
first and kills those that do not follow.

The clocks stand still during a run, and the number of rounds is bounded by
an argument.
-/

namespace HaCluster.Monitor

variable {W : Type} [World W]

/-- A round, and nothing to report if it fails. -/
def roundOrNothing (host : Daemon.Host) (now : Moment) (s : Monitor W) :
    Option Report × Monitor W :=
  match round host now now.wall s with
  | .ok r s => (some r, s)
  | .error _ s => (none, s)

/-- Rounds until a shutdown completes or a stop is requested: the patches to
broadcast on the way. After a request to stop there are no more rounds, since
the peers must see the node as the request left it. -/
def rounds (host : Daemon.Host) (now : Moment) : Nat → Monitor W → List Message × Monitor W
  | 0, s => ([], s)
  | n + 1, s =>
    if s.daemon.stopRequested then
      let (outgoing, d) := s.daemon.nextPatches now.wall
      (outgoing, { s with daemon := d })
    else
      let (report, s) := roundOrNothing host now s
      let outgoing := (report.map Report.outgoing).getD []
      if (report.map Report.exit).getD false then (outgoing, s)
      else
        let (rest, s) := rounds host now n { s with daemon := s.daemon.awaken.2 }
        (outgoing ++ rest, s)

/-- Asks every process to end, and kills those that have not ended after the
time they are given. -/
def endAll (processes : List Nat) (w : W) : W :=
  let asked := processes.foldl (fun w p => World.terminate p w) w
  processes.foldl (fun w p =>
    match World.poll p w with
    | (some _, w) => w
    | (none, w) => World.kill p w) asked

/-- Ends every action that runs. -/
def terminateActions (s : Monitor W) : Monitor W :=
  { s with
    world := endAll (s.running.map (fun e => e.2.process)) s.world
    running := [] }

/-- Runs the monitor to its end, for at most so many rounds: the messages to
broadcast, oldest first. -/
def run (host : Daemon.Host) (now : Moment) (limit : Nat) (s : Monitor W) :
    List Message × Monitor W :=
  let (announcement, d) := s.daemon.fullMessage now.wall
  let (patches, s) := rounds host now limit { s with daemon := d }
  (announcement :: patches, s.terminateActions)

end HaCluster.Monitor
