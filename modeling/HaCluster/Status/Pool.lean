import HaCluster.Status.Reading

/-!
# Refreshing statuses

Statuses are read by workers, so that a slow driver never holds the monitor
up: the monitor submits services and drains what has been read since. A
service is in the hands of the workers at most once until its result is
drained. A pool without workers reads at once.
-/

namespace HaCluster.Status

/-- The result of one refresh. -/
structure Refreshed where
  service : String
  /-- When the status was read, in seconds. -/
  readAt : Float
  reading : Reading
  deriving Inhabited

/-- A pool of workers that read statuses. -/
structure Pool where
  workers : Nat
  /-- The services in the hands of the workers, until drained. -/
  queued : List String
  /-- The services that no worker has taken yet, oldest first. -/
  waiting : List String
  /-- The services that workers are reading. -/
  inProgress : List String
  /-- The results that are ready, oldest first. -/
  results : List Refreshed
  deriving Inhabited

namespace Pool

/-- A pool that has nothing to do. -/
def new (workers : Nat) : Pool := ⟨workers, [], [], [], []⟩

/-- Submits a service. -/
def submit (p : Pool) (read : String → Reading) (now : Float) (service : String) : Pool :=
  if p.queued.contains service then p
  else if p.workers = 0 then
    { p with results := p.results ++ [⟨service, now, read service⟩] }
  else { p with queued := service :: p.queued, waiting := p.waiting ++ [service] }

/-- A free worker takes the oldest service that waits. -/
def take (p : Pool) : Pool :=
  match p.waiting with
  | service :: rest =>
    if p.inProgress.length < p.workers then
      { p with waiting := rest, inProgress := p.inProgress ++ [service] }
    else p
  | [] => p

/-- A worker is done with a service. -/
def finish (p : Pool) (r : Refreshed) : Pool :=
  if p.inProgress.contains r.service then
    { p with inProgress := p.inProgress.erase r.service, results := p.results ++ [r] }
  else p

/-- Takes every result that is ready, oldest first. -/
def drain (p : Pool) : List Refreshed × Pool :=
  (p.results,
    { p with
      queued := p.queued.filter (fun s => !p.results.any (fun r => r.service = s))
      results := [] })

/-- The workers go on until nothing is left to read. -/
def settle (p : Pool) (read : String → Reading) (now : Float) : Pool :=
  let done := p.inProgress ++ p.waiting
  { p with
    waiting := []
    inProgress := []
    results := p.results ++ done.map (fun s => ⟨s, now, read s⟩) }

end Pool

end HaCluster.Status
