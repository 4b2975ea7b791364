import HaCluster.Decode.Record
import HaCluster.Heartbeat.Interval
import HaCluster.Span.Text

/-!
# Heartbeats

Every transport reports the beats that it receives from a peer. A peer counts
as beating while at least one transport still hears it: the last beat is not
too long ago, and the next one is not yet overdue by the distribution of the
intervals.
-/

namespace HaCluster.Heartbeat

/-- How transports judge whether a peer beats. -/
structure Settings where
  /-- The probability that a beat is overdue from which a peer counts as
  silent. -/
  phi : Float
  /-- How many intervals are kept. -/
  capacity : Nat
  /-- The least standard deviation, so that one late beat of a very regular
  peer does no harm. -/
  minDeviation : Span
  /-- How long a peer may be silent in any case. -/
  timeout : Span
  deriving DecidableEq, Inhabited

namespace Settings

/-- The settings where nothing else is said. -/
def standard : Settings := ⟨0.995, 10, Span.millis 500, Span.seconds 15⟩

/-- Reads settings. -/
def decode : Decoder Settings :=
  Decode.record "HeartbeatConfig"
    [Field.withDefault "phi" Decode.float standard.phi (fun x s => { s with phi := x }),
     Field.withDefault "capacity" (Decode.natural 64 "usize") standard.capacity
       (fun x s => { s with capacity := x }),
     Field.withDefault "min_std_dev" Span.decode standard.minDeviation
       (fun x s => { s with minDeviation := x }),
     Field.withDefault "timeout" Span.decode standard.timeout
       (fun x s => { s with timeout := x })]
    standard

end Settings

/-- What one transport knows about one peer. -/
structure Link where
  transport : String
  peer : String
  /-- The beats received; nothing after the transport lost the peer. -/
  beats : Option Intervals
  deriving Inhabited

/-- What all transports know about all peers. Times are milliseconds. -/
structure Registry where
  settings : Settings
  links : List Link
  deriving Inhabited

namespace Registry

/-- A registry that has heard of nobody. -/
def new (settings : Settings) : Registry := ⟨settings, []⟩

/-- What a transport knows about a peer. -/
def link? (r : Registry) (transport peer : String) : Option Link :=
  r.links.find? (fun l => l.transport = transport && l.peer = peer)

/-- Replaces what a transport knows about a peer. -/
def put (r : Registry) (l : Link) : Registry :=
  { r with
    links := r.links.filter (fun k => !(k.transport = l.transport && k.peer = l.peer)) ++ [l] }

/-- Takes in a beat. The first one after a silence starts anew. -/
def beat (r : Registry) (transport peer : String) (at_ : Int) : Registry :=
  match (r.link? transport peer).bind Link.beats with
  | some s => r.put ⟨transport, peer, some (s.push at_)⟩
  | none => r.put ⟨transport, peer, some (.start r.settings.capacity at_)⟩

/-- Notes that a transport lost a peer. -/
def markDown (r : Registry) (transport peer : String) : Registry :=
  r.put ⟨transport, peer, none⟩

/-- Drops everything known about a peer. -/
def forget (r : Registry) (peer : String) : Registry :=
  { r with links := r.links.filter (fun l => l.peer ≠ peer) }

/-- Whether a transport still hears a peer. -/
def hears (settings : Settings) (s : Intervals) (at_ : Int) : Bool :=
  if settings.timeout.nanos < (at_ - s.latest).toNat * 1000000 then false
  else
    match s.suspicion? at_ settings.minDeviation with
    | some p => p < settings.phi
    | none => true

/-- The peers that beat at a time, in order. -/
def beating (r : Registry) (at_ : Int) : List String :=
  Entries.keySet ((r.links.filter (fun l => l.beats.any (fun s => hears r.settings s at_))).map
    Link.peer)

/-- Whether a peer beats at a time. -/
def isBeating (r : Registry) (peer : String) (at_ : Int) : Bool :=
  (r.beating at_).contains peer

end Registry

end HaCluster.Heartbeat
