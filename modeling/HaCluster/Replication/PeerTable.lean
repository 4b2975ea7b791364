import HaCluster.Cluster.Layout
import HaCluster.Replication.Message
import HaCluster.Store.Basic

/-!
# Following peers

A node keeps a copy of the blob of every peer and follows it patch by patch.
It trusts a copy as long as every patch came in turn and could be replayed;
after a gap or a failed patch it refuses patches until a full message
replaces the copy.
-/

namespace HaCluster

/-- How far a copy is trusted. -/
inductive Trust where
  /-- Every patch up to this number is in the copy. -/
  | inSync (id : Nat)
  | untrusted
  deriving DecidableEq, Inhabited

/-- What became of a message. -/
inductive Receipt where
  | applied
  /-- The patch was in the copy already. -/
  | duplicate
  /-- Only a full message of the sender can help. -/
  | needResync
  deriving DecidableEq, Inhabited

/-- The peers that were ever heard of, with the trust in their copies. -/
abbrev PeerTable := Entries Trust

namespace PeerTable

/-- The trust in the copy of a peer; of one never heard of it is none. -/
def trust (t : PeerTable) (peer : String) : Trust :=
  (Entries.get? t peer).getD .untrusted

/-- Whether patches of a peer are being applied. -/
def isTrusted (t : PeerTable) (peer : String) : Bool :=
  t.trust peer ≠ .untrusted

/-- The peers whose copy went out of step, in order. -/
def desynced (t : PeerTable) : List String :=
  (t.filter (fun e => e.2 = .untrusted)).map Prod.fst

/-- Replaces the copy of a peer as a whole. -/
def storeCopy (peer : String) (blob : Value) : Mutation Unit := do
  let _ ← Store.setIfAbsent Layout.nodes Value.empty
  let _ ← Store.set (Layout.node peer) blob
  pure ()

/-- Takes a message of a peer in. -/
def receive (t : PeerTable) (s : Store) (peer : String) (m : Message) :
    Receipt × PeerTable × Store :=
  match m.payload, t.trust peer with
  | .full blob, _ =>
    match storeCopy peer blob s with
    | .ok () s => (.applied, Entries.insert t peer (.inSync m.id), s)
    | .error _ s => (.needResync, Entries.insert t peer .untrusted, s)
  | .patch _, .untrusted => (.needResync, t, s)
  | .patch changes, .inSync last =>
    if m.id ≤ last then (.duplicate, t, s)
    else if m.id ≠ last + 1 then (.needResync, Entries.insert t peer .untrusted, s)
    else
      match s.patch (Layout.node peer) changes with
      | (none, s) => (.applied, Entries.insert t peer (.inSync m.id), s)
      | (some _, s) => (.needResync, Entries.insert t peer .untrusted, s)

/-- Forgets a peer that is down, and its copy. -/
def purge (t : PeerTable) (s : Store) (peer : String) :
    Except DataError Unit × PeerTable × Store :=
  let t := Entries.erase t peer
  match Store.unsetIfPresent (Layout.node peer) s with
  | .ok _ s => (.ok (), t, s)
  | .error e s => (.error e, t, s)

end PeerTable

end HaCluster
