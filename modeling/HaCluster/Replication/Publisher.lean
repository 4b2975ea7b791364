import HaCluster.Replication.Message
import HaCluster.Store.Basic

/-!
# Publishing changes

A publisher cuts what the journal has queued into numbered patches. A full
message for one peer cuts the queue as well, since it contains those changes;
the patch cut for it waits for the next broadcast, so the other peers see no
gap.
-/

namespace HaCluster

/-- The state of a publisher. -/
structure Publisher where
  /-- The number of the last patch that was cut. -/
  lastId : Nat
  /-- Patches that were cut and not broadcast yet, oldest first. -/
  unsent : List Message
  deriving Inhabited

namespace Publisher

/-- A publisher that has cut nothing yet. -/
def new : Publisher := ⟨0, []⟩

/-- Cuts changes into a patch with the next number; no changes make no
patch. -/
def cut (p : Publisher) (changes : List Fragment) (now : Float) :
    List Message × Publisher :=
  if changes.isEmpty then ([], p)
  else
    let id := p.lastId + 1
    ([⟨id, now, .patch changes⟩], { p with lastId := id })

/-- Every patch to broadcast, oldest first. -/
def nextPatches (p : Publisher) (s : Store) (now : Float) :
    List Message × Publisher × Store :=
  let (changes, s) := s.popJournal
  let (patches, p') := p.cut changes now
  (p.unsent ++ patches, { p' with unsent := [] }, s)

/-- A full message for a peer that has to be brought into step. -/
def full (p : Publisher) (s : Store) (now : Float) : Message × Publisher × Store :=
  let (changes, s) := s.popJournal
  let (patches, p) := p.cut changes now
  (⟨p.lastId, now, .full (s.journalHead.getD Value.empty)⟩,
    { p with unsent := p.unsent ++ patches }, s)

end Publisher

end HaCluster
