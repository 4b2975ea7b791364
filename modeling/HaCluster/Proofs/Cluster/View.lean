import HaCluster.Cluster.View
import HaCluster.Proofs.Tree.Entries

/-!
# What two nodes see of one snapshot

Two nodes that build their views from the same snapshot still do not see the
same cluster: each trusts its own blob whatever its age, counts itself among
the nodes that beat, and has its own list of peers that went out of step. If
every node that beats is fresh and in step, none of this makes a difference:
then a view shows the data of the nodes that beat, and of no other, whoever
looks.
-/

namespace HaCluster.View

/-- What the views of several nodes are built from. -/
structure Basis where
  snapshot : Value
  /-- The time of the picture, in seconds. -/
  now : Float
  /-- The nodes that beat. -/
  live : List String
  /-- The nodes that the configuration names. -/
  declared : List String
  staleAfter : Span

namespace Basis

variable {b : Basis} {viewer node : String} {desynced : List String}

/-- The view of a node that holds some peers to be out of step. -/
def view (b : Basis) (viewer : String) (desynced : List String) : View :=
  (build viewer b.now b.snapshot b.live b.declared b.staleAfter).withDesynced desynced

/-- What a node published. -/
def data? (b : Basis) (node : String) : Option Node.Data :=
  (Entries.get? (blobs b.snapshot) node).map Node.Data.ofValue

/-- A node published a blob that is not too old. -/
def Fresh (b : Basis) (node : String) : Prop :=
  ∃ d, b.data? node = some d ∧ ¬ b.staleAfter.toSeconds < b.now - d.updated

theorem node?_view (b : Basis) (viewer node : String) (desynced : List String) :
    (b.view viewer desynced).node? node = b.data? node :=
  Entries.get?_mapValues _ _ _

/-- A node that beats, is fresh and in step is shown as it published itself. -/
theorem trusted?_view (live : node ∈ b.live) (fresh : b.Fresh node)
    (synced : node ∉ desynced) :
    (b.view viewer desynced).trusted? node = b.data? node := by
  obtain ⟨d, data, age⟩ := fresh
  have alive : (b.view viewer desynced).isAlive node = true :=
    List.contains_iff_mem.mpr (List.mem_cons_of_mem _ live)
  have stale : (b.view viewer desynced).isStale node = false := by
    have outside : (b.view viewer desynced).desynced.contains node = false := by
      simp [view, withDesynced, synced]
    unfold isStale
    rw [outside, node?_view, data]
    -- its own blob a viewer trusts at any age
    split
    · rfl
    · exact decide_eq_false age
  unfold trusted?
  rw [alive, stale, node?_view]
  rfl

/-- A node that does not beat is not shown, except to itself. -/
theorem trusted?_view_of_notMem (dead : node ∉ b.live) (other : node ≠ viewer) :
    (b.view viewer desynced).trusted? node = none := by
  have alive : (b.view viewer desynced).isAlive node = false := by
    rw [isAlive, ← Bool.not_eq_true, List.contains_iff_mem]
    exact List.not_mem_cons_of_ne_of_not_mem other dead
  unfold trusted?
  rw [alive]
  rfl

/-- **All live nodes see the same data** if each of them is fresh, and in step
for both of two viewers. -/
theorem trusted?_agree (fresh : ∀ n ∈ b.live, b.Fresh n) {viewer' : String}
    {desynced' : List String} (live : viewer ∈ b.live) (live' : viewer' ∈ b.live)
    (synced : ∀ n ∈ b.live, n ∉ desynced) (synced' : ∀ n ∈ b.live, n ∉ desynced')
    (node : String) :
    (b.view viewer desynced).trusted? node = (b.view viewer' desynced').trusted? node := by
  by_cases h : node ∈ b.live
  · rw [trusted?_view h (fresh node h) (synced node h),
      trusted?_view h (fresh node h) (synced' node h)]
  · rw [trusted?_view_of_notMem h (fun e => h (e ▸ live)),
      trusted?_view_of_notMem h (fun e => h (e ▸ live'))]

end Basis

end HaCluster.View
