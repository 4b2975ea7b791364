import HaCluster.Proofs.Placement.Hash

/-!
# The placement order

The order holds every node of the scope once, so the leader is determined by
what stands before it: a node leads exactly if it is eligible and no eligible
node comes first (`leader_eq_some_iff`).
-/

namespace HaCluster.Placement

open Service (Policy)

/-- No node stands in the order twice. -/
theorem nodup_ordered (policy : Policy) (path : String) (scope : List String) :
    (ordered policy path scope).Nodup := by
  rw [ordered_eq]
  exact nodup_orderedBy

/-- An eligible node keeps every node after it from leading. -/
theorem leader_ne_of_earlier {policy : Policy} {path : String} {scope : List String}
    {eligible : String → Bool} {n m : String} {before after : List String}
    (order : ordered policy path scope = before ++ n :: after) (earlier : m ∈ before)
    (first : eligible m) : leader policy path scope eligible ≠ some n := by
  intro leads
  have once : (before ++ n :: after).Nodup := order ▸ nodup_ordered policy path scope
  obtain ⟨l, found⟩ : ∃ l, before.find? eligible = some l :=
    Option.isSome_iff_exists.mp (List.find?_isSome.mpr ⟨m, earlier, first⟩)
  rw [leader, order, List.find?_append, found] at leads
  obtain rfl : l = n := Option.some.inj leads
  exact (List.nodup_append.mp once).2.2 l (List.mem_of_find?_eq_some found) l
    List.mem_cons_self rfl

theorem mem_ordered {policy : Policy} {path : String} {scope : List String} {n : String} :
    n ∈ ordered policy path scope ↔ n ∈ scope := by
  rw [ordered_eq]
  exact mem_orderedBy

/-- A node stands before another one in the order. -/
def Before (policy : Policy) (path : String) (scope : List String) (m n : String) : Prop :=
  ∃ before after, ordered policy path scope = before ++ n :: after ∧ m ∈ before

/-- **Who leads**: an eligible node of the scope before which no eligible one
stands. -/
theorem leader_eq_some_iff {policy : Policy} {path : String} {scope : List String}
    {eligible : String → Bool} {n : String} :
    leader policy path scope eligible = some n
      ↔ n ∈ scope ∧ eligible n ∧ ∀ m, Before policy path scope m n → eligible m = false := by
  constructor
  · intro leads
    refine ⟨mem_ordered.mp (List.mem_of_find?_eq_some leads), List.find?_some leads, ?_⟩
    rintro m ⟨before, after, order, earlier⟩
    rw [← Bool.not_eq_true]
    exact fun first => leader_ne_of_earlier order earlier first leads
  · rintro ⟨inScope, able, first⟩
    obtain ⟨before, after, order⟩ : ∃ before after, ordered policy path scope
        = before ++ n :: after := List.append_of_mem (mem_ordered.mpr inScope)
    have skipped : before.find? eligible = none := by
      rw [List.find?_eq_none]
      intro m earlier
      rw [first m ⟨before, after, order, earlier⟩]
      exact Bool.false_ne_true
    rw [leader, order, List.find?_append, skipped, Option.none_or, List.find?_cons_of_pos able]

end HaCluster.Placement
