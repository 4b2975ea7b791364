import Mathlib.Data.List.Nodup
import HaCluster.Placement.Order

/-!
# Placement under any hash

The order of the nodes must come out alike on every node that computes it,
from scopes that may list the nodes in another order and more than once. What
the hash of a pair is plays no part in that: where two hashes collide the
names decide, so the order by hash and name is total whatever the hash. The
placement is therefore restated over an arbitrary hash, of which the cluster's
own is one (`ordered_eq`), and its laws are proved for all of them
(`placement_laws`).
-/

namespace HaCluster.Placement

open Service (Policy)

/-! ### Lists without their repetitions -/

/-- A list is rid of its repetitions from the front, each element taking its
later occurrences with it. -/
@[elab_as_elim]
theorem eraseDups_induction {motive : List String → Prop} (nil : motive [])
    (cons : ∀ a as, motive (as.filter fun b => !b == a) → motive (a :: as))
    (l : List String) : motive l := by
  induction h : l.length using Nat.strongRecOn generalizing l with
  | ind n ih =>
    subst h
    cases l with
    | nil => exact nil
    | cons a as =>
      exact cons a as (ih _ (Nat.lt_succ_of_le (List.length_filter_le _ _)) _ rfl)

theorem nodup_eraseDups (l : List String) : l.eraseDups.Nodup := by
  induction l using eraseDups_induction with
  | nil => exact List.nodup_nil
  | cons a as ih =>
    rw [List.eraseDups_cons, List.nodup_cons, List.mem_eraseDups]
    exact ⟨by simp, ih⟩

/-- What is filtered out takes nothing else with it. -/
theorem eraseDups_filter (p : String → Bool) (l : List String) :
    (l.filter p).eraseDups = l.eraseDups.filter p := by
  induction l using eraseDups_induction with
  | nil => rfl
  | cons a as ih =>
    rw [List.eraseDups_cons]
    by_cases kept : p a
    · rw [List.filter_cons_of_pos kept, List.filter_cons_of_pos kept, List.eraseDups_cons, ← ih,
        List.filter_comm]
    · rw [List.filter_cons_of_neg kept, List.filter_cons_of_neg kept, ← ih, List.filter_filter]
      -- an element that is kept is not `a`, which is not
      congr 1
      refine List.filter_congr fun b _ => ?_
      by_cases same : b = a
      · subst same
        simp [kept]
      · simp [same]

/-- Filtering does not move what is left. -/
theorem idxOf_lt_of_filter {p : String → Bool} {b c : String} (keptB : p b) (keptC : p c) :
    ∀ {l : List String}, (l.filter p).idxOf b < (l.filter p).idxOf c → l.idxOf b < l.idxOf c
  | [], before => before
  | a :: as, before => by
    by_cases isC : a = c
    · rw [isC, List.filter_cons_of_pos keptC, List.idxOf_cons_self] at before
      exact absurd before (Nat.not_lt_zero _)
    by_cases isB : a = b
    · rw [isB, List.idxOf_cons_self, List.idxOf_cons_ne _ (isB ▸ isC)]
      exact Nat.zero_lt_succ _
    rw [List.idxOf_cons_ne _ isB, List.idxOf_cons_ne _ isC]
    by_cases kept : p a
    · rw [List.filter_cons_of_pos kept, List.idxOf_cons_ne _ isB, List.idxOf_cons_ne _ isC]
        at before
      exact Nat.succ_lt_succ (idxOf_lt_of_filter keptB keptC (Nat.lt_of_succ_lt_succ before))
    · rw [List.filter_cons_of_neg kept] at before
      exact Nat.succ_lt_succ (idxOf_lt_of_filter keptB keptC before)

/-- Without its repetitions, a list is in the order of its first
occurrences. -/
theorem pairwise_idxOf_eraseDups (l : List String) :
    l.eraseDups.Pairwise fun b c => l.idxOf b < l.idxOf c := by
  induction l using eraseDups_induction with
  | nil => exact List.Pairwise.nil
  | cons a as ih =>
    have other : ∀ {b}, b ∈ (as.filter fun b => !b == a).eraseDups → a ≠ b := by
      intro b mem same
      rw [List.mem_eraseDups, same] at mem
      simp at mem
    rw [List.eraseDups_cons]
    refine List.Pairwise.cons (fun b mem => ?_) (ih.imp_of_mem fun memB memC before => ?_)
    · rw [List.idxOf_cons_self, List.idxOf_cons_ne _ (other mem)]
      exact Nat.zero_lt_succ _
    · rw [List.idxOf_cons_ne _ (other memB), List.idxOf_cons_ne _ (other memC)]
      rw [List.mem_eraseDups] at memB memC
      exact Nat.succ_lt_succ
        (idxOf_lt_of_filter (List.mem_filter.mp memB).2 (List.mem_filter.mp memC).2 before)

/-! ### The order of a hash -/

variable (hash : String → String → UInt64)

/-- Whether a node comes before another one, or is it, under a hash: by hash,
and by name where the hashes are the same. -/
def precedesBy (path a b : String) : Bool :=
  let x := hash path a
  let y := hash path b
  x < y || (x == y && decide (a ≤ b))

/-- The nodes of a scope in placement order under a hash, each once. -/
def orderedBy (policy : Policy) (path : String) (scope : List String) : List String :=
  match policy with
  | .nodesOrder => scope.eraseDups
  | .spread => scope.eraseDups.mergeSort (precedesBy hash path)

/-- The eligible nodes in placement order under a hash. -/
def rankedBy (policy : Policy) (path : String) (scope : List String)
    (eligible : String → Bool) : List String :=
  (orderedBy hash policy path scope).filter eligible

/-- The first eligible node in placement order under a hash. -/
def leaderBy (policy : Policy) (path : String) (scope : List String)
    (eligible : String → Bool) : Option String :=
  (orderedBy hash policy path scope).find? eligible

theorem ordered_eq : ordered = orderedBy hashPair := rfl

theorem ranked_eq : ranked = rankedBy hashPair := rfl

theorem leader_eq : leader = leaderBy hashPair := rfl

variable {hash} {path : String}

theorem precedesBy_iff {a b : String} : precedesBy hash path a b = true
    ↔ hash path a < hash path b ∨ hash path a = hash path b ∧ a ≤ b := by
  simp [precedesBy]

theorem precedesBy_total (a b : String) :
    (precedesBy hash path a b || precedesBy hash path b a) = true := by
  rw [Bool.or_eq_true, precedesBy_iff, precedesBy_iff]
  by_cases same : hash path a = hash path b
  · exact (String.le_total a b).imp (fun le => .inr ⟨same, le⟩) (fun le => .inr ⟨same.symm, le⟩)
  · exact (UInt64.lt_or_lt_of_ne same).imp .inl .inl

theorem precedesBy_trans (a b c : String) (ab : precedesBy hash path a b = true)
    (bc : precedesBy hash path b c = true) : precedesBy hash path a c = true := by
  rw [precedesBy_iff] at ab bc ⊢
  rcases ab with ab | ⟨ab, leAB⟩ <;> rcases bc with bc | ⟨bc, leBC⟩
  · exact .inl (UInt64.lt_trans ab bc)
  · exact .inl (bc ▸ ab)
  · exact .inl (ab ▸ bc)
  · exact .inr ⟨ab.trans bc, String.le_trans leAB leBC⟩

/-- Two nodes of one hash are told apart by their names. -/
theorem precedesBy_antisymm {a b : String} (ab : precedesBy hash path a b = true)
    (ba : precedesBy hash path b a = true) : a = b := by
  rw [precedesBy_iff] at ab ba
  rcases ab with ab | ⟨ab, leAB⟩ <;> rcases ba with ba | ⟨ba, leBA⟩
  · exact absurd ba (UInt64.lt_asymm ab)
  · exact absurd ba.symm (UInt64.ne_of_lt ab)
  · exact absurd ab.symm (UInt64.ne_of_lt ba)
  · exact String.le_antisymm leAB leBA

/-- **One order for one set of nodes**: nodes in the order of a hash are
listed in one way only. -/
theorem eq_of_pairwise_precedesBy {l l' : List String} (same : l.Perm l')
    (sorted : l.Pairwise (precedesBy hash path · ·))
    (sorted' : l'.Pairwise (precedesBy hash path · ·)) : l = l' :=
  List.Perm.eq_of_pairwise (fun _ _ _ _ => precedesBy_antisymm) sorted sorted' same

variable {policy : Policy} {scope : List String}

theorem pairwise_orderedBy_spread :
    (orderedBy hash .spread path scope).Pairwise (precedesBy hash path · ·) :=
  List.pairwise_mergeSort precedesBy_trans precedesBy_total _

theorem orderedBy_perm : (orderedBy hash policy path scope).Perm scope.eraseDups := by
  cases policy with
  | nodesOrder => exact List.Perm.refl _
  | spread => exact List.mergeSort_perm _ _

theorem nodup_orderedBy : (orderedBy hash policy path scope).Nodup :=
  orderedBy_perm.nodup_iff.mpr (nodup_eraseDups scope)

theorem mem_orderedBy {n : String} : n ∈ orderedBy hash policy path scope ↔ n ∈ scope :=
  orderedBy_perm.mem_iff.trans List.mem_eraseDups

/-- Scopes of the same nodes are spread alike. -/
theorem orderedBy_spread_congr {scope' : List String} (same : ∀ n, n ∈ scope ↔ n ∈ scope') :
    orderedBy hash .spread path scope = orderedBy hash .spread path scope' := by
  refine eq_of_pairwise_precedesBy ?_ pairwise_orderedBy_spread pairwise_orderedBy_spread
  rw [List.perm_ext_iff_of_nodup nodup_orderedBy nodup_orderedBy]
  intro n
  rw [mem_orderedBy, mem_orderedBy, same]

/-- Nodes that leave the scope do not move those that stay. -/
theorem orderedBy_filter (p : String → Bool) :
    orderedBy hash policy path (scope.filter p)
      = (orderedBy hash policy path scope).filter p := by
  cases policy with
  | nodesOrder => exact eraseDups_filter p scope
  | spread =>
    refine eq_of_pairwise_precedesBy ?_ pairwise_orderedBy_spread
      (pairwise_orderedBy_spread.filter p)
    calc orderedBy hash .spread path (scope.filter p)
      _ |>.Perm (scope.filter p).eraseDups := orderedBy_perm
      _ = scope.eraseDups.filter p := eraseDups_filter p scope
      _ |>.Perm ((orderedBy hash .spread path scope).filter p) := (orderedBy_perm.filter p).symm

/-! ### The laws of placement -/

/-- What nodes that exchange no message rely on, in an order of the nodes of a
scope and in the nodes that are picked from it. -/
structure Lawful (order : Policy → String → List String → List String)
    (rank : Policy → String → List String → (String → Bool) → List String)
    (lead : Policy → String → List String → (String → Bool) → Option String) : Prop where
  /-- No node stands in the order twice, … -/
  nodup : ∀ policy path scope, (order policy path scope).Nodup
  /-- … and the nodes that stand in it are those of the scope. -/
  mem_iff : ∀ policy path scope n, n ∈ order policy path scope ↔ n ∈ scope
  /-- The order of nodes is that in which the scope first lists them. -/
  firstListed : ∀ path scope,
    (order .nodesOrder path scope).Pairwise fun m n => scope.idxOf m < scope.idxOf n
  /-- Spread over the same nodes is the same, however the scope lists them. -/
  sameNodes : ∀ path scope scope', (∀ n, n ∈ scope ↔ n ∈ scope')
    → order .spread path scope = order .spread path scope'
  /-- A node that leaves the scope leaves the others as they stood. -/
  without : ∀ policy path scope gone,
    order policy path (scope.filter (· ≠ gone)) = (order policy path scope).filter (· ≠ gone)
  /-- The eligible nodes are ranked in the order, … -/
  ranked : ∀ policy path scope eligible,
    rank policy path scope eligible = (order policy path scope).filter eligible
  /-- … the first of them leads, … -/
  first : ∀ policy path scope eligible,
    lead policy path scope eligible = (rank policy path scope eligible).head?
  /-- … which is an eligible node of the scope, … -/
  leads : ∀ policy path scope eligible n,
    lead policy path scope eligible = some n → n ∈ scope ∧ eligible n = true
  /-- … and some node leads unless none of the scope is eligible. -/
  none_iff : ∀ policy path scope eligible,
    lead policy path scope eligible = none ↔ ∀ n ∈ scope, eligible n = false

theorem lawful_orderedBy (hash : String → String → UInt64) :
    Lawful (orderedBy hash) (rankedBy hash) (leaderBy hash) where
  nodup _ _ _ := nodup_orderedBy
  mem_iff _ _ _ _ := mem_orderedBy
  firstListed _ scope := pairwise_idxOf_eraseDups scope
  sameNodes _ _ _ := orderedBy_spread_congr
  without _ _ _ gone := orderedBy_filter (· ≠ gone)
  ranked _ _ _ _ := rfl
  first _ _ _ _ := List.head?_filter.symm
  leads _ _ _ _ _ found :=
    ⟨mem_orderedBy.mp (List.mem_of_find?_eq_some found), List.find?_some found⟩
  none_iff _ _ _ _ := by
    rw [leaderBy, List.find?_eq_none]
    simp only [mem_orderedBy, Bool.not_eq_true]

/-- **The laws of placement** hold under any hash, however many pairs collide
in it, and so of the placement of the cluster, which is that of one hash. -/
theorem placement_laws :
    (∀ hash, Lawful (orderedBy hash) (rankedBy hash) (leaderBy hash))
      ∧ ordered = orderedBy hashPair ∧ ranked = rankedBy hashPair ∧ leader = leaderBy hashPair
      ∧ Lawful ordered ranked leader :=
  ⟨lawful_orderedBy, ordered_eq, ranked_eq, leader_eq, lawful_orderedBy hashPair⟩

/-- Where all nodes collide, they are spread by their names. -/
example : leaderBy (fun _ _ => 0) .spread "db" ["n3", "n1", "n2", "n1"] (· != "n1")
    = some "n2" := by
  cbv

end HaCluster.Placement
