import HaCluster.Replication.PeerTable
import HaCluster.Proofs.Store.Keys

/-!
# The copy of a peer

A node keeps the copies of its peers as the entries of one mapping, so that
what happens to a copy is a change of one key. A full message sets the key, a
patch whose changes can be followed from the copy leads it to where they lead,
without a failed fragment, and purging drops it. As long as the mapping is
there, none of them can go wrong otherwise.
-/

namespace HaCluster

open Value

namespace Store

variable {s : Store} {peer : String}

/-- What a store has of a peer. -/
def copyOf (s : Store) (peer : String) : Option Value :=
  s.data.lookup (Layout.node peer)

/-- The mapping with the copies of all peers is there. -/
def HasNodes (s : Store) : Prop := ∃ m, s.data.lookup Layout.nodes = some (.map m)

/-- The mapping with the copies is there, or nothing is in its place and the
mapping above it is there. -/
def HasRoom (s : Store) : Prop :=
  s.HasNodes ∨ s.data.lookup Layout.nodes = none
    ∧ ∃ m, s.data.lookup (Path.ofKeys ["cluster"]) = some (.map m)

theorem HasNodes.hasRoom (h : s.HasNodes) : s.HasRoom := .inl h

theorem copyOf_eq_get? {m : Entries Value} (h : s.data.lookup Layout.nodes = some (.map m))
    (peer : String) : s.copyOf peer = Entries.get? m peer :=
  lookup_key h peer

/-- A change of one key of the mapping with the copies is seen in that copy. -/
theorem copyOf_change {t : Store} {m : Entries Value} {y : Option Value}
    (h : t.data.lookup Layout.nodes = some (.map (Entries.change m peer y))) :
    t.HasNodes ∧ t.copyOf peer = y := by
  refine ⟨⟨_, h⟩, ?_⟩
  rw [copyOf_eq_get? h, Entries.get?_change, if_pos rfl]

/-- One try of a patch: the failures so far and the tree. -/
def tryFragment (base : Path) (acc : List (Fragment × DataError) × Value) (f : Fragment) :
    List (Fragment × DataError) × Value :=
  match acc.2.apply (f.rebase base) with
  | .ok v => (acc.1, v)
  | .error e => (acc.1 ++ [(f, e)], acc.2)

theorem patch_eq (s : Store) (base : Path) (fs : List Fragment) :
    s.patch base fs =
      (if (fs.foldl (tryFragment base) ([], s.data)).1.isEmpty then none
        else some ⟨base, fs.length, (fs.foldl (tryFragment base) ([], s.data)).1⟩,
        { s with data := (fs.foldl (tryFragment base) ([], s.data)).2 }) := rfl

/-- Changes that can be followed from a key are tried without a failure. -/
theorem foldl_tryFragment {v : Value} {p : Path} {k : String} {m : Entries Value}
    {fs : List Fragment} {y : Option Value} (h : v.lookup p = some (.map m))
    (hy : followAll? (Entries.get? m k) fs = some y) :
    ∃ v' m', fs.foldl (tryFragment (p.key k)) ([], v) = ([], v')
      ∧ v'.lookup p = some (.map m') ∧ Entries.get? m' k = y := by
  induction fs generalizing v m with
  | nil =>
    cases hy
    exact ⟨v, m, rfl, h, rfl⟩
  | cons f fs ih =>
    obtain ⟨z, hz, hy⟩ := Option.bind_eq_some_iff.1 hy
    obtain ⟨w, hw, hwm⟩ := apply_follow? h hz
    have first : tryFragment (p.key k) ([], v) f = ([], w) := by
      unfold tryFragment
      rw [hw]
    rw [List.foldl_cons, first]
    refine ih hwm ?_
    rw [Entries.get?_change, if_pos rfl]
    exact hy

/-- **A patch that can be followed from the copy** leads it there, without a
failed fragment. -/
theorem patch_followAll? {fs : List Fragment} {y : Option Value} (hn : s.HasNodes)
    (h : followAll? (s.copyOf peer) fs = some y) :
    ∃ s', s.patch (Layout.node peer) fs = (none, s') ∧ s'.HasNodes ∧ s'.copyOf peer = y := by
  obtain ⟨m, hm⟩ := hn
  rw [copyOf_eq_get? hm] at h
  obtain ⟨v', m', run, hm', hy⟩ := foldl_tryFragment hm h
  refine ⟨{ s with data := v' }, ?_, ⟨m', hm'⟩, (copyOf_eq_get? hm' peer).trans hy⟩
  rw [patch_eq, Layout.node, run]
  rfl

/-- An edit that stores or removes the copy of a peer changes that copy. -/
theorem copyOf_enact? {t : Store} {x : Option Value} (hn : s.HasNodes)
    (h : s.data.enact? ⟨Layout.node peer, x⟩ = some t.data) :
    t.HasNodes ∧ t.copyOf peer = x := by
  obtain ⟨m, hm⟩ := hn
  rw [Layout.node, Path.key, Path.child, enact?_append (List.cons_ne_nil _ _), hm,
    Option.bind_some] at h
  obtain ⟨d, hd, ht⟩ := Option.map_eq_some_iff.1 h
  obtain ⟨-, y, hy, rfl⟩ := enact?_key.1 hd
  cases hy
  exact copyOf_change (by rw [← ht, lookup_plug hm])

/-- Storing the copy of a peer succeeds. -/
theorem set_copy_ok (hn : s.HasNodes) (peer : String) (blob : Value) :
    ∃ fs s', Store.set (Layout.node peer) blob s = .ok fs s'
      ∧ s'.HasNodes ∧ s'.copyOf peer = some blob := by
  obtain ⟨m, hm⟩ := hn
  obtain ⟨fs, s', stored, change⟩ := set_key_ok (k := peer) (x := blob) hm
  exact ⟨fs, s', stored, copyOf_enact? ⟨m, hm⟩ change⟩

/-- Where there is room for copies, making the mapping for them succeeds. -/
theorem setIfAbsent_nodes_ok (h : s.HasRoom) :
    ∃ fs s', Store.setIfAbsent Layout.nodes Value.empty s = .ok fs s' ∧ s'.HasNodes := by
  rcases h with ⟨m, hm⟩ | ⟨absent, m, hm⟩
  · exact ⟨[], s, setIfAbsent_there hm, m, hm⟩
  · obtain ⟨fs, s', made, change⟩ := setIfAbsent_key_ok (k := "nodes") (x := Value.empty) hm
    refine ⟨fs, s', made, [], ?_⟩
    rcases change with ⟨-, there⟩ | change
    · rw [show (Path.ofKeys ["cluster"]).key "nodes" = Layout.nodes from rfl, absent] at there
      cases there
    · have stored := follow?_lookup (q := Layout.nodes) (r := [])
        (Path.allKeys_ofKeys ["cluster", "nodes"]) (List.cons_ne_nil _ _) change
      exact (Option.some.inj stored).symm

/-- Removing the copy of a peer keeps the mapping with the copies. -/
theorem hasNodes_unset_copy (hn : s.HasNodes) :
    ((Store.unset (Layout.node peer)).after s).HasNodes := by
  unfold Mutation.after Store.unset
  cases h : s.data.remove (Layout.node peer) with
  | error e => exact hn
  | ok r =>
    have gone : s.data.enact? ⟨Layout.node peer, none⟩
        = some ({ s with data := r.2 }.record (diff (Layout.node peer) (some r.1) none)).data := by
      rw [record_data]
      exact (remove_eq_ok_iff.1 h).2
    exact (copyOf_enact? hn gone).1

theorem after_unsetIfPresent (p : Path) (s : Store) :
    (Store.unsetIfPresent p).after s = (Store.unset p).after s := by
  unfold Mutation.after Store.unsetIfPresent
  cases h : Store.unset p s with
  | ok fs s' => rfl
  | error e s' => cases e <;> rfl

end Store

namespace PeerTable

open Mutation Store

variable {t : PeerTable} {s : Store} {peer : String} {m : Message}

theorem trust_insert (t : PeerTable) (peer : String) (x : Trust) :
    trust (Entries.insert t peer x) peer = x := by
  rw [trust, Entries.get?_insert_self]
  rfl

theorem trust_erase (t : PeerTable) (peer : String) :
    trust (Entries.erase t peer) peer = .untrusted := by
  rw [trust, Entries.get?_erase_self]
  rfl

/-- A full message replaces the copy. -/
theorem storeCopy_ok (hr : s.HasRoom) (peer : String) (blob : Value) :
    ∃ s', storeCopy peer blob s = .ok () s' ∧ s'.HasNodes ∧ s'.copyOf peer = some blob := by
  obtain ⟨made, t, ht, hn⟩ := setIfAbsent_nodes_ok hr
  obtain ⟨fs, s', hs, hn', copy⟩ := set_copy_ok hn peer blob
  exact ⟨s', (bind_ok ht).trans (bind_ok hs), hn', copy⟩

/-- A full message is applied: the copy is the blob, trusted up to the number
of the message. -/
theorem receive_full {blob : Value} (hr : s.HasRoom) (hm : m.payload = .full blob) :
    ∃ s', t.receive s peer m = (.applied, Entries.insert t peer (.inSync m.id), s')
      ∧ s'.HasNodes ∧ s'.copyOf peer = some blob := by
  obtain ⟨s', stored, hs'⟩ := storeCopy_ok hr peer blob
  refine ⟨s', ?_, hs'⟩
  unfold receive
  rw [hm]
  dsimp only
  rw [stored]

/-- **The next patch in turn is applied**, if its changes can be followed from
the copy. -/
theorem receive_next {k : Nat} {fs : List Fragment} {y : Option Value} (hn : s.HasNodes)
    (ht : t.trust peer = .inSync k) (hm : m.payload = .patch fs) (id : m.id = k + 1)
    (hy : followAll? (s.copyOf peer) fs = some y) :
    ∃ s', t.receive s peer m = (.applied, Entries.insert t peer (.inSync m.id), s')
      ∧ s'.HasNodes ∧ s'.copyOf peer = y := by
  obtain ⟨s', patched, hs'⟩ := patch_followAll? hn hy
  refine ⟨s', ?_, hs'⟩
  unfold receive
  rw [hm, ht]
  dsimp only
  rw [if_neg (by omega), if_neg (by omega), patched]

/-- A patch that is in the copy already is told from the others and dropped. -/
theorem receive_old {k : Nat} {fs : List Fragment} (ht : t.trust peer = .inSync k)
    (hm : m.payload = .patch fs) (old : m.id ≤ k) :
    t.receive s peer m = (.duplicate, t, s) := by
  unfold receive
  rw [hm, ht]
  dsimp only
  rw [if_pos old]

/-- Any other patch leaves the copy alone, and never adds trust to it. -/
theorem receive_out_of_turn {fs : List Fragment} (hm : m.payload = .patch fs)
    (out : ∀ k, t.trust peer = .inSync k → m.id ≠ k + 1) :
    (t.receive s peer m).2.2 = s
      ∧ ((t.receive s peer m).2.1.trust peer = t.trust peer
        ∨ (t.receive s peer m).2.1.trust peer = .untrusted) := by
  unfold receive
  rw [hm]
  cases ht : t.trust peer with
  | untrusted => exact ⟨rfl, .inl ht⟩
  | inSync k =>
    dsimp only
    by_cases old : m.id ≤ k
    · rw [if_pos old]
      exact ⟨rfl, .inl ht⟩
    · rw [if_neg old, if_pos (out k ht)]
      exact ⟨rfl, .inr (trust_insert t peer .untrusted)⟩

/-- A purged peer is not trusted, and the mapping with the copies stays. -/
theorem purge_untrusted (t : PeerTable) (hn : s.HasNodes) (peer : String) :
    (t.purge s peer).2.1.trust peer = .untrusted ∧ (t.purge s peer).2.2.HasNodes := by
  have after : (t.purge s peer).2
      = (Entries.erase t peer, (Store.unsetIfPresent (Layout.node peer)).after s) := by
    unfold purge Mutation.after
    cases Store.unsetIfPresent (Layout.node peer) s <;> rfl
  rw [after, after_unsetIfPresent]
  exact ⟨trust_erase t peer, hasNodes_unset_copy hn⟩

end PeerTable

end HaCluster
