import HaCluster.Proofs.Replication.Feed
import HaCluster.Proofs.Tree.Amend

/-!
# What trust vouches for

A follower takes in whatever comes for its peers: full messages and patches,
consistent or not, in any order, with peers purged in between. The table of
trust keeps up with the copies all the same (`trust_tracks_copy`). A peer that
the table does not have has left no data; a copy that is trusted up to a number
is what a full message and the patches numbered on from it made of it, with none
of their changes failed; and every other peer is known to be out of step.

One message has six outcomes, which say all that it does (`Taken`). Each of them
touches no copy but the one the message is for (`Store.OnlyCopyOf`), so the
invariant is kept peer by peer.
-/

namespace HaCluster

open Value

namespace Store

variable {s t u : Store} {peer : String} {m : Entries Value}

/-! ## One copy -/

/-- Of all copies only that of a peer may have changed. -/
structure OnlyCopyOf (peer : String) (s t : Store) : Prop where
  nodes : t.HasNodes
  others : ∀ q, q ≠ peer → t.copyOf q = s.copyOf q

theorem OnlyCopyOf.refl (hn : s.HasNodes) : OnlyCopyOf peer s s := ⟨hn, fun _ _ => rfl⟩

/-- A change of one key of the mapping with the copies is a change of one copy. -/
theorem onlyCopyOf_of_get? {m' : Entries Value} (hm : s.data.lookup Layout.nodes = some (.map m))
    (hm' : t.data.lookup Layout.nodes = some (.map m'))
    (same : ∀ l, l ≠ peer → Entries.get? m' l = Entries.get? m l) : OnlyCopyOf peer s t := by
  refine ⟨⟨m', hm'⟩, fun q hq => ?_⟩
  rw [copyOf_eq_get? hm, copyOf_eq_get? hm']
  exact same q hq

theorem onlyCopyOf_enact? {x : Option Value} (hn : s.HasNodes)
    (h : s.data.enact? ⟨Layout.node peer, x⟩ = some t.data) :
    OnlyCopyOf peer s t ∧ t.copyOf peer = x := by
  refine ⟨⟨(copyOf_enact? hn h).1, fun q hq => ?_⟩, (copyOf_enact? hn h).2⟩
  have keys : (Layout.nodes ++ [Segment.key q]).AllKeys :=
    Path.allKeys_ofKeys ["cluster", "nodes", q]
  exact lookup_enact?_beside (r := []) keys hq h

/-- Whatever changes are tried below a key, they touch no other one. They fail
no more when the failures so far are none at the end, and what the key holds is
what they make of it then. -/
theorem foldl_tryFragment_amend {p : Path} {k : String} (fs : List Fragment)
    (acc : List (Fragment × DataError) × Value) (hm : acc.2.lookup p = some (.map m)) :
    ∃ m', (fs.foldl (tryFragment (p.key k)) acc).2.lookup p = some (.map m')
      ∧ (∀ l, l ≠ k → Entries.get? m' l = Entries.get? m l)
      ∧ ((fs.foldl (tryFragment (p.key k)) acc).1 = [] →
        acc.1 = [] ∧ amendAll? (Entries.get? m k) fs = some (Entries.get? m' k)) := by
  induction fs generalizing acc m with
  | nil => exact ⟨m, hm, fun l _ => rfl, fun none => ⟨none, rfl⟩⟩
  | cons f fs ih =>
    rw [List.foldl_cons]
    cases tried : acc.2.apply (f.rebase (p.key k)) with
    | error e =>
      have step : tryFragment (p.key k) acc f = (acc.1 ++ [(f, e)], acc.2) := by
        rw [tryFragment, tried]
      rw [step]
      obtain ⟨m', hm', same, whole⟩ := ih (acc.1 ++ [(f, e)], acc.2) hm
      refine ⟨m', hm', same, fun none => ?_⟩
      exact absurd (whole none).1
        (List.append_ne_nil_of_right_ne_nil _ (List.cons_ne_nil (f, e) []))
    | ok w =>
      have step : tryFragment (p.key k) acc f = (acc.1, w) := by
        rw [tryFragment, tried]
      rw [step]
      obtain ⟨n, hn, amended, same⟩ := amend?_of_apply hm tried
      obtain ⟨m', hm', same', whole⟩ := ih (acc.1, w) hn
      refine ⟨m', hm', fun l hl => (same' l hl).trans (same l hl), fun none => ?_⟩
      obtain ⟨before, rest⟩ := whole none
      rw [amendAll?_cons, amended]
      exact ⟨before, rest⟩

/-- A patch touches only the copy that it is for. When none of its changes
failed, the copy is what they make of it. -/
theorem patch_copy (hn : s.HasNodes) (peer : String) (fs : List Fragment) :
    OnlyCopyOf peer s (s.patch (Layout.node peer) fs).2
      ∧ ((s.patch (Layout.node peer) fs).1 = none →
        amendAll? (s.copyOf peer) fs = some ((s.patch (Layout.node peer) fs).2.copyOf peer)) := by
  obtain ⟨m, hm⟩ := hn
  obtain ⟨m', hm', same, whole⟩ := foldl_tryFragment_amend (k := peer) fs ([], s.data) hm
  rw [patch_eq]
  refine ⟨onlyCopyOf_of_get? hm hm' same, fun none => ?_⟩
  rw [copyOf_eq_get? hm, copyOf_eq_get? hm']
  refine (whole ?_).2
  by_contra some
  rw [Layout.node, if_neg (by rwa [List.isEmpty_iff])] at none
  cases none

/-- Removing a copy leaves nothing of it, and the others as they are. -/
theorem unsetIfPresent_copy (hn : s.HasNodes) (peer : String) :
    OnlyCopyOf peer s ((Store.unsetIfPresent (Layout.node peer)).after s)
      ∧ ((Store.unsetIfPresent (Layout.node peer)).after s).copyOf peer = none := by
  rw [after_unsetIfPresent]
  obtain ⟨m, hm⟩ := hn
  unfold Mutation.after
  cases there : Entries.get? m peer with
  | none =>
    have absent : Store.unset (Layout.node peer) s = .error (.notFound (Layout.node peer)) s := by
      unfold Store.unset Layout.node
      rw [remove_absent hm there]
    rw [absent]
    exact ⟨.refl ⟨m, hm⟩, (copyOf_eq_get? hm peer).trans there⟩
  | some old =>
    obtain ⟨fs, s', gone, change⟩ := unset_key_ok (k := peer) hm (by rw [there]; rfl)
    rw [show Store.unset (Layout.node peer) s = .ok fs s' from gone]
    exact onlyCopyOf_enact? ⟨m, hm⟩ change

end Store

namespace PeerTable

variable {t : PeerTable} {s : Store} {peer : String}

/-- A full message for a mapping that is there touches only its copy. -/
theorem storeCopy_copy (hn : s.HasNodes) (peer : String) (blob : Value) :
    ∃ s', storeCopy peer blob s = .ok () s' ∧ s.OnlyCopyOf peer s'
      ∧ s'.copyOf peer = some blob := by
  obtain ⟨m, hm⟩ := hn
  obtain ⟨fs, s', stored, change⟩ := Store.set_key_ok (k := peer) (x := blob) hm
  exact ⟨s', (bind_ok (Store.setIfAbsent_there hm)).trans (bind_ok stored),
    Store.onlyCopyOf_enact? ⟨m, hm⟩ change⟩

theorem trust_eq_inSync {k : Nat} (h : t.trust peer = .inSync k) :
    Entries.get? t peer = some (.inSync k) := by
  unfold trust at h
  cases there : Entries.get? t peer with
  | none =>
    rw [there] at h
    cases h
  | some x =>
    rw [there] at h
    exact congrArg some h

/-- A table lists the peers out of step that it has. -/
theorem mem_desynced (sorted : t.Sorted) :
    peer ∈ t.desynced ↔ Entries.get? t peer = some .untrusted := by
  unfold desynced
  rw [List.mem_map]
  constructor
  · rintro ⟨⟨p, x⟩, mem, rfl⟩
    obtain ⟨mem, untrusted⟩ := List.mem_filter.1 mem
    rw [sorted.get?_of_mem mem]
    exact congrArg some (of_decide_eq_true untrusted)
  · intro found
    exact ⟨(peer, .untrusted), List.mem_filter.2 ⟨Entries.mem_of_get? found, rfl⟩, rfl⟩

end PeerTable

namespace Replication

open Store

/-! ## One message -/

variable {x y : Follower} {peer : String} {m : Message} {k : Nat} {r : Receipt}

/-- All that a message of a peer can do to a follower. -/
inductive Taken (x : Follower) (peer : String) (m : Message) : Receipt → Follower → Prop
  /-- A full message replaces the copy. -/
  | replaced {blob : Value} {s : Store} (full : m.payload = .full blob)
    (only : x.store.OnlyCopyOf peer s) (copy : s.copyOf peer = some blob) :
    Taken x peer m .applied ⟨Entries.insert x.table peer (.inSync m.id), s⟩
  /-- The next patch in turn is applied as a whole. -/
  | followed {k : Nat} {s : Store} (patch : m.payload = .patch m.changes)
    (trust : x.table.trust peer = .inSync k) (next : m.id = k + 1)
    (only : x.store.OnlyCopyOf peer s)
    (copy : amendAll? (x.store.copyOf peer) m.changes = some (s.copyOf peer)) :
    Taken x peer m .applied ⟨Entries.insert x.table peer (.inSync m.id), s⟩
  /-- Some change of the next patch in turn failed. -/
  | failed {k : Nat} {s : Store} (patch : m.payload = .patch m.changes)
    (trust : x.table.trust peer = .inSync k) (next : m.id = k + 1)
    (only : x.store.OnlyCopyOf peer s) :
    Taken x peer m .needResync ⟨Entries.insert x.table peer .untrusted, s⟩
  /-- The patch comes too early. -/
  | gap {k : Nat} (patch : m.payload = .patch m.changes) (trust : x.table.trust peer = .inSync k)
    (early : k + 1 < m.id) :
    Taken x peer m .needResync ⟨Entries.insert x.table peer .untrusted, x.store⟩
  /-- The copy is not trusted, so the patch is not even tried. -/
  | refused (patch : m.payload = .patch m.changes) (trust : x.table.trust peer = .untrusted) :
    Taken x peer m .needResync x
  /-- The copy contains the patch already. -/
  | dropped {k : Nat} (patch : m.payload = .patch m.changes)
    (trust : x.table.trust peer = .inSync k) (old : m.id ≤ k) : Taken x peer m .duplicate x

/-- **Every message has one of these outcomes.** -/
theorem taken (hn : x.store.HasNodes) (peer : String) (m : Message) :
    Taken x peer m (x.take peer m).1 (x.take peer m).2 := by
  cases hm : m.payload with
  | full blob =>
    obtain ⟨s, stored, only, copy⟩ := PeerTable.storeCopy_copy hn peer blob
    have took : x.take peer m = (.applied, ⟨Entries.insert x.table peer (.inSync m.id), s⟩) := by
      unfold Follower.take PeerTable.receive
      rw [hm]
      dsimp only
      rw [stored]
    rw [took]
    exact .replaced hm only copy
  | patch fs =>
    obtain rfl : m.changes = fs := by rw [Message.changes, hm]
    cases trust : x.table.trust peer with
    | untrusted =>
      have took : x.take peer m = (.needResync, x) := by
        unfold Follower.take PeerTable.receive
        rw [hm, trust]
      rw [took]
      exact .refused hm trust
    | inSync k =>
      by_cases old : m.id ≤ k
      · have took : x.take peer m = (.duplicate, x) := by
          unfold Follower.take
          rw [PeerTable.receive_old trust hm old]
        rw [took]
        exact .dropped hm trust old
      by_cases next : m.id = k + 1
      · obtain ⟨only, copy⟩ := patch_copy hn peer m.changes
        cases patched : x.store.patch (Layout.node peer) m.changes with
        | mk failure s =>
          rw [patched] at only copy
          cases failure with
          | none =>
            have took : x.take peer m
                = (.applied, ⟨Entries.insert x.table peer (.inSync m.id), s⟩) := by
              unfold Follower.take PeerTable.receive
              rw [hm, trust]
              dsimp only
              rw [if_neg old, if_neg (not_not.2 next), patched]
            rw [took]
            exact .followed hm trust next only (copy rfl)
          | some e =>
            have took : x.take peer m
                = (.needResync, ⟨Entries.insert x.table peer .untrusted, s⟩) := by
              unfold Follower.take PeerTable.receive
              rw [hm, trust]
              dsimp only
              rw [if_neg old, if_neg (not_not.2 next), patched]
            rw [took]
            exact .failed hm trust next only
      · have took : x.take peer m
            = (.needResync, ⟨Entries.insert x.table peer .untrusted, x.store⟩) := by
          unfold Follower.take PeerTable.receive
          rw [hm, trust]
          dsimp only
          rw [if_neg old, if_pos next]
        rw [took]
        exact .gap hm trust (by omega)

/-- A message touches only the copy of the peer that it is for, and only the
trust in that peer. -/
theorem Taken.only (h : Taken x peer m r y) (hn : x.store.HasNodes) :
    x.store.OnlyCopyOf peer y.store
      ∧ ∀ q, q ≠ peer → Entries.get? y.table q = Entries.get? x.table q := by
  cases h with
  | replaced _ only _ => exact ⟨only, fun q hq => Entries.get?_insert_of_ne _ _ hq⟩
  | followed _ _ _ only _ => exact ⟨only, fun q hq => Entries.get?_insert_of_ne _ _ hq⟩
  | failed _ _ _ only => exact ⟨only, fun q hq => Entries.get?_insert_of_ne _ _ hq⟩
  | gap => exact ⟨.refl hn, fun q hq => Entries.get?_insert_of_ne _ _ hq⟩
  | refused => exact ⟨.refl hn, fun q _ => rfl⟩
  | dropped => exact ⟨.refl hn, fun q _ => rfl⟩

theorem Taken.sorted (h : Taken x peer m r y) (sorted : x.table.Sorted) : y.table.Sorted := by
  cases h <;> first | exact sorted.insert _ _ | exact sorted

/-- Only what the copy contains already is a duplicate, and it changes nothing. -/
theorem Taken.duplicate (h : Taken x peer m .duplicate y) : y = x := by
  cases h
  rfl

/-- A patch that comes too early is refused as it is. -/
theorem Taken.early {fs : List Fragment} (h : Taken x peer m r y) (patch : m.payload = .patch fs)
    (trust : x.table.trust peer = .inSync k) (early : k + 1 < m.id) :
    r = .needResync ∧ y.store = x.store := by
  cases h with
  | replaced full => exact nomatch patch.symm.trans full
  | gap => exact ⟨rfl, rfl⟩
  | refused => exact ⟨rfl, rfl⟩
  | followed _ trust' next | failed _ trust' next =>
    cases trust.symm.trans trust'
    omega
  | dropped _ trust' old =>
    cases trust.symm.trans trust'
    omega

/-- A patch of a peer that is not trusted is refused as it is. -/
theorem Taken.untrusted {fs : List Fragment} (h : Taken x peer m r y)
    (patch : m.payload = .patch fs) (untrusted : x.table.trust peer = .untrusted) :
    r = .needResync ∧ y = x := by
  cases h with
  | replaced full => exact nomatch patch.symm.trans full
  | refused => exact ⟨rfl, rfl⟩
  | followed _ trust | failed _ trust | gap _ trust | dropped _ trust =>
    exact nomatch untrusted.symm.trans trust

/-! ## Runs -/

/-- What happens to a follower. -/
inductive Happening where
  /-- A message of a peer comes in. -/
  | message (peer : String) (m : Message)
  /-- A peer that is down is forgotten. -/
  | purge (peer : String)

/-- The messages of a peer among all that happened, in order. -/
def messagesFrom (peer : String) (es : List Happening) : List Message :=
  es.filterMap (fun
    | .message p m => if p = peer then some m else none
    | .purge _ => none)

namespace Follower

/-- Forgets a peer. -/
def purge (x : Follower) (peer : String) : Follower :=
  let (_, t, s) := x.table.purge x.store peer
  ⟨t, s⟩

/-- The follower after something happened. -/
def meet (x : Follower) : Happening → Follower
  | .message p m => (x.take p m).2
  | .purge p => x.purge p

/-- The follower after several things happened, one after the other. -/
def meetAll (x : Follower) (es : List Happening) : Follower :=
  es.foldl meet x

end Follower

/-- A copy is the data of a full message with a run of patches, which are
numbered on from it up to `k` and have all been applied without a failure. -/
def Vouched (received : List Message) (k : Nat) (copy : Option Value) : Prop :=
  ∃ m blob ms, (m :: ms).Sublist received ∧ m.payload = .full blob ∧ Numbered (m.id + 1) ms
    ∧ k = m.id + ms.length ∧ amendAll? (some blob) (ms.flatMap Message.changes) = some copy

theorem Vouched.mono {received received' : List Message} {copy : Option Value}
    (h : Vouched received k copy) (sub : received.Sublist received') :
    Vouched received' k copy := by
  obtain ⟨m, blob, ms, taken, rest⟩ := h
  exact ⟨m, blob, ms, taken.trans sub, rest⟩

/-- The next patch in turn carries on the run. -/
theorem Vouched.next {received : List Message} {copy copy' : Option Value}
    (h : Vouched received k copy) (patch : m.payload = .patch m.changes) (next : m.id = k + 1)
    (amended : amendAll? copy m.changes = some copy') : Vouched (received ++ [m]) m.id copy' := by
  obtain ⟨full, blob, ms, sub, payload, numbered, count, run⟩ := h
  refine ⟨full, blob, ms ++ [m], ?_, payload, ?_, ?_, ?_⟩
  · exact sub.append (List.Sublist.refl [m])
  · refine numbered_append.2 ⟨numbered, numbered_cons.2 ⟨?_, patch, numbered_nil _⟩⟩
    omega
  · rw [List.length_append, List.length_singleton]
    omega
  · rw [List.flatMap_append, List.flatMap_singleton, amendAll?_append, run, Option.bind_some,
      amended]

/-- What the table says of a peer is true of its copy. -/
def Standing (x : Follower) (peer : String) (received : List Message) : Prop :=
  match Entries.get? x.table peer with
  | none => x.store.copyOf peer = none
  | some (.inSync k) => Vouched received k (x.store.copyOf peer)
  | some .untrusted => True

theorem Standing.congr {received received' : List Message} (h : Standing x peer received)
    (table : Entries.get? y.table peer = Entries.get? x.table peer)
    (copy : y.store.copyOf peer = x.store.copyOf peer) (sub : received.Sublist received') :
    Standing y peer received' := by
  unfold Standing at h ⊢
  rw [table, copy]
  cases there : Entries.get? x.table peer with
  | none =>
    rw [there] at h
    exact h
  | some trust =>
    rw [there] at h
    cases trust with
    | inSync k => exact Vouched.mono h sub
    | untrusted => trivial

theorem standing_insert {t : PeerTable} {s : Store} {trust : Trust} {received : List Message}
    (h : ∀ k, trust = .inSync k → Vouched received k (s.copyOf peer)) :
    Standing ⟨Entries.insert t peer trust, s⟩ peer received := by
  unfold Standing
  rw [Entries.get?_insert_self]
  cases trust with
  | inSync k => exact h k rfl
  | untrusted => trivial

/-- **A message keeps the standing of its peer.** -/
theorem Taken.standing {received : List Message} (h : Taken x peer m r y)
    (before : Standing x peer received) : Standing y peer (received ++ [m]) := by
  have longer : received.Sublist (received ++ [m]) := List.sublist_append_left received [m]
  cases h with
  | @replaced blob s full _ copy =>
    refine standing_insert (fun k hk => ?_)
    cases hk
    exact ⟨m, blob, [], List.sublist_append_right received [m], full, numbered_nil _, rfl,
      by rw [copy]; rfl⟩
  | @followed k s patch trust next _ copy =>
    refine standing_insert (fun k hk => ?_)
    cases hk
    unfold Standing at before
    rw [PeerTable.trust_eq_inSync trust] at before
    exact before.next patch next copy
  | failed => exact standing_insert (fun k hk => nomatch hk)
  | gap => exact standing_insert (fun k hk => nomatch hk)
  | refused => exact before.congr rfl rfl longer
  | dropped => exact before.congr rfl rfl longer

/-- What holds of a follower all the time: the mapping with the copies is there,
and the table is right about every peer but the node itself. -/
structure Tracks (node : String) (es : List Happening) (x : Follower) : Prop where
  nodes : x.store.HasNodes
  sorted : x.table.Sorted
  standing : ∀ p, p ≠ node → Standing x p (messagesFrom p es)

theorem messagesFrom_message (p : String) (es : List Happening) (peer : String) (m : Message) :
    messagesFrom p (es ++ [.message peer m])
      = messagesFrom p es ++ if peer = p then [m] else [] := by
  unfold messagesFrom
  rw [List.filterMap_append]
  by_cases hp : peer = p <;> simp [hp]

theorem messagesFrom_purge (p : String) (es : List Happening) (peer : String) :
    messagesFrom p (es ++ [.purge peer]) = messagesFrom p es := by
  unfold messagesFrom
  rw [List.filterMap_append]
  exact List.append_nil _

/-- A purge touches nothing but the peer that it is for, and leaves nothing of
it. -/
theorem purge_spec (hn : x.store.HasNodes) (peer : String) :
    (x.purge peer).table = Entries.erase x.table peer
      ∧ x.store.OnlyCopyOf peer (x.purge peer).store
      ∧ (x.purge peer).store.copyOf peer = none := by
  have left : x.purge peer
      = ⟨Entries.erase x.table peer, (Store.unsetIfPresent (Layout.node peer)).after x.store⟩ := by
    unfold Follower.purge PeerTable.purge Mutation.after
    cases Store.unsetIfPresent (Layout.node peer) x.store <;> rfl
  rw [left]
  exact ⟨rfl, unsetIfPresent_copy hn peer⟩

/-- One thing that happens keeps the table right. -/
theorem Tracks.meet {node : String} {es : List Happening} (h : Tracks node es x)
    (e : Happening) : Tracks node (es ++ [e]) (x.meet e) := by
  cases e with
  | message peer m =>
    have took := taken h.nodes peer m
    obtain ⟨only, table⟩ := took.only h.nodes
    refine ⟨only.nodes, took.sorted h.sorted, fun p hp => ?_⟩
    rw [messagesFrom_message]
    by_cases same : peer = p
    · subst same
      rw [if_pos rfl]
      exact took.standing (h.standing peer hp)
    · exact (h.standing p hp).congr (table p (Ne.symm same)) (only.others p (Ne.symm same))
        (List.sublist_append_left _ _)
  | purge peer =>
    obtain ⟨table, only, gone⟩ := purge_spec h.nodes peer
    refine ⟨only.nodes, table ▸ h.sorted.erase peer, fun p hp => ?_⟩
    rw [messagesFrom_purge]
    by_cases same : p = peer
    · subst same
      unfold Standing
      rw [show (x.meet (.purge p)).table = Entries.erase x.table p from table,
        Entries.get?_erase_self]
      exact gone
    · refine (h.standing p hp).congr ?_ (only.others p same) (List.Sublist.refl _)
      rw [show (x.meet (.purge peer)).table = Entries.erase x.table peer from table,
        Entries.get?_erase_of_ne _ same]

/-- **The table is right after every run.** -/
theorem Tracks.meetAll {node : String} (h : Tracks node [] x) (es : List Happening) :
    Tracks node es (x.meetAll es) := by
  induction es using List.reverseRecOn with
  | nil => exact h
  | append_singleton es e ih =>
    rw [Follower.meetAll, List.foldl_append]
    exact ih.meet e

/-! ## Trust and copies -/

/-- A peer that was never heard of since it was last forgotten: it is not
trusted, not out of step, and there is nothing of it. -/
def Unknown (x : Follower) (peer : String) : Prop :=
  x.table.isTrusted peer = false ∧ peer ∉ x.table.desynced ∧ x.store.copyOf peer = none

/-- A peer is trusted up to some number, and its copy is vouched for up to
there. -/
def InStep (x : Follower) (peer : String) (received : List Message) : Prop :=
  ∃ k, x.table.trust peer = .inSync k ∧ Vouched received k (x.store.copyOf peer)

/-- Of three propositions exactly one holds. -/
def ExactlyOne (a b c : Prop) : Prop :=
  (a ∨ b ∨ c) ∧ ¬ (a ∧ b) ∧ ¬ (a ∧ c) ∧ ¬ (b ∧ c)

/-- What a message, or anything else that happens, leaves alone. -/
structure Careful (x : Follower) : Prop where
  /-- A duplicate changes nothing in the tree. -/
  duplicate : ∀ p m, (x.take p m).1 = .duplicate → (x.take p m).2.store = x.store
  /-- A patch that comes too early is refused, and changes nothing in the tree. -/
  gap : ∀ p m fs k, m.payload = .patch fs → x.table.trust p = .inSync k → k + 1 < m.id →
    (x.take p m).1 = .needResync ∧ (x.take p m).2.store = x.store
  /-- A patch of a peer that is not trusted is refused, and changes nothing in
  the tree. -/
  untrusted : ∀ p m fs, m.payload = .patch fs → x.table.isTrusted p = false →
    (x.take p m).1 = .needResync ∧ (x.take p m).2.store = x.store
  /-- What there is of a peer out of step is changed only by a full message of
  the peer, or by its purge. -/
  desynced : ∀ p e, p ∈ x.table.desynced → (x.meet e).store.copyOf p ≠ x.store.copyOf p →
    e = .purge p ∨ ∃ m blob, e = .message p m ∧ m.payload = .full blob
  /-- A message changes neither the copy of another peer nor the trust in it. -/
  apart : ∀ p m q, q ≠ p → (x.take p m).2.store.copyOf q = x.store.copyOf q
    ∧ Entries.get? (x.take p m).2.table q = Entries.get? x.table q

theorem isTrusted_eq_false {t : PeerTable} :
    t.isTrusted peer = false ↔ t.trust peer = .untrusted := by
  unfold PeerTable.isTrusted
  simp

/-- A peer has exactly one of the three standings. -/
theorem Tracks.exactlyOne {node : String} {es : List Happening} (h : Tracks node es x)
    {p : String} (hp : p ≠ node) :
    ExactlyOne (Unknown x p) (InStep x p (messagesFrom p es)) (p ∈ x.table.desynced) := by
  have standing := h.standing p hp
  unfold ExactlyOne Unknown InStep
  rw [PeerTable.mem_desynced h.sorted, isTrusted_eq_false, PeerTable.trust]
  unfold Standing at standing
  cases there : Entries.get? x.table p with
  | none =>
    rw [there] at standing
    simpa using standing
  | some trust =>
    rw [there] at standing
    cases trust with
    | inSync k => simpa using standing
    | untrusted => simp

theorem trust_of_mem_desynced {t : PeerTable} (sorted : t.Sorted) (h : peer ∈ t.desynced) :
    t.trust peer = .untrusted := by
  rw [PeerTable.trust, (PeerTable.mem_desynced sorted).1 h]
  rfl

/-- A follower whose table is right is careful. -/
theorem Tracks.careful {node : String} {es : List Happening} (h : Tracks node es x) :
    Careful x where
  duplicate p m answer := by
    have took := taken h.nodes p m
    rw [answer] at took
    rw [took.duplicate]
  gap p m fs k patch trust early := (taken h.nodes p m).early patch trust early
  untrusted p m fs patch untrusted := by
    obtain ⟨answer, same⟩ :=
      (taken h.nodes p m).untrusted patch (isTrusted_eq_false.1 untrusted)
    exact ⟨answer, congrArg Follower.store same⟩
  desynced p e out change := by
    cases e with
    | purge q =>
      refine .inl (congrArg Happening.purge ?_)
      by_contra other
      exact change ((purge_spec h.nodes q).2.1.others p (Ne.symm other))
    | message q m =>
      by_cases same : p = q
      · subst same
        cases hm : m.payload with
        | full blob => exact .inr ⟨m, blob, rfl, hm⟩
        | patch fs =>
          obtain ⟨-, same⟩ :=
            (taken h.nodes p m).untrusted hm (trust_of_mem_desynced h.sorted out)
          exact absurd (congrArg (fun y => y.store.copyOf p) same) change
      · exact absurd (((taken h.nodes q m).only h.nodes).1.others p same) change
  apart p m q hq := by
    obtain ⟨only, table⟩ := (taken h.nodes p m).only h.nodes
    exact ⟨only.others q hq, table q hq⟩

/-- **Trust keeps up with the copies.** From a node without copies of its peers
on, whatever messages of peers come in and whatever peers are purged: a peer is
unknown and there is nothing of it, or it is trusted and its copy is the data of
a full message with the patches numbered on from it, or it is out of step; and
never two of these. Duplicates and patches out of turn change nothing in the
tree, a copy out of step waits for a full message or the purge, and a message
for one peer changes nothing of another. -/
theorem trust_tracks_copy {node : String} (nodes : x.store.HasNodes) (table : x.table = [])
    (bare : ∀ p, p ≠ node → x.store.copyOf p = none) (es : List Happening) :
    (∀ p, p ≠ node → ExactlyOne (Unknown (x.meetAll es) p)
        (InStep (x.meetAll es) p (messagesFrom p es)) (p ∈ (x.meetAll es).table.desynced))
      ∧ Careful (x.meetAll es) := by
  have start : Tracks node [] x := by
    refine ⟨nodes, table ▸ Entries.Sorted.nil, fun p hp => ?_⟩
    unfold Standing
    rw [table]
    exact bare p hp
  have tracks := start.meetAll es
  exact ⟨fun p hp => tracks.exactlyOne hp, tracks.careful⟩

/-- A node with its own blob only. -/
def Follower.bare : Follower :=
  ⟨[], ⟨.map [("cluster", .map [("nodes", .map [("a", Value.empty)])])], none, []⟩⟩

/-- The copy of `b` takes a patch in part after a full message, and `c` is purged
before a late patch. -/
theorem trust_tracks_copy_partly :
    let es : List Happening :=
      [.message "b" ⟨3, 0, .full Value.empty⟩, .message "c" ⟨1, 0, .full .null⟩,
        .message "b"
          ⟨4, 0, .patch [⟨[.key "v"], some (.int 1)⟩, ⟨[.key "w", .key "v"], some .null⟩]⟩,
        .purge "c", .message "c" ⟨2, 0, .patch []⟩]
    let y := Follower.bare.meetAll es
    (∀ p, p ≠ "a" → ExactlyOne (Unknown y p) (InStep y p (messagesFrom p es))
        (p ∈ y.table.desynced))
      ∧ Careful y ∧ y.table.desynced = ["b"] ∧ Unknown y "c" := by
  intro es y
  have table : y.table = [("b", .untrusted)] := rfl
  have bare (p : String) (hp : p ≠ "a") : Follower.bare.store.copyOf p = none := by
    rw [copyOf_eq_get? (m := [("a", Value.empty)]) rfl, Entries.get?_cons, if_neg (Ne.symm hp)]
    rfl
  have tracks := trust_tracks_copy ⟨_, rfl⟩ rfl bare es
  refine ⟨tracks.1, tracks.2, by rw [table]; rfl, ?_, ?_, rfl⟩
  · rw [table]; rfl
  · rw [table]; decide

end Replication

end HaCluster
