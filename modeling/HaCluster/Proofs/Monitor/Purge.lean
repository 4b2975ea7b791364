import HaCluster.Proofs.Daemon.Peers
import HaCluster.Proofs.Monitor.Frame
import HaCluster.Proofs.Replication.Trust

/-!
# No ghosts of peers

A round drops the copies of the peers that are down. Up to there a round touches no copy
(`frame_copy`), so the peers that it says it has purged are those whose copies were there
before it and are gone after it, and whoever has a copy left is the node itself, beats, or
has announced maintenance lately (`no_ghosts`).

With the copy goes the trust in it. A patch is not even tried on a copy that is not trusted,
so a peer that was purged stays away until a full message of it comes in
(`Forgotten.meetAll`).
-/

namespace HaCluster

open Value Mutation

/-- A message carries the whole blob of its sender. -/
def Message.IsFull (m : Message) : Prop := ∃ blob, m.payload = .full blob

/-! ## Peers that were forgotten -/

namespace Replication

variable {x : Follower} {peer q : String} {es : List Happening}

/-- Nothing is left of a peer, and its patches are not applied. -/
structure Forgotten (peer : String) (x : Follower) : Prop where
  nodes : x.store.HasNodes
  copy : x.store.copyOf peer = none
  trust : x.table.trust peer = .untrusted

/-- A purge forgets the peer. -/
theorem forgotten_purge (hn : x.store.HasNodes) (peer : String) :
    Forgotten peer (x.purge peer) := by
  obtain ⟨table, only, gone⟩ := purge_spec hn peer
  refine ⟨only.nodes, gone, ?_⟩
  unfold PeerTable.trust
  rw [table, Entries.get?_erase_self]
  rfl

/-- A peer stays forgotten whatever else happens but a full message of it. -/
theorem Forgotten.meet (h : Forgotten peer x) {e : Happening}
    (patches : ∀ m, e = .message peer m → ¬ m.IsFull) : Forgotten peer (x.meet e) := by
  cases e with
  | message q m =>
    have took := taken h.nodes q m
    by_cases same : q = peer
    · subst same
      cases payload : m.payload with
      | full blob => exact absurd ⟨blob, payload⟩ (patches m rfl)
      | patch fs =>
        show Forgotten q (x.take q m).2
        rw [(took.untrusted payload h.trust).2]
        exact h
    · obtain ⟨only, table⟩ := took.only h.nodes
      refine ⟨only.nodes, (only.others peer (Ne.symm same)).trans h.copy, ?_⟩
      show PeerTable.trust (x.take q m).2.table peer = .untrusted
      unfold PeerTable.trust
      rw [table peer (Ne.symm same)]
      exact h.trust
  | purge q =>
    by_cases same : q = peer
    · subst same
      exact forgotten_purge h.nodes q
    · obtain ⟨table, only, -⟩ := purge_spec h.nodes q
      refine ⟨only.nodes, (only.others peer (Ne.symm same)).trans h.copy, ?_⟩
      show PeerTable.trust (x.purge q).table peer = .untrusted
      unfold PeerTable.trust
      rw [table, Entries.get?_erase_of_ne _ (Ne.symm same)]
      exact h.trust

/-- **A peer that was forgotten comes back with a full message only.** -/
theorem Forgotten.meetAll (h : Forgotten peer x)
    (patches : ∀ m ∈ messagesFrom peer es, ¬ m.IsFull) : Forgotten peer (x.meetAll es) := by
  induction es generalizing x with
  | nil => exact h
  | cons e es ih =>
    refine ih (h.meet fun m same => patches m ?_) fun m hm => patches m ?_
    · subst same
      exact List.mem_filterMap.2 ⟨_, List.mem_cons_self, if_pos rfl⟩
    · obtain ⟨e', he', read⟩ := List.mem_filterMap.1 hm
      exact List.mem_filterMap.2 ⟨e', List.mem_cons_of_mem _ he', read⟩

/-- Purging several peers leaves nothing of them, and the others as they are. -/
theorem copyOf_purgeAll (hn : x.store.HasNodes) (peers : List String) :
    let y := x.meetAll (peers.map .purge)
    y.store.HasNodes ∧ (∀ q, y.store.copyOf q = if q ∈ peers then none else x.store.copyOf q)
      ∧ ∀ q ∈ peers, Forgotten q y := by
  induction peers generalizing x with
  | nil => exact ⟨hn, fun q => (if_neg List.not_mem_nil).symm, fun q hq => absurd hq List.not_mem_nil⟩
  | cons peer peers ih =>
    obtain ⟨-, only, gone⟩ := purge_spec hn peer
    obtain ⟨nodes, copies, forgotten⟩ := ih only.nodes
    refine ⟨nodes, fun q => ?_, fun q hq => ?_⟩
    · refine (copies q).trans ?_
      by_cases later : q ∈ peers
      · rw [if_pos later, if_pos (List.mem_cons_of_mem _ later)]
      · rw [if_neg later]
        by_cases same : q = peer
        · rw [same, gone, if_pos List.mem_cons_self]
        · rw [only.others q same, if_neg (fun h => (List.mem_cons.1 h).elim same later)]
    · rcases List.mem_cons.1 hq with rfl | hq
      · refine (forgotten_purge hn q).meetAll fun m hm => ?_
        obtain ⟨e, he, read⟩ := List.mem_filterMap.1 hm
        obtain ⟨p, -, rfl⟩ := List.mem_map.1 he
        cases read
      · exact forgotten q hq

end Replication

/-! ## What a round does to the copies -/

/-- **The copy of a peer** is left alone by what a node edits of its own. -/
theorem Node.Blob.frame_copy {node n : String} (ne : n ≠ node) :
    Frame (Edits node True (fun _ => True) (fun _ => False)) (Makes node)
      (fun v w => w.lookup (Layout.node n) = v.lookup (Layout.node n)) := by
  have beside (r : Path) : (Layout.node n).Apart (Layout.node node ++ r) :=
    Path.apart_of_ne (p := Layout.nodes) ne
  refine (frame_lookup (Path.allKeys_ofKeys ["cluster", "nodes", n])).mono (fun q hq => ?_)
    (fun q hq => ?_)
  · cases hq with
    | peer hn => exact hn.elim
    | _ => exact beside _
  · cases hq with
    | nodes => exact Path.not_startsWith_of_length_lt (Nat.le_of_ble_eq_true rfl)
    | _ => exact (beside _).2

namespace Daemon

variable {α : Type} {beats : Heartbeat.Registry} {d : Daemon}

/-- The part of a daemon that follows the peers. -/
def follower (d : Daemon) : Replication.Follower := ⟨d.peers, d.store⟩

/-- What becomes of a daemon when a message of a peer comes in, or a peer is purged. -/
def meet (d : Daemon) : Replication.Happening → Daemon
  | .message p m => (d.receive p m).2
  | .purge p => Step.after (purge p) d

/-- What becomes of a daemon one such thing after the other. -/
def meetAll (d : Daemon) (es : List Replication.Happening) : Daemon :=
  es.foldl meet d

/-- It becomes of the daemon what becomes of the follower. -/
theorem follower_meet (d : Daemon) (e : Replication.Happening) :
    (d.meet e).follower = d.follower.meet e := by
  cases e with
  | message p m => rfl
  | purge p =>
    show follower (Step.after (purge p) d) = d.follower.purge p
    unfold Step.after purge Replication.Follower.purge follower
    dsimp only
    generalize d.peers.purge d.store p = purged
    obtain ⟨result, table, store⟩ := purged
    cases result <;> rfl

theorem follower_meetAll (d : Daemon) (es : List Replication.Happening) :
    (d.meetAll es).follower = d.follower.meetAll es := by
  induction es generalizing d with
  | nil => rfl
  | cons e es ih =>
    refine (ih (d.meet e)).trans ?_
    rw [follower_meet]
    rfl

/-- The beats that a daemon has heard. -/
def Hears (beats : Heartbeat.Registry) (d : Daemon) : Prop := d.heartbeats = beats

theorem hears_mutate (m : Mutation α) : Preserves (Hears beats) (mutate m) := by
  intro d hd
  unfold Step.after mutate
  cases m d.store <;> exact hd

theorem hears_postStatus (service : String) (doc : Value) :
    Preserves (Hears beats) (postStatus service doc) := by
  refine preserves_get_bind fun d hd => ?_
  cases doc with
  | map new => exact hears_mutate _ d hd
  | _ => exact hd

theorem hears_reloadSettings (load : String → Except SettingsError Settings) :
    Preserves (Hears beats) (reloadSettings load) := by
  intro d hd
  unfold Step.after reloadSettings
  dsimp only
  cases d.settingsChanged with
  | false => exact hd
  | true =>
    cases d.settingsFile with
    | none => exact hd
    | some file =>
      rw [if_pos rfl]
      dsimp only
      cases load file <;> exact hd

end Daemon

namespace Monitor

open Replication
open Daemon (Since since_refl Hears hears_mutate hears_postStatus hears_reloadSettings)

variable {W : Type} {node : String} {s s' t u : Monitor W} {at_ : Float} {o : Outlook}

/-- A round keeps the copy of a peer up to where it drops those of the peers that are
down. -/
theorem copyOf_attended [World W] {host : Daemon.Host} {now : Moment} {n : String}
    {done : List Action × List (String × DataError)} (ne : n ≠ s.daemon.nodeName)
    (prepared : prepare host now at_ s = .ok o t) (attended : attend at_ now.wall o t = .ok done u) :
    u.daemon.store.copyOf n = s.daemon.store.copyOf n := by
  have frame := Node.Blob.frame_copy ne
  have since := (retains_prepare frame (.of_frame frame trivial at_) (fun _ => trivial) host
    now).of_ok prepared (since_refl frame rfl)
  exact ((retains_attend frame (fun _ => trivial) at_ now.wall o).of_ok attended since).store.data

/-- The mapping of the copies is there for a whole round. -/
theorem hasNodes_attended [World W] {host : Daemon.Host} {now : Moment}
    {done : List Action × List (String × DataError)}
    (prepared : prepare host now at_ s = .ok o t) (attended : attend at_ now.wall o t = .ok done u)
    (nodes : HasMapping s.daemon.store.data Layout.nodes) :
    u.daemon.nodeName = s.daemon.nodeName ∧ HasMapping u.daemon.store.data Layout.nodes := by
  have frame := Node.Blob.frame_nodes s.daemon.nodeName
  have since := (retains_prepare frame (.of_frame frame trivial at_) (fun _ => trivial) host
    now).of_ok prepared (since_refl frame rfl)
  have since' := (retains_attend frame (fun _ => trivial) at_ now.wall o).of_ok attended since
  exact ⟨since'.name, since'.store.data nodes⟩

section

variable [World W] {beats : Heartbeat.Registry}

theorem hears_settle (host : Daemon.Host) (now : Moment) (at_ : Float) :
    Retains (Hears beats) (settle host now at_ : Step W _) := by
  refine retains_bind (retains_modify fun s hs => ?_) fun _ => retains_get_bind fun s hs =>
    retains_bind (retains_set (s := { s with world := (pollAll s.running s.world).2 }) hs)
      (fun _ => ?_) s hs
  · have loaded := hears_reloadSettings (loadSettings host s.world) s.daemon hs
    unfold Daemon.Step.after at loaded
    cases result : Daemon.reloadSettings (loadSettings host s.world) s.daemon <;>
      rw [result] at loaded <;> exact loaded
  · induction (pollAll s.running s.world).1 with
    | nil => exact retains_pure _
    | cons e ended ih =>
      obtain ⟨service, code⟩ := e
      unfold completeAll
      refine retains_get fun s => ?_
      split
      · exact ih
      · refine retains_bind (retains_modify fun _ ht => ht) fun _ =>
          retains_bind (retains_get fun s => retains_get fun t => ?_) fun _ =>
            retains_bind ih fun _ => retains_pure _
        exact retains_bind (retains_onDaemon (hears_mutate _)) fun _ =>
          retains_bind (retains_submit _ _) fun _ => retains_bind (retains_emit _) fun _ =>
            retains_when_emit _ fun _ => retains_pure _

theorem hears_ingest (now : Float) : Retains (Hears beats) (ingest now : Step W Unit) := by
  refine retains_get fun s => retains_bind (retains_forM fun q _ => retains_submit now q) fun _ =>
    retains_get fun t => retains_bind (retains_modify fun _ hs => hs) fun _ =>
      retains_forM fun r _ => ?_
  rw [ingestOne_eq]
  split
  · exact retains_onDaemon (hears_postStatus _ _)
  · exact retains_pure _

/-- Who is alive in a round is who beats when it begins. -/
theorem live_prepared {host : Daemon.Host} {now : Moment}
    (prepared : prepare host now at_ s = .ok o t) :
    o.live = s.daemon.heartbeats.beating now.steady := by
  rw [prepare_eq] at prepared
  obtain ⟨done, u, settled, surveyed⟩ := bind_eq_ok prepared
  rw [survey_eq] at surveyed
  obtain ⟨seen, w, looked, decided⟩ := bind_eq_ok surveyed
  rw [get_bind] at decided
  obtain ⟨node, x, -, rest⟩ := bind_eq_ok decided
  cases rest
  obtain ⟨_, y, ingested, found⟩ := bind_eq_ok (σ := Monitor W) looked
  cases found
  have heard : y.daemon.heartbeats = s.daemon.heartbeats :=
    (hears_ingest now.wall).of_ok ingested ((hears_settle host now at_).of_ok settled rfl)
  exact congrArg (·.beating now.steady) heard

end

/-- Dropping a copy is purging its peer. -/
theorem onDaemon_purge {peer : String} {x : PUnit}
    (run : (onDaemon (Daemon.purge peer) : Step W PUnit) s = .ok x t) :
    t.daemon.follower = s.daemon.follower.purge peer
      ∧ t.daemon.nodeName = s.daemon.nodeName ∧ t.daemon.settings = s.daemon.settings := by
  obtain ⟨met, name, settings⟩ : t.daemon = s.daemon.meet (.purge peer)
      ∧ t.daemon.nodeName = s.daemon.nodeName ∧ t.daemon.settings = s.daemon.settings := by
    unfold onDaemon Daemon.purge at run
    unfold Daemon.meet Daemon.Step.after Daemon.purge
    dsimp only at run ⊢
    generalize s.daemon.peers.purge s.daemon.store peer = purged at run ⊢
    obtain ⟨result, table, store⟩ := purged
    cases result with
    | error e => cases run
    | ok =>
      cases run
      exact ⟨rfl, rfl, rfl⟩
  refine ⟨?_, name, settings⟩
  rw [met, Daemon.follower_meet]
  rfl

/-- So is dropping copies one after the other. -/
theorem forM_purge {peers : List String} {x : PUnit}
    (run : (peers.forM fun p => onDaemon (Daemon.purge p) : Step W PUnit) s = .ok x s') :
    s'.daemon.follower = s.daemon.follower.meetAll (peers.map .purge)
      ∧ s'.daemon.nodeName = s.daemon.nodeName ∧ s'.daemon.settings = s.daemon.settings := by
  induction peers generalizing s with
  | nil =>
    cases run
    exact ⟨rfl, rfl, rfl⟩
  | cons p peers ih =>
    obtain ⟨_, t, first, rest⟩ := bind_eq_ok (σ := Monitor W) run
    obtain ⟨follower, name, settings⟩ := ih rest
    obtain ⟨purged, name', settings'⟩ := onDaemon_purge first
    rw [follower, name, settings, purged, name', settings']
    exact ⟨rfl, rfl, rfl⟩

/-! ## Who is dropped -/

/-- A peer has announced maintenance, as far as its record can be read, and that is less
than a time ago. -/
def Away (blob : Value) (at_ grace : Float) : Prop :=
  ∃ x m, blob.get? "monitor" = some x ∧ Decode.ofValue Node.Monitor.decode x = .ok m
    ∧ m.state = .maintenance ∧ at_ - m.stateSince < grace

/-- A record that is missing or malformed counts as that of a node that has just started,
so it does not keep a copy. -/
theorem isAway_iff {blob : Value} {grace : Float} :
    isAway blob at_ grace = true ↔ Away blob at_ grace := by
  show (((Node.Data.recordAt Node.Monitor.decode blob "monitor" Node.Monitor.blank).state
      = .maintenance && at_ - (Node.Data.recordAt Node.Monitor.decode blob "monitor"
        Node.Monitor.blank).stateSince < grace) = true) ↔ _
  unfold Node.Data.recordAt Away
  cases blob.get? "monitor" with
  | none => simp [Node.Monitor.blank]
  | some x =>
    cases decoded : Decode.ofValue Node.Monitor.decode x with
    | error e => simp [decoded, Except.toOption, Node.Monitor.blank]
    | ok m => simp [decoded, Except.toOption]

section

variable {d : Daemon} {live : List String} {n : String}

/-- The blobs of all nodes, as their mapping has them. -/
theorem blobs_eq {v : Value} {m : Entries Value} (there : v.lookup Layout.nodes = some (.map m)) :
    View.blobs v = m := by
  unfold View.blobs
  rw [get?_eq_lookup, show ∀ o : Option Value, (o.bind fun c => c.get? "nodes")
    = o.bind fun c => c.lookup [.key "nodes"] from fun o => Option.bind_congr fun c _ =>
      get?_eq_lookup c "nodes", ← lookup_append]
  show ((v.lookup Layout.nodes).bind asMap?).getD [] = m
  rw [there]
  rfl

/-- **The peers to drop** have a copy, do not beat, and are not away. -/
theorem mem_downPeers (nodes : HasMapping d.store.data Layout.nodes) :
    n ∈ downPeers d live at_ ↔ ∃ blob, d.store.copyOf n = some blob ∧ n ≠ d.nodeName ∧ n ∉ live
      ∧ ¬ Away blob at_ d.settings.rejoinGrace.toSeconds := by
  obtain ⟨m, there, sorted⟩ := nodes
  have found (blob : Value) : (n, blob) ∈ m ↔ d.store.copyOf n = some blob := by
    rw [Store.copyOf_eq_get? there]
    exact ⟨sorted.get?_of_mem, Entries.mem_of_get?⟩
  unfold downPeers
  rw [blobs_eq there]
  simp only [List.mem_map, List.mem_filter, Bool.and_eq_true, decide_eq_true_eq,
    Bool.not_eq_true', ← Bool.not_eq_true, isAway_iff, List.contains_iff_mem, and_assoc]
  constructor
  · rintro ⟨⟨_, blob⟩, mem, other, dead, away, rfl⟩
    exact ⟨blob, (found blob).1 mem, other, dead, away⟩
  · rintro ⟨blob, copy, other, dead, away⟩
    exact ⟨(n, blob), (found blob).2 copy, other, dead, away, rfl⟩

/-- No peer is dropped twice. -/
theorem nodup_downPeers (nodes : HasMapping d.store.data Layout.nodes) :
    (downPeers d live at_).Nodup := by
  obtain ⟨m, there, sorted⟩ := nodes
  unfold downPeers
  rw [blobs_eq there]
  exact (Node.Blob.nodup_keys sorted).sublist (List.filter_sublist.map Prod.fst)

end

/-! ## What is left of a round -/

/-- The blob of the node is there once it is stamped, and no copy of a peer is touched by
that. -/
theorem copyOf_stamp {running : Nat} {x : Store} {y : Store}
    (run : Node.Blob.stamp node running at_ x = .ok () y) :
    (y.copyOf node).isSome ∧ ∀ n, n ≠ node → y.copyOf n = x.copyOf n := by
  refine ⟨?_, fun n ne => ?_⟩
  · unfold Node.Blob.stamp at run
    obtain ⟨_, t, -, rest⟩ := bind_eq_ok run
    obtain ⟨_, u, set, done⟩ := bind_eq_ok rest
    cases done
    have there : y.data.lookup (Layout.node node ++ [.key "updated"]) = some (.float at_) :=
      Store.lookup_of_set set
    rw [lookup_append] at there
    unfold Store.copyOf
    cases own : y.data.lookup (Layout.node node) with
    | some blob => rfl
    | none =>
      rw [own] at there
      cases there
  · have framed := Node.Blob.framed_stamp (Node.Blob.frame_copy ne) (.key (by decide) (by decide))
      (.key (by decide) (by decide)) running at_ x
    rw [Mutation.after_of_ok run] at framed
    exact framed.data

/-- What is left of a round drops the peers that are down, and nothing else. -/
theorem concluded_purge {u : Monitor W} {done : List Action × List (String × DataError)}
    {r : Report} (nodes : HasMapping u.daemon.store.data Layout.nodes)
    (run : conclude at_ o done u = .ok r s') :
    r.purged = downPeers u.daemon o.live at_ ∧ s'.daemon.settings = u.daemon.settings
      ∧ (s'.daemon.store.copyOf u.daemon.nodeName).isSome
      ∧ (∀ n, n ≠ u.daemon.nodeName → s'.daemon.store.copyOf n
        = if n ∈ r.purged then none else u.daemon.store.copyOf n)
      ∧ ∀ n ∈ r.purged, n ≠ u.daemon.nodeName → Forgotten n s'.daemon.follower := by
  have frame := Node.Blob.frame_nodes u.daemon.nodeName
  obtain ⟨m', there', -⟩ := ((retains_conclude frame (fun _ _ => trivial) at_ o done).of_ok run
    (since_refl frame rfl)).store.data nodes
  obtain ⟨t, purged, tidied, rfl, rfl⟩ := conclude_eq_ok run
  unfold tidy at tidied
  obtain ⟨_, v, dropped, rest⟩ := bind_eq_ok tidied
  unfold purgeDownPeers at dropped
  rw [get_bind] at dropped
  obtain ⟨_, _, forgot, answered⟩ := bind_eq_ok (σ := Monitor W) dropped
  cases answered
  obtain ⟨follower, name, settings⟩ := forM_purge forgot
  rw [get_bind, get_bind] at rest
  obtain ⟨⟨⟩, w, stamped, ended⟩ := bind_eq_ok (σ := Monitor W) rest
  obtain ⟨store, stamp, rfl⟩ := exists_store_of_mutate stamped
  obtain ⟨same, rfl⟩ := EStateM.Result.ok.inj ended
  obtain ⟨rfl, -⟩ := Prod.mk.inj same
  rw [name] at stamp
  obtain ⟨own, others⟩ := copyOf_stamp stamp
  obtain ⟨m, there, -⟩ := nodes
  obtain ⟨-, copies, forgotten⟩ := copyOf_purgeAll (x := u.daemon.follower) ⟨m, there⟩
    (downPeers u.daemon o.live at_)
  rw [← follower] at copies forgotten
  refine ⟨rfl, settings, own, fun n ne => (others n ne).trans (copies n), fun n down ne => ?_⟩
  obtain ⟨-, gone, trust⟩ := forgotten n down
  exact ⟨⟨m', there'⟩, (others n ne).trans gone, trust⟩

/-! ## The rounds of a run -/

variable [World W] {allowed : Request → Prop} {ts : List (Turn W)}

/-- The mapping of the copies is there on every run. -/
theorem Course.hasNodes (run : Course allowed s ts s')
    (nodes : HasMapping s.daemon.store.data Layout.nodes) :
    HasMapping s'.daemon.store.data Layout.nodes := by
  induction run with
  | refl => exact nodes
  | @outside t _ _ _ step ih =>
    cases step with
    | request now _ =>
      have frame := Node.Blob.frame_nodes t.daemon.nodeName
      exact (Daemon.since_serve frame (.of_frame frame trivial now.wall) (fun _ _ _ => trivial)
        (fun _ _ _ => trivial) _ (since_refl frame rfl)).store.data ih
    | aside _ data =>
      rw [data]
      exact ih
  | round t _ ih =>
    have frame := Node.Blob.frame_nodes t.before.daemon.nodeName
    have since := retains_round frame (.of_frame frame trivial t.at_) (fun _ => trivial)
      (fun _ _ => trivial) t.host t.now t.before (since_refl frame rfl)
    rw [t.step_after] at since
    exact since.store.data ih

/-- What a round leaves of the peers. -/
structure Turn.Sweeps (t : Turn W) (r : Report) : Prop where
  /-- Whoever has a copy left is the node itself, beats, or is away. -/
  kept (n : String) (blob : Value) : t.after.daemon.store.copyOf n = some blob →
    n = t.before.daemon.nodeName ∨ n ∈ t.before.daemon.heartbeats.beating t.now.steady
      ∨ Away blob t.at_ t.after.daemon.settings.rejoinGrace.toSeconds
  /-- Who is purged had a copy, and has none any more. -/
  purged (n : String) : n ∈ r.purged ↔ (t.before.daemon.store.copyOf n).isSome
    ∧ t.after.daemon.store.copyOf n = none
  once : r.purged.Nodup
  /-- Neither the node itself nor one that beats is purged. -/
  spared : t.before.daemon.nodeName ∉ r.purged
    ∧ ∀ n ∈ t.before.daemon.heartbeats.beating t.now.steady, n ∉ r.purged
  /-- Who is purged stays away until a full message comes in. -/
  forgotten (n : String) : n ∈ r.purged → ∀ es, (∀ m ∈ messagesFrom n es, ¬ m.IsFull) →
    (t.after.daemon.meetAll es).store.copyOf n = none

/-- What a round does to the copies: it drops those of the peers that it reports, and these are
the ones that neither beat nor are away. -/
structure Turn.Drops (t : Turn W) (r : Report) : Prop where
  own : (t.after.daemon.store.copyOf t.before.daemon.nodeName).isSome
  copies (n : String) : n ≠ t.before.daemon.nodeName → t.after.daemon.store.copyOf n
    = if n ∈ r.purged then none else t.before.daemon.store.copyOf n
  down (n : String) : n ∈ r.purged ↔ ∃ blob, t.before.daemon.store.copyOf n = some blob
    ∧ n ≠ t.before.daemon.nodeName ∧ n ∉ t.before.daemon.heartbeats.beating t.now.steady
    ∧ ¬ Away blob t.at_ t.after.daemon.settings.rejoinGrace.toSeconds
  once : r.purged.Nodup
  forgotten (n : String) : n ∈ r.purged → Forgotten n t.after.daemon.follower

/-- **A round drops the copies** of the peers that are down, if the mapping of the copies is
there. -/
theorem Turn.drops {t : Turn W} {r : Report}
    (nodes : HasMapping t.before.daemon.store.data Layout.nodes) (done : t.report? = some r) :
    t.Drops r := by
  obtain ⟨s', run⟩ : ∃ s', round t.host t.now t.at_ t.before = .ok r s' := by
    unfold Turn.report? at done
    split at done
    · next run =>
      cases done
      exact ⟨_, run⟩
    · cases done
  have after := Turn.after_eq run
  rw [round_eq] at run
  obtain ⟨o, u, prepared, rest⟩ := bind_eq_ok run
  obtain ⟨attended, v, orchestrated, concluded⟩ := bind_eq_ok rest
  obtain ⟨name, nodes'⟩ := hasNodes_attended prepared orchestrated nodes
  have before {n : String} (ne : n ≠ t.before.daemon.nodeName) :
      v.daemon.store.copyOf n = t.before.daemon.store.copyOf n :=
    copyOf_attended ne prepared orchestrated
  obtain ⟨purged, settings, own, copies, forgotten⟩ := concluded_purge nodes' concluded
  rw [name] at own copies forgotten
  rw [← after] at own copies forgotten settings
  have down (n : String) : n ∈ r.purged ↔ ∃ blob, t.before.daemon.store.copyOf n = some blob
      ∧ n ≠ t.before.daemon.nodeName ∧ n ∉ t.before.daemon.heartbeats.beating t.now.steady
      ∧ ¬ Away blob t.at_ t.after.daemon.settings.rejoinGrace.toSeconds := by
    rw [purged, mem_downPeers nodes', name, live_prepared prepared, settings]
    refine exists_congr fun blob => and_congr_left fun ⟨ne, _⟩ => ?_
    rw [before ne]
  refine ⟨own, fun n ne => ?_, down, purged ▸ nodup_downPeers nodes', fun n mem => ?_⟩
  · rw [copies n ne, before ne]
  · obtain ⟨-, -, ne, -⟩ := (down n).1 mem
    exact forgotten n mem ne

/-- A round that drops the copies of the peers that are down sweeps the peers. -/
theorem Turn.Drops.sweeps {t : Turn W} {r : Report} (h : t.Drops r) : t.Sweeps r := by
  constructor
  case kept =>
    intro n blob copy
    by_cases ne : n = t.before.daemon.nodeName
    · exact .inl ne
    · rw [h.copies n ne] at copy
      split at copy
      · cases copy
      · next spared =>
        by_contra! hidden
        exact spared ((h.down n).2 ⟨blob, copy, ne, hidden.2.1, hidden.2.2⟩)
  case purged =>
    intro n
    constructor
    · intro mem
      obtain ⟨blob, copy, ne, -⟩ := (h.down n).1 mem
      rw [h.copies n ne, if_pos mem, copy]
      exact ⟨rfl, rfl⟩
    · rintro ⟨had, gone⟩
      by_cases ne : n = t.before.daemon.nodeName
      · have own := h.own
        rw [← ne, gone] at own
        cases own
      · rw [h.copies n ne] at gone
        split at gone
        · next mem => exact mem
        · rw [gone] at had
          cases had
  case once => exact h.once
  case spared =>
    refine ⟨fun mem => ?_, fun n beats mem => ?_⟩
    · obtain ⟨-, -, other, -⟩ := (h.down _).1 mem
      exact other rfl
    · obtain ⟨-, -, -, dead, -⟩ := (h.down n).1 mem
      exact dead beats
  case forgotten =>
    intro n mem es patches
    have away := ((h.forgotten n mem).meetAll patches).copy
    rw [← Daemon.follower_meetAll] at away
    exact away

/-- **No ghosts of peers.** Whatever happened before to a monitor, and whoever spoke for
whom: after a round that succeeds there is a copy only of the node itself, of nodes that
beat and of nodes that have announced maintenance lately; the round reports as purged whose
copies it dropped; and these come back with full messages only. -/
theorem no_ghosts {settings : Daemon.Settings} {file : Option String} {start : Float} {w : W}
    {t : Turn W} {r : Report}
    (run : Course (fun _ => True) (new (Daemon.start settings file start) w) ts t.before)
    (done : t.report? = some r) : t.Sweeps r :=
  (t.drops (run.hasNodes (Daemon.wired_start settings file start).nodes) done).sweeps

namespace Script

/-- A message that carries a whole blob. -/
def whole (blob : Value) : Message := ⟨1, 0, .full blob⟩

/-- The node after two peers told it all about them. One of them is in maintenance. -/
def introduced : Monitor Simulation.World :=
  let hear (peer : String) (blob : Value) (s : Monitor Simulation.World) :=
    { s with daemon :=
      (Daemon.serve (Moment.ofMillis 0) (.peerMessage peer (whole blob))).after s.daemon }
  hear "n3" (.map [("monitor", .map [("status", .str "maintenance"), ("status_updated", .float 0)])])
    (hear "n2" Node.emptyBlob fresh)

/-- A round in which none of them beats. -/
def lonely : Turn Simulation.World :=
  ⟨⟨"n1", 0⟩, Moment.ofMillis 1000, (Moment.ofMillis 1000).wall, introduced⟩

theorem course_introduced : Course (fun _ => True) fresh [] introduced :=
  ((Course.refl fresh).outside (.request (Moment.ofMillis 0) trivial)).outside
    (.request (Moment.ofMillis 0) trivial)

end Script

open Script in
/-- The copy of the peer that is in maintenance is kept, the other is dropped. It comes back
with a full message. -/
theorem no_ghosts_lonely :
    ∃ r, lonely.report? = some r ∧ r.purged = ["n2"]
      ∧ (lonely.after.daemon.store.copyOf "n3").isSome
      ∧ ((lonely.after.daemon.meetAll [.message "n2" (whole Node.emptyBlob)]).store.copyOf
        "n2").isSome
      ∧ lonely.Sweeps r := by
  have purged : lonely.report?.map Report.purged = some ["n2"] := by decide +kernel
  obtain ⟨r, done, dropped⟩ := Option.map_eq_some_iff.1 purged
  exact ⟨r, done, dropped, by decide +kernel, by decide +kernel, no_ghosts course_introduced done⟩

end Monitor

end HaCluster
