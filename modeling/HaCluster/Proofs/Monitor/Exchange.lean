import HaCluster.Proofs.Daemon.Ahead
import HaCluster.Proofs.Monitor.Playback

/-!
# A node and one that follows it

A monitor publishes what its node does, and another node follows it (`Exchange`). The
messages between them may be lost, delayed, repeated and reordered, and both nodes go on
with what else they do. The monitor and the follower are the two ends of a link, of which
every step keeps the invariant (`Next.advance`): a round goes on from the head of which
it cuts a patch (`Played.ahead`), and so does what is asked of the daemon.

Whenever the monitor publishes, by a round, a broadcast or a full message, it leaves
nothing behind (`Issued`). So what its head has kept since it published last is in the
copy of every follower that is abreast of what was published (`abreast_shows`).
-/

namespace HaCluster

open Value

namespace Monitor

open Daemon (Ahead concerns_ahead ahead_mutate ahead_purge)
open Replication

variable {W : Type} {node : String} {s s' : Monitor W}

/-! ## Rounds -/

theorem sorted_document {r : Status.Refreshed} {new : Entries Value}
    (sorted : ∀ v, r.reading = .ok (some v) → v.Sorted) (document : r.document? = some new) :
    ∀ e ∈ new, e.2.Sorted := by
  unfold Status.Refreshed.document? at document
  split at document
  · next doc reading =>
    have each : ∀ e ∈ doc, e.2.Sorted := (everywhere_map.1 (sorted _ reading)).2
    obtain rfl := Option.some.inj document
    split
    · exact each
    · intro e he
      rcases Entries.mem_of_mem_insert he with rfl | he
      · exact trivial
      · exact each e he
  · cases document

variable [World W] {t : Turn W}

/-- The mappings in the statuses that a round takes in are sorted. -/
def Turn.Sorted (t : Turn W) : Prop :=
  ∀ r ∈ t.taken, ∀ v, r.reading = .ok (some v) → v.Sorted

/-- **A round goes on** from the store that it finds to the one of which it cuts its
patches. -/
theorem Played.ahead (play : Played node t)
    (journal : t.before.daemon.store.journal = some (Daemon.journalOf node))
    (sorted : t.before.daemon.store.data.Sorted) (taken : t.Sorted) :
    ∃ d, Ahead node t.before.daemon.store t.before.daemon.publisher d
      ∧ t.after.daemon = (d.nextPatches t.at_).2
      ∧ play.report.outgoing = (d.nextPatches t.at_).1 := by
  let P := Ahead node t.before.daemon.store t.before.daemon.publisher
  have concerns : Daemon.Concerns node P := concerns_ahead
  have ended (a : Action) (success : Bool) : Daemon.Preserves P
      (Daemon.mutate (Node.Blob.updateInstanceMonitor node a.path t.at_ (outcome a success))) :=
    ahead_mutate (Node.Blob.recorded_updateInstanceMonitor node a.path t.at_ fun m h => by
      unfold outcome
      dsimp only
      split <;> exact h)
  have start : P t.before.daemon := Daemon.ahead_refl play.soundBefore.daemon.name journal sorted
  have settled : P t.settled.daemon :=
    (concerns.settle ended t.host t.now).of_ok play.settles start
  have read : t.taken = readings t.now.wall t.settled := by
    unfold Turn.taken
    rw [play.settles]
  have seen : P play.scene.daemon := by
    rw [← Step.after_of_ok play.looks]
    refine concerns.look_after settled fun r hr new document => ?_
    exact ahead_mutate (Node.Blob.recorded_replaceStatus node r.service
      (sorted_document (taken r (read ▸ hr)) document))
  have decided : P play.ready.daemon :=
    (concerns.evaluateNode (fun b => ahead_mutate (Node.Blob.recorded_setFrozen node b t.at_))
      fun d => ahead_mutate (Node.Blob.recorded_updateMonitor node t.at_ (noted d))).of_ok
        play.decides seen
  have attended : P play.done.daemon := by
    rw [← Step.after_of_ok play.attends]
    refine concerns.attend (fun a => ended a false) (fun q d => ?_) (fun _ q _ => ?_) decided
    · exact ahead_mutate (Node.Blob.recorded_updateInstanceMonitor node q t.at_ fun m h =>
        retries_after_decision h (fun key _ => h.insert _ _) fun l key h => h.erase key)
    · exact ahead_mutate (Node.Blob.recorded_dropInstance node q)
  obtain ⟨u, _, tidied, left, reported⟩ := conclude_eq_ok play.concludes
  refine ⟨u.daemon, ?_, by rw [left], by rw [reported]⟩
  exact (concerns.tidy (fun peer _ => ahead_purge peer)
    (fun n => ahead_mutate (Node.Blob.recorded_stamp node n t.at_)) play.outlook).of_ok tidied
      attended

/-! ## Exchanges -/

/-- A monitor, every message that it has published, and one that follows its node. -/
structure Exchange (W : Type) where
  monitor : Monitor W
  sent : List Message
  /-- How often the monitor has published. -/
  editions : Nat
  follower : Follower

namespace Exchange

variable (x : Exchange W)

/-- What the journal of the node has at its head. -/
def head : Option Value := x.monitor.daemon.store.journalHead

/-- The monitor publishes messages. -/
def publish (s : Monitor W) (ms : List Message) : Exchange W :=
  { x with monitor := s, sent := x.sent ++ ms, editions := x.editions + 1 }

/-- A round of the monitor. -/
def turn (host : Daemon.Host) (now : Moment) (at_ : Float) : Turn W := ⟨host, now, at_, x.monitor⟩

/-- The monitor plays a round. One that fails publishes nothing. -/
def round (host : Daemon.Host) (now : Moment) (at_ : Float) : Exchange W :=
  let t := x.turn host now at_
  match t.report? with
  | some r => x.publish t.after r.outgoing
  | none => { x with monitor := t.after }

/-- Somebody asks something of the daemon. Who asks for the whole blob is sent it. -/
def request (now : Moment) (r : Request) : Exchange W :=
  let s : Monitor W := { x.monitor with daemon := (Daemon.serve now r).after x.monitor.daemon }
  match r with
  | .fullSync => x.publish s [(x.monitor.daemon.fullMessage now.wall).1]
  | _ => { x with monitor := s }

/-- The monitor broadcasts what there is to broadcast. -/
def broadcast (now : Float) : Exchange W :=
  let (ms, d) := x.monitor.daemon.nextPatches now
  x.publish { x.monitor with daemon := d } ms

/-- The monitor makes a full message. -/
def full (now : Float) : Exchange W :=
  let (m, d) := x.monitor.daemon.fullMessage now
  x.publish { x.monitor with daemon := d } [m]

/-- The follower takes a message in. -/
def deliver (node : String) (m : Message) : Exchange W :=
  { x with follower := (x.follower.take node m).2 }

/-- The link between the node and the follower, with the heads that were noted down. -/
def link (heads : List (Option Value)) : Link where
  sender := x.monitor.daemon.store
  publisher := x.monitor.daemon.publisher
  table := x.follower.table
  receiver := x.follower.store
  sent := x.sent
  heads := heads

/-- The follower is in step, and no message that was published is ahead of its copy. -/
def Abreast (node : String) : Prop :=
  ∃ k, x.follower.table.trust node = .inSync k ∧ ∀ m ∈ x.sent, m.id ≤ k

end Exchange

open Exchange in
/-- What can happen next in an exchange, if only some requests are made and the
follower knows the node under some name. -/
inductive Exchange.Next (node : String) (allowed : Request → Prop) :
    Exchange W → Exchange W → Prop
  | round {x : Exchange W} {host : Daemon.Host} {now : Moment} {at_ : Float}
    (finite : at_.isFinite = true) (sorted : (x.turn host now at_).Sorted) :
    Next node allowed x (x.round host now at_)
  | request {x : Exchange W} {now : Moment} {r : Request} (made : allowed r)
    (finite : now.wall.isFinite = true) (sorted : r.Sorted) :
    Next node allowed x (x.request now r)
  | broadcast {x : Exchange W} (now : Float) : Next node allowed x (x.broadcast now)
  | full {x : Exchange W} (now : Float) : Next node allowed x (x.full now)
  /-- Anything that leaves the store, the publisher, the name of the node and the table of
  running actions alone: peers beat, other settings come into force, workers read
  statuses, processes go on and end. -/
  | aside {x : Exchange W} {s : Monitor W} (name : s.daemon.nodeName = x.monitor.daemon.nodeName)
    (store : s.daemon.store = x.monitor.daemon.store)
    (publisher : s.daemon.publisher = x.monitor.daemon.publisher)
    (running : s.running = x.monitor.running) : Next node allowed x { x with monitor := s }
  /-- Any message that was published reaches the follower. -/
  | deliver {x : Exchange W} {m : Message} (sent : m ∈ x.sent) :
    Next node allowed x (x.deliver node m)
  /-- One that had anything else of the node, be it of an earlier life of it, follows it
  from a full message on. -/
  | join {x : Exchange W} {y : Follower} {m : Message} {blob : Value} (nodes : y.store.HasNodes)
    (sent : m ∈ x.sent) (full : m.payload = .full blob) :
    Next node allowed x { x with follower := (y.take node m).2 }
  | purge {x : Exchange W} : Next node allowed x { x with follower := x.follower.purge node }
  /-- The follower does something else, which leaves the copy, the trust in it and the
  mapping with all copies alone. -/
  | elsewhere {x : Exchange W} {y : Follower}
    (trust : y.table.trust node = x.follower.table.trust node)
    (copy : y.store.copyOf node = x.follower.store.copyOf node) (nodes : y.store.HasNodes) :
    Next node allowed x { x with follower := y }

/-! ## What is published -/

/-- Some messages bring a copy up to a patch. -/
def Reaches (ms : List Message) (k : Nat) : Prop := k = 0 ∨ ∃ m ∈ ms, m.id = k

theorem Reaches.mono {ms ms' : List Message} {k : Nat} (h : Reaches ms k)
    (sub : ∀ m ∈ ms, m ∈ ms') : Reaches ms' k :=
  h.imp id fun ⟨m, hm, id⟩ => ⟨m, sub m hm, id⟩

/-- A broadcast brings a copy up to the last patch that was cut. -/
theorem reaches_nextPatches {d : Daemon} {sent : List Message}
    (h : Reaches (sent ++ d.publisher.unsent) d.publisher.lastId) (now : Float) :
    Reaches (sent ++ (d.nextPatches now).1) (d.nextPatches now).2.publisher.lastId := by
  unfold Daemon.nextPatches Publisher.nextPatches Publisher.cut Store.popJournal
  cases d.store.queue with
  | nil =>
    show Reaches (sent ++ (d.publisher.unsent ++ [])) d.publisher.lastId
    rwa [List.append_nil]
  | cons f fs =>
    refine .inr ⟨⟨d.publisher.lastId + 1, now, .patch (f :: fs)⟩, ?_, rfl⟩
    exact List.mem_append_right _ (List.mem_append_right _ (List.mem_singleton_self _))

/-- So does a full message. -/
theorem reaches_fullMessage (d : Daemon) (sent : List Message) (now : Float) :
    Reaches (sent ++ [(d.fullMessage now).1]) (d.fullMessage now).2.publisher.lastId :=
  .inr ⟨_, List.mem_append_right _ (List.mem_singleton_self _), rfl⟩

namespace Exchange

variable {x y z : Exchange W} {heads : List (Option Value)} {allowed : Request → Prop}

section

omit [World W]

/-- Nothing is left to be published. -/
structure Issued (x : Exchange W) : Prop where
  queue : x.monitor.daemon.store.queue = []
  reaches : Reaches x.sent x.monitor.daemon.publisher.lastId

/-- **The invariant of an exchange**, whose heads at the cuts are noted down. -/
structure Faithful (node : String) (heads : List (Option Value)) (x : Exchange W) : Prop where
  bound : Bound node (Daemon.journalOf node) (x.link heads)
  reaches : Reaches (x.sent ++ x.monitor.daemon.publisher.unsent)
    x.monitor.daemon.publisher.lastId

/-- The head that is noted down if a patch is cut between two states. -/
def noted (x y : Exchange W) : List (Option Value) :=
  if x.monitor.daemon.publisher.lastId < y.monitor.daemon.publisher.lastId then [y.head] else []

/-- What a step of an exchange comes to: the head at a cut is noted down, and whatever is
published is published as a whole. -/
structure Advance (node : String) (heads : List (Option Value)) (x y : Exchange W) : Prop where
  faithful : Faithful node (heads ++ noted x y) y
  sent : ∀ m ∈ x.sent, m ∈ y.sent
  issued : y.editions = x.editions ∨ y.Issued

theorem eq_head_of_mem_noted {a : Option Value} (mem : a ∈ noted x y) : a = y.head := by
  unfold noted at mem
  split at mem
  · exact List.mem_singleton.1 mem
  · cases mem

theorem noted_of_eq (same : y.monitor.daemon.publisher = x.monitor.daemon.publisher) :
    noted x y = [] := by
  unfold noted
  rw [same, if_neg (Nat.lt_irrefl _)]

/-- Where nothing is left to be published, the head at the last cut is the head now. -/
theorem Faithful.level (h : Faithful node heads x) (issued : x.Issued) {i : Nat} {a : Option Value}
    (last : x.monitor.daemon.publisher.lastId ≤ i) (there : heads[i]? = some a) :
    a.map plain = x.head.map plain := by
  obtain ⟨b, hb, leads⟩ := h.bound.sender.pending
  have count : heads.length = x.monitor.daemon.publisher.lastId + 1 := h.bound.sender.count
  obtain ⟨short, -⟩ := List.getElem?_eq_some_iff.1 there
  obtain rfl : i = x.monitor.daemon.publisher.lastId := by omega
  obtain rfl := Option.some.inj (hb.symm.trans there)
  rw [show (x.link heads).sender.queue = [] from issued.queue] at leads
  exact leads_nil.1 leads

/-- The monitor goes on, and publishes nothing. -/
theorem Faithful.goes (h : Faithful node heads x) {s : Monitor W}
    (ahead : Ahead node x.monitor.daemon.store x.monitor.daemon.publisher s.daemon) :
    Faithful node heads { x with monitor := s } := by
  have went := h.bound.advance ahead.level
  have reaches := h.reaches
  rw [← ahead.publisher] at reaches
  refine ⟨?_, reaches⟩
  unfold link at went ⊢
  rw [ahead.publisher]
  exact went

/-- **A broadcast** leaves nothing to be published. -/
theorem Faithful.broadcast (h : Faithful node heads x) {now : Float} {s : Monitor W}
    (daemon : s.daemon = (x.monitor.daemon.nextPatches now).2) :
    Advance node heads x (x.publish s (x.monitor.daemon.nextPatches now).1) := by
  have bound := h.bound.broadcast now
  have reaches := reaches_nextPatches h.reaches now
  cases s
  cases daemon
  refine ⟨⟨bound, ?_⟩, fun m hm => List.mem_append_left _ hm, .inr ⟨rfl, reaches⟩⟩
  exact reaches.mono fun m hm => List.mem_append_left _ hm

/-- **A full message** leaves nothing to be published to the one it is for. -/
theorem Faithful.full (h : Faithful node heads x) {now : Float} {s : Monitor W}
    (store : s.daemon.store = (x.monitor.daemon.fullMessage now).2.store)
    (publisher : s.daemon.publisher = (x.monitor.daemon.fullMessage now).2.publisher) :
    Advance node heads x (x.publish s [(x.monitor.daemon.fullMessage now).1]) := by
  have bound := h.bound.full now
  have reaches := reaches_fullMessage x.monitor.daemon x.sent now
  obtain ⟨d, _, _, _, _⟩ := s
  cases d
  cases store
  cases publisher
  refine ⟨⟨bound, ?_⟩, fun m hm => List.mem_append_left _ hm, .inr ⟨rfl, reaches⟩⟩
  exact reaches.mono fun m hm => List.mem_append_left _ hm

/-- A step at which nothing is published. -/
theorem Faithful.advance (h : Faithful node heads y)
    (publisher : y.monitor.daemon.publisher = x.monitor.daemon.publisher) (sent : y.sent = x.sent)
    (editions : y.editions = x.editions) : Advance node heads x y where
  faithful := by
    rw [noted_of_eq publisher, List.append_nil]
    exact h
  sent _ hm := sent ▸ hm
  issued := .inl editions

/-- The monitor that a request leaves. -/
theorem monitor_request (x : Exchange W) (now : Moment) (r : Request) :
    (x.request now r).monitor
      = { x.monitor with daemon := (Daemon.serve now r).after x.monitor.daemon } := by
  cases r <;> rfl

/-- Only a request for the whole blob publishes something. -/
theorem request_eq (x : Exchange W) (now : Moment) {r : Request} (unpublished : r ≠ .fullSync) :
    x.request now r = { x with
      monitor := { x.monitor with daemon := (Daemon.serve now r).after x.monitor.daemon } } := by
  cases r with
  | fullSync => exact absurd rfl unpublished
  | _ => rfl

end

theorem monitor_round (x : Exchange W) (host : Daemon.Host) (now : Moment) (at_ : Float) :
    (x.round host now at_).monitor = (x.turn host now at_).after := by
  unfold round
  dsimp only
  split <;> rfl

/-! ## Steps -/

section

variable (foreign : ∀ r, allowed r → r.Foreign node)

include foreign

/-- A step leaves the monitor sound. -/
theorem Next.sound (next : Next node allowed x y)
    (h : Sound Node.Blob.anything node x.monitor) : Sound Node.Blob.anything node y.monitor := by
  have rule := Node.Blob.rule_anything
  cases next with
  | @round host now at_ =>
    rw [monitor_round]
    obtain ⟨-, -, -, -, -, -, sound, -⟩ := h.turn (t := x.turn host now at_) rule
      (Turn.accepts_anything _)
    exact sound
  | request made =>
    rw [monitor_request]
    exact h.congr (Daemon.preserves_serve rule _ (foreign _ made)
      (fun p new _ => Node.Blob.accepts_anything p new) _ h.daemon) rfl
  | broadcast | full => exact h.congr ⟨h.daemon.name, h.daemon.shaped.congr rfl⟩ rfl
  | aside name store _ running =>
    exact h.congr ⟨name.trans h.daemon.name, h.daemon.shaped.congr (by rw [store])⟩ running
  | deliver | join | purge | elsewhere => exact h

/-- **A step keeps the invariant.** -/
theorem Next.advance (next : Next node allowed x y)
    (sound : Sound Node.Blob.anything node x.monitor) (h : Faithful node heads x) :
    Advance node heads x y := by
  have start : Ahead node x.monitor.daemon.store x.monitor.daemon.publisher x.monitor.daemon :=
    Daemon.ahead_refl sound.daemon.name h.bound.journal h.bound.sorted
  cases next with
  | @round host now at_ _ sorted =>
    obtain ⟨play⟩ := Sound.played (t := x.turn host now at_) sound
    obtain ⟨d, ahead, after, outgoing⟩ := play.ahead h.bound.journal h.bound.sorted sorted
    have went : Faithful node heads { x with monitor := { x.monitor with daemon := d } } :=
      h.goes ahead
    have sent := went.broadcast after
    have published : x.round host now at_
        = x.publish (x.turn host now at_).after (d.nextPatches at_).1 := by
      unfold Exchange.round
      dsimp only
      rw [play.report?]
      exact congrArg (x.publish (x.turn host now at_).after) outgoing
    have cut : d.publisher = x.monitor.daemon.publisher := ahead.publisher
    have faithful := sent.faithful
    unfold noted at faithful
    rw [cut] at faithful
    rw [published]
    exact ⟨faithful, sent.sent, sent.issued⟩
  | @request now r made _ sorted =>
    by_cases full : r = .fullSync
    · subst full
      exact h.full rfl rfl
    · have ahead := Daemon.ahead_serve now (foreign _ made) sorted full _ start
      rw [request_eq x now full]
      exact (h.goes (s := { x.monitor with daemon := _ }) ahead).advance ahead.publisher rfl rfl
  | broadcast now => exact h.broadcast rfl
  | full now => exact h.full rfl rfl
  | aside name store publisher _ =>
    exact (h.goes (concerns_ahead.congr start name store publisher)).advance publisher rfl rfl
  -- the node is left alone by what becomes of the follower
  | deliver sent => exact Faithful.advance ⟨h.bound.deliver sent, h.reaches⟩ rfl rfl rfl
  | @join y m blob nodes sent full =>
    have joined := h.bound.join (t := y.table) nodes full (h.bound.sent m sent)
    exact Faithful.advance ⟨joined, h.reaches⟩ rfl rfl rfl
  | purge => exact Faithful.advance ⟨h.bound.purge, h.reaches⟩ rfl rfl rfl
  | elsewhere trust copy nodes =>
    exact Faithful.advance ⟨h.bound.elsewhere trust copy nodes, h.reaches⟩ rfl rfl rfl

theorem run_sound (run : Relation.ReflTransGen (Next node allowed) x y)
    (h : Sound Node.Blob.anything node x.monitor) : Sound Node.Blob.anything node y.monitor := by
  induction run with
  | refl => exact h
  | tail _ next ih => exact next.sound foreign ih

/-- **What the head keeps is published.** If the heads have a property all along a run, so
do the heads from some cut on that every follower abreast has come to. -/
theorem run_faithful {C : Option Value → Prop}
    (plainly : ∀ {a b : Option Value}, a.map plain = b.map plain → C b → C a)
    (run : Relation.ReflTransGen (Next node allowed) x y)
    (sound : Sound Node.Blob.anything node x.monitor) (h : Faithful node heads x)
    (kept : ∀ u, Relation.ReflTransGen (Next node allowed) x u → C u.head) :
    ∃ later, Faithful node later y ∧ (x.editions < y.editions →
      ∃ k, Reaches y.sent k ∧ ∀ i a, k ≤ i → later[i]? = some a → C a) := by
  induction run with
  | refl => exact ⟨heads, h, fun more => absurd more (Nat.lt_irrefl _)⟩
  | @tail u y run next ih =>
    obtain ⟨later, faithful, had⟩ := ih
    have step := next.advance foreign (run_sound foreign run sound) faithful
    have here : C y.head := kept y (run.tail next)
    refine ⟨later ++ noted u y, step.faithful, fun more => ?_⟩
    rcases step.issued with same | issued
    · obtain ⟨k, reaches, heads⟩ := had (same ▸ more)
      refine ⟨k, reaches.mono step.sent, fun i a hi there => ?_⟩
      rw [List.getElem?_append] at there
      split at there
      · exact heads i a hi there
      · exact eq_head_of_mem_noted (List.mem_of_getElem? there) ▸ here
    · exact ⟨_, issued.reaches, fun i a hi there =>
        plainly (step.faithful.level issued hi there) here⟩

/-- **A follower that is abreast** has in its copy what the head has kept since before
the monitor last published. -/
theorem abreast_shows {C : Option Value → Prop}
    (plainly : ∀ {a b : Option Value}, a.map plain = b.map plain → C b → C a)
    (run : Relation.ReflTransGen (Next node allowed) x y)
    (sound : Sound Node.Blob.anything node x.monitor) (h : Faithful node heads x)
    (kept : ∀ u, Relation.ReflTransGen (Next node allowed) x u → C u.head)
    (published : x.editions < y.editions) (abreast : y.Abreast node) :
    ∃ a, C a ∧ Mirrors (y.follower.store.copyOf node) a := by
  obtain ⟨later, faithful, since⟩ := run_faithful foreign plainly run sound h kept
  obtain ⟨k, reaches, had⟩ := since published
  obtain ⟨i, trusted, upTo⟩ := abreast
  obtain ⟨a, ha, mirrors⟩ := faithful.bound.trusted i trusted
  refine ⟨a, had i a ?_ ha, mirrors⟩
  rcases reaches with rfl | ⟨m, hm, rfl⟩
  · exact Nat.zero_le i
  · exact upTo m hm

end

/-! ## Beginnings -/

/-- A node that has just started, and one that does not follow it yet. -/
def opening (settings : Daemon.Settings) (file : Option String) (start : Float) (w : W)
    (follower : Follower) : Exchange W :=
  ⟨new (Daemon.start settings file start) w, [], 0, follower⟩

omit [World W] in
theorem faithful_opening (settings : Daemon.Settings) (file : Option String) (start : Float)
    (w : W) {follower : Follower}
    (untrusted : follower.table.trust settings.nodeName = .untrusted)
    (nodes : follower.store.HasNodes) :
    ∃ heads, Faithful settings.nodeName heads (opening settings file start w follower) := by
  obtain ⟨keeps, -, sender⟩ := born_fresh settings file start
  refine ⟨_, ⟨keeps.journal, keeps.sorted, sender, fun m hm => ?_, nodes, fun k hk => ?_⟩, .inl rfl⟩
  · cases hm
  · cases untrusted.symm.trans hk

end Exchange

end Monitor

end HaCluster
