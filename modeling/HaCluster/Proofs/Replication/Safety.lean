import HaCluster.Replication.Publisher
import HaCluster.Proofs.Replication.Copy

/-!
# A trusted copy is a copy

One node edits its tree and publishes it, another one follows it. Between them
lies a network that may lose, delay, repeat and reorder everything: any message
ever produced may be taken in at any time. Along every run the receiver, as
long as it trusts its copy up to a patch, has exactly what the sender's head
was when that patch was cut, and the next patch in turn can be applied
(`in_step`).

The invariant ties three parties together. What is queued leads from the head
at the last cut to the head now; every patch, broadcast or not, leads from the
head at one cut to the head at the next; every full message has the head at the
cut that it names. The heads at the cuts are noted down along the run.
-/

namespace HaCluster.Replication

open Value Store

/-! ## Runs -/

/-- The sender, the receiver and every message produced so far. -/
structure Link where
  sender : Store
  publisher : Publisher
  table : PeerTable
  receiver : Store
  sent : List Message
  /-- The sender's head as it was at the start and after each cut. -/
  heads : List (Option Value)

namespace Link

/-- The sender broadcasts what it has to broadcast. -/
def broadcast (l : Link) (now : Float) : Link :=
  let (ms, p, s) := l.publisher.nextPatches l.sender now
  { l with
    sender := s
    publisher := p
    sent := l.sent ++ ms
    heads := l.heads ++ if l.publisher.lastId < p.lastId then [l.sender.journalHead] else [] }

/-- The sender makes a full message. -/
def full (l : Link) (now : Float) : Link :=
  let (m, p, s) := l.publisher.full l.sender now
  { l with
    sender := s
    publisher := p
    sent := l.sent ++ [m]
    heads := l.heads ++ if l.publisher.lastId < p.lastId then [l.sender.journalHead] else [] }

/-- The receiver takes a message in. -/
def deliver (l : Link) (peer : String) (m : Message) : Link :=
  let (_, t, s) := l.table.receive l.receiver peer m
  { l with table := t, receiver := s }

/-- The receiver forgets the sender. -/
def purge (l : Link) (peer : String) : Link :=
  let (_, t, s) := l.table.purge l.receiver peer
  { l with table := t, receiver := s }

end Link

/-- One step of a link whose sender the receiver knows as `peer`. -/
inductive Step (peer : String) : Link → Link → Prop
  /-- The sender edits its tree anywhere. -/
  | edit {l : Link} (e : Edit) (sorted : e.Given Value.Sorted) (numbers : e.Given NoNaN) :
    Step peer l { l with sender := e.perform l.sender }
  | broadcast {l : Link} (now : Float) : Step peer l (l.broadcast now)
  | full {l : Link} (now : Float) : Step peer l (l.full now)
  /-- Any message produced so far reaches the receiver. -/
  | deliver {l : Link} {m : Message} (sent : m ∈ l.sent) : Step peer l (l.deliver peer m)
  | purge {l : Link} : Step peer l (l.purge peer)
  /-- The receiver does something else, which leaves the copy, the trust in it
  and the mapping with all copies alone. -/
  | elsewhere {l : Link} {t : PeerTable} {s : Store} (trust : t.trust peer = l.table.trust peer)
    (copy : s.copyOf peer = l.receiver.copyOf peer) (nodes : s.HasNodes) :
    Step peer l { l with table := t, receiver := s }

/-- A link at its start: the sender has published nothing, and the receiver
trusts no copy of it. -/
structure Start (peer : String) (j : Journal) (l : Link) : Prop where
  journal : l.sender.journal = some j
  idle : l.sender.queue = []
  sorted : l.sender.data.Sorted
  numbers : l.sender.data.NoNaN
  publisher : l.publisher = Publisher.new
  untrusted : l.table.trust peer = .untrusted
  nodes : l.receiver.HasNodes
  sent : l.sent = []
  heads : l.heads = [l.sender.journalHead]

/-! ## Leading from one head to another -/

variable {a b c copy : Option Value} {fs gs : List Fragment}

/-- Fragments lead from one state of a node to another, up to the signs of
zeros. -/
def Leads (a : Option Value) (fs : List Fragment) (b : Option Value) : Prop :=
  followAll? (a.map plain) (fs.map Fragment.plain) = some (b.map plain)

theorem leads_nil : Leads a [] b ↔ a.map plain = b.map plain := by
  show some (a.map plain) = some (b.map plain) ↔ _
  rw [Option.some.injEq]

theorem Leads.append (h : Leads a fs b) (h' : Leads b gs c) : Leads a (fs ++ gs) c := by
  unfold Leads at *
  rw [List.map_append, followAll?_append, h, Option.bind_some, h']

theorem Leads.congr_left (h : Leads a fs b) (e : a.map plain = c.map plain) :
    Leads c fs b := by
  unfold Leads at *
  rw [← e, h]

theorem getD_plain (a : Option Value) (d : Value) :
    (a.getD d).plain = (a.map plain).getD d.plain := by
  cases a <;> rfl

/-- What leads from one head to another can be replayed, and gives the other one. -/
theorem Leads.replay {v w : Value} (h : Leads (some v) fs (some w)) :
    ∃ u, v.replay fs = .ok u ∧ u.plain = w.plain := by
  rw [Leads, followAll?_plain] at h
  obtain ⟨y, followed, same⟩ := Option.map_eq_some_iff.1 h
  obtain ⟨u, rfl, plain⟩ := Option.map_eq_some_iff.1 same
  exact ⟨u, replay_of_enactAll? (enactAll?_of_followAll? followed), plain⟩

/-- What a store queues leads from its old head to its new one. -/
theorem leads_of_recorded {s s' : Store} {j : Journal} (keys : j.ByKeys) (head : j.head ≠ [])
    (exclude : [] ∉ j.exclude) (journal : s.journal = some j) (sorted : s.data.Sorted)
    (h : Recorded s s') :
    ∃ fs, s'.queue = s.queue ++ fs ∧ Leads s.journalHead fs s'.journalHead := by
  obtain ⟨-, fs, hfs, run, queue⟩ := h.changes sorted
  refine ⟨s.queued fs, queue, ?_⟩
  have followed := Journal.image_enactAll? keys head exclude sorted.plain (fun f hf => ?_) run
  · rw [j.filterMap_entry?_plain, j.image_plain, j.image_plain] at followed
    rw [Journal.journalHead_eq_image journal,
      Journal.journalHead_eq_image (h.journal.trans journal), queued, journal]
    exact followed
  · obtain ⟨g, hg, rfl⟩ := List.mem_map.1 hf
    exact sorted_fragment_plain (hfs g hg)

/-- A copy is what a head was. A head that was absent is mirrored by no copy, or
by the empty mapping that a full message carries for it. -/
def Mirrors (copy head : Option Value) : Prop :=
  copy.map plain = head.map plain ∨ head = none ∧ copy.map plain = some Value.empty.plain

/-- Fragments that lead from a head to another lead every copy of the first
one to a copy of the second one. -/
theorem Mirrors.followAll? (h : Mirrors copy a) (hab : Leads a fs b) :
    ∃ y, Value.followAll? copy fs = some y ∧ Mirrors y b := by
  have same {c : Option Value} (e : c.map plain = a.map plain) :
      ∃ y, Value.followAll? c fs = some y ∧ Mirrors y b := by
    have follow := hab.congr_left e.symm
    rw [Leads, followAll?_plain] at follow
    obtain ⟨y, hy, e⟩ := Option.map_eq_some_iff.1 follow
    exact ⟨y, hy, .inl e⟩
  rcases h with e | ⟨rfl, e⟩
  · exact same e
  · cases fs with
    | nil =>
      have absent : b = none := Option.map_eq_none_iff.1 (leads_nil.1 hab).symm
      exact ⟨copy, rfl, .inr ⟨absent, e⟩⟩
    | cons f fs =>
      -- only a fragment for the root follows on nothing, and it says it all
      have root : f.path = [] := by
        by_contra hf
        have nothing : follow? none f.plain = none := if_neg hf
        rw [Leads, List.map_cons, followAll?_cons, Option.map_none, nothing] at hab
        cases hab
      have forget (c : Option Value) : follow? c f = some f.value := if_pos root
      rw [followAll?_cons, forget, ← forget none, ← followAll?_cons]
      exact same rfl

/-! ## What messages carry -/

/-- A message fits the heads at the cuts: a patch leads from one to the next,
and a full message has the one that it names. -/
def Fits (heads : List (Option Value)) (m : Message) : Prop :=
  match m.payload with
  | .patch fs => ∃ k a b, m.id = k + 1 ∧ heads[k]? = some a ∧ heads[k + 1]? = some b ∧ Leads a fs b
  | .full blob => ∃ a, heads[m.id]? = some a ∧ blob.plain = (a.getD Value.empty).plain

theorem getElem?_append_of_some {α : Type} {l : List α} {k : Nat} {x : α}
    (h : l[k]? = some x) (r : List α) : (l ++ r)[k]? = some x := by
  rw [List.getElem?_append_left (List.getElem?_eq_some_iff.1 h).1, h]

theorem Fits.append {heads : List (Option Value)} {m : Message} (h : Fits heads m)
    (more : List (Option Value)) : Fits (heads ++ more) m := by
  unfold Fits at *
  split at h
  · obtain ⟨k, a, b, id, ha, hb, leads⟩ := h
    exact ⟨k, a, b, id, getElem?_append_of_some ha more, getElem?_append_of_some hb more, leads⟩
  · obtain ⟨a, ha, blob⟩ := h
    exact ⟨a, getElem?_append_of_some ha more, blob⟩

/-- A full message carries a copy of the head that it names. -/
theorem Fits.mirrors_full {heads : List (Option Value)} {m : Message} {blob : Value}
    (h : Fits heads m) (full : m.payload = .full blob) :
    ∃ a, heads[m.id]? = some a ∧ Mirrors (some blob) a := by
  rw [Fits, full] at h
  obtain ⟨a, ha, same⟩ := h
  refine ⟨a, ha, ?_⟩
  cases a with
  | some v => exact .inl (congrArg some same)
  | none => exact .inr ⟨rfl, congrArg some same⟩

/-- The patch that follows on a head makes a copy of the next head out of every copy of it. -/
theorem Fits.mirrors_patch {heads : List (Option Value)} {m : Message} {k : Nat}
    (h : Fits heads m) (patch : m.payload = .patch fs) (next : m.id = k + 1)
    (ha : heads[k]? = some a) (mirrors : Mirrors copy a) :
    ∃ y b, followAll? copy fs = some y ∧ heads[k + 1]? = some b ∧ Mirrors y b := by
  rw [Fits, patch] at h
  obtain ⟨k', a', b, next', ha', hb, leads⟩ := h
  obtain rfl : k = k' := by omega
  obtain rfl := Option.some.inj (ha.symm.trans ha')
  obtain ⟨y, hy, mirrors'⟩ := mirrors.followAll? leads
  exact ⟨y, b, hy, hb, mirrors'⟩

/-! ## The invariant -/

/-- What the sender knows about its cuts. -/
structure Sender (p : Publisher) (s : Store) (heads : List (Option Value)) : Prop where
  count : heads.length = p.lastId + 1
  pending : ∃ a, heads[p.lastId]? = some a ∧ Leads a s.queue s.journalHead
  unsent : ∀ m ∈ p.unsent, Fits heads m

/-- What ties the three parties together, whatever the numbers in the tree are. -/
structure Bound (peer : String) (j : Journal) (l : Link) : Prop where
  journal : l.sender.journal = some j
  sorted : l.sender.data.Sorted
  sender : Sender l.publisher l.sender l.heads
  sent : ∀ m ∈ l.sent, Fits l.heads m
  nodes : l.receiver.HasNodes
  trusted : ∀ k, l.table.trust peer = .inSync k →
    ∃ a, l.heads[k]? = some a ∧ Mirrors (l.receiver.copyOf peer) a

/-- **The invariant of a link.** -/
structure Invariant (peer : String) (j : Journal) (l : Link) : Prop
    extends Bound peer j l where
  numbers : l.sender.data.NoNaN
  heads : ∀ h, some h ∈ l.heads → NoNaN h

variable {peer : String} {j : Journal} {l l' : Link}

theorem noNaN_journalHead {s : Store} (journal : s.journal = some j) (numbers : s.data.NoNaN)
    {h : Value} (hh : s.journalHead = some h) : h.NoNaN :=
  Journal.image_everywhere closed_isNumber numbers
    ((Journal.journalHead_eq_image journal).symm.trans hh)

theorem sender_new (s : Store) (idle : s.queue = []) :
    Sender Publisher.new s [s.journalHead] := by
  refine ⟨rfl, ⟨_, rfl, ?_⟩, fun m hm => by cases hm⟩
  rw [idle]
  exact leads_nil.2 rfl

theorem invariant_of_start (start : Start peer j l) : Invariant peer j l where
  journal := start.journal
  sorted := start.sorted
  numbers := start.numbers
  sender := by
    rw [start.publisher, start.heads]
    exact sender_new l.sender start.idle
  sent m hm := by
    rw [start.sent] at hm
    cases hm
  heads h hh := by
    rw [start.heads] at hh
    exact noNaN_journalHead start.journal start.numbers (List.mem_singleton.1 hh).symm
  nodes := start.nodes
  trusted k hk := by
    rw [start.untrusted] at hk
    cases hk

/-- What a cut does: it empties the queue, notes the head down if there was
anything to cut, and makes a patch that leads to it. -/
theorem sender_cut {p : Publisher} {s : Store} {heads : List (Option Value)}
    (h : Sender p s heads) (now : Float) {ms : List Message} {q : Publisher}
    (cut : p.cut s.queue now = (ms, q)) {heads' : List (Option Value)}
    (noted : heads' = heads ++ if p.lastId < q.lastId then [s.journalHead] else []) :
    Sender q s.popJournal.2 heads' ∧ q.unsent = p.unsent ∧ (∀ m ∈ ms, Fits heads' m)
      ∧ ∃ a, heads'[q.lastId]? = some a ∧ a.map plain = s.journalHead.map plain := by
  obtain ⟨a, ha, leads⟩ := h.pending
  cases hq : s.queue with
  | nil =>
    rw [hq] at cut leads
    cases cut
    rw [if_neg (Nat.lt_irrefl _), List.append_nil] at noted
    subst noted
    have level := leads_nil.1 leads
    exact ⟨⟨h.count, ⟨a, ha, leads_nil.2 level⟩, h.unsent⟩, rfl, (fun m hm => by cases hm),
      a, ha, level⟩
  | cons f fs =>
    rw [hq] at cut leads
    cases cut
    rw [if_pos (Nat.lt_succ_self _)] at noted
    subst noted
    have last : (heads ++ [s.journalHead])[p.lastId + 1]? = some s.journalHead := by
      rw [← h.count, List.getElem?_append_right (Nat.le_refl _), Nat.sub_self]
      rfl
    refine ⟨⟨?_, ⟨s.journalHead, last, leads_nil.2 rfl⟩, ?_⟩, rfl, ?_, s.journalHead, last, rfl⟩
    · rw [List.length_append, h.count]
      rfl
    · exact fun m hm => (h.unsent m hm).append _
    · intro m hm
      rw [List.mem_singleton.1 hm]
      exact ⟨p.lastId, a, s.journalHead, rfl, getElem?_append_of_some ha _, last, leads⟩

/-! ## One step -/

/-- A store that has gone on from an earlier one: what it has queued since leads from
the head then to the head now. -/
structure Level (j : Journal) (s₀ s : Store) : Prop where
  journal : s.journal = some j
  sorted : s.data.Sorted
  queue : ∃ fs, s.queue = s₀.queue ++ fs ∧ Leads s₀.journalHead fs s.journalHead

theorem level_refl {s : Store} (journal : s.journal = some j) (sorted : s.data.Sorted) :
    Level j s s :=
  ⟨journal, sorted, [], (List.append_nil _).symm, leads_nil.2 rfl⟩

theorem Level.trans {s t u : Store} (h : Level j s t) (h' : Level j t u) : Level j s u := by
  obtain ⟨fs, queue, leads⟩ := h.queue
  obtain ⟨gs, queue', leads'⟩ := h'.queue
  exact ⟨h'.journal, h'.sorted, fs ++ gs, by rw [queue', queue, List.append_assoc],
    leads.append leads'⟩

/-- A store goes on by what it records. -/
theorem Level.recorded (keys : j.ByKeys) (head : j.head ≠ []) (exclude : [] ∉ j.exclude)
    {s t u : Store} (h : Level j s t) (recorded : Recorded t u) : Level j s u :=
  h.trans ⟨recorded.journal.trans h.journal, (recorded.changes h.sorted).1,
    leads_of_recorded keys head exclude h.journal h.sorted recorded⟩

/-- The sender goes on, and cuts nothing. -/
theorem Bound.advance (h : Bound peer j l) {s : Store} (level : Level j l.sender s) :
    Bound peer j { l with sender := s } := by
  obtain ⟨fs, queue, leads⟩ := level.queue
  obtain ⟨a, ha, pending⟩ := h.sender.pending
  refine { h with
    journal := level.journal
    sorted := level.sorted
    sender := ⟨h.sender.count, ⟨a, ha, ?_⟩, h.sender.unsent⟩ }
  show Leads a s.queue _
  rw [queue]
  exact pending.append leads

theorem invariant_edit (keys : j.ByKeys) (head : j.head ≠ []) (exclude : [] ∉ j.exclude)
    (h : Invariant peer j l) {e : Edit} (sorted : e.Given Value.Sorted)
    (numbers : e.Given NoNaN) :
    Invariant peer j { l with sender := e.perform l.sender } where
  toBound := h.advance ((level_refl h.journal h.sorted).recorded keys head exclude
    (kept_recorded.perform sorted l.sender))
  numbers := (kept_everywhere closed_isNumber trivial (fun _ => trivial)).perform numbers l.sender
    h.numbers
  heads := h.heads

/-- What a cut keeps, whatever message is then sent. -/
theorem Bound.cut (h : Bound peer j l) {now : Float} {ms sent : List Message}
    {q r : Publisher} (cut : l.publisher.cut l.sender.queue now = (ms, q))
    (hr : r.lastId = q.lastId) (kept : ∀ m ∈ r.unsent, m ∈ l.publisher.unsent ∨ m ∈ ms)
    (made : ∀ m ∈ sent, m ∈ l.publisher.unsent ∨ m ∈ ms
      ∨ m = ⟨q.lastId, now, .full (l.sender.journalHead.getD Value.empty)⟩) :
    Bound peer j { l with
      sender := l.sender.popJournal.2
      publisher := r
      sent := l.sent ++ sent
      heads := l.heads
        ++ if l.publisher.lastId < r.lastId then [l.sender.journalHead] else [] } := by
  rw [hr]
  obtain ⟨after, same, fits, a, ha, level⟩ := sender_cut h.sender _ cut rfl
  refine ⟨h.journal, h.sorted, ⟨?_, ?_, ?_⟩, ?_, h.nodes, ?_⟩
  · rw [hr]
    exact after.count
  · rw [hr]
    exact after.pending
  · intro m hm
    rcases kept m hm with hm | hm
    · exact after.unsent m (same ▸ hm)
    · exact fits m hm
  · intro m hm
    rcases List.mem_append.1 hm with hm | hm
    · exact (h.sent m hm).append _
    · rcases made m hm with hm | hm | rfl
      · exact after.unsent m (same ▸ hm)
      · exact fits m hm
      · refine ⟨a, ha, ?_⟩
        rw [getD_plain, getD_plain, level]
  · intro k hk
    obtain ⟨b, hb, mirrors⟩ := h.trusted k hk
    exact ⟨b, getElem?_append_of_some hb _, mirrors⟩

theorem Bound.broadcast (h : Bound peer j l) (now : Float) : Bound peer j (l.broadcast now) := by
  obtain ⟨ms, q, cut⟩ : ∃ ms q, l.publisher.cut l.sender.queue now = (ms, q) := ⟨_, _, rfl⟩
  have shape : l.publisher.nextPatches l.sender now
      = (l.publisher.unsent ++ ms, { q with unsent := [] }, l.sender.popJournal.2) := by
    unfold Publisher.nextPatches popJournal
    dsimp only
    rw [cut]
  unfold Link.broadcast
  rw [shape]
  refine h.cut cut rfl (fun m hm => by cases hm) (fun m hm => ?_)
  rcases List.mem_append.1 hm with hm | hm
  · exact .inl hm
  · exact .inr (.inl hm)

theorem Bound.full (h : Bound peer j l) (now : Float) : Bound peer j (l.full now) := by
  obtain ⟨ms, q, cut⟩ : ∃ ms q, l.publisher.cut l.sender.queue now = (ms, q) := ⟨_, _, rfl⟩
  have shape : l.publisher.full l.sender now
      = (⟨q.lastId, now, .full (l.sender.journalHead.getD Value.empty)⟩,
        { q with unsent := q.unsent ++ ms }, l.sender.popJournal.2) := by
    unfold Publisher.full popJournal
    dsimp only
    rw [cut]
    rfl
  have same : q.unsent = l.publisher.unsent := (sender_cut h.sender now cut rfl).2.1
  unfold Link.full
  rw [shape]
  refine h.cut cut rfl (fun m hm => ?_) (fun m hm => ?_)
  · rcases List.mem_append.1 hm with hm | hm
    · exact .inl (same ▸ hm)
    · exact .inr hm
  · exact .inr (.inr (List.mem_singleton.1 hm))

/-- The heads that are noted down at a cut are numbers throughout, if the tree is. -/
theorem Invariant.noted (h : Invariant peer j l) {c : Prop} [Decidable c] {v : Value}
    (hv : some v ∈ l.heads ++ if c then [l.sender.journalHead] else []) : v.NoNaN := by
  rcases List.mem_append.1 hv with hv | hv
  · exact h.heads v hv
  · split at hv
    · exact noNaN_journalHead h.journal h.numbers (List.mem_singleton.1 hv).symm
    · cases hv

theorem invariant_broadcast (h : Invariant peer j l) (now : Float) :
    Invariant peer j (l.broadcast now) where
  toBound := h.toBound.broadcast now
  numbers := h.numbers
  heads _ := h.noted

theorem invariant_full (h : Invariant peer j l) (now : Float) :
    Invariant peer j (l.full now) where
  toBound := h.toBound.full now
  numbers := h.numbers
  heads _ := h.noted

/-- Taking in what the receiver may trust: the copy mirrors the head at the cut
up to which it is trusted from now on, if it is trusted at all. -/
theorem Bound.receiver (h : Bound peer j l) {t : PeerTable} {s : Store} (nodes : s.HasNodes)
    (trusted : ∀ k, t.trust peer = .inSync k →
      ∃ a, l.heads[k]? = some a ∧ Mirrors (s.copyOf peer) a) :
    Bound peer j { l with table := t, receiver := s } :=
  { h with nodes := nodes, trusted := trusted }

/-- A full message brings the head that it names, whatever the receiver had before. -/
theorem Bound.join (h : Bound peer j l) {t : PeerTable} {s : Store} (nodes : s.HasNodes)
    {m : Message} {blob : Value} (hm : m.payload = .full blob) (fits : Fits l.heads m) :
    Bound peer j (Link.deliver { l with table := t, receiver := s } peer m) := by
  obtain ⟨a, ha, mirrors⟩ := fits.mirrors_full hm
  obtain ⟨s', received, nodes, copy⟩ := PeerTable.receive_full (t := t) nodes.hasRoom hm
  unfold Link.deliver
  dsimp only
  rw [received]
  refine h.receiver nodes (fun k hk => ?_)
  rw [PeerTable.trust_insert] at hk
  cases hk
  exact ⟨a, ha, copy.symm ▸ mirrors⟩

/-- The patch that the receiver waits for starts where its copy is. -/
theorem Bound.deliver_next (h : Bound peer j l) {m : Message} {fs : List Fragment}
    (hm : m.payload = .patch fs) (fits : Fits l.heads m) {k : Nat}
    (trusted : l.table.trust peer = .inSync k) (id : m.id = k + 1) :
    Bound peer j (l.deliver peer m) := by
  obtain ⟨a, ha, mirrors⟩ := h.trusted k trusted
  obtain ⟨y, b, hy, hb, mirrors'⟩ := fits.mirrors_patch hm id ha mirrors
  obtain ⟨s', received, nodes, copy⟩ :=
    PeerTable.receive_next (t := l.table) h.nodes trusted hm id hy
  unfold Link.deliver
  rw [received]
  refine h.receiver nodes (fun n hn => ?_)
  rw [PeerTable.trust_insert, id] at hn
  cases hn
  exact ⟨b, hb, copy.symm ▸ mirrors'⟩

/-- Any other patch is not applied, and at most costs the receiver its trust. -/
theorem Bound.deliver_out_of_turn (h : Bound peer j l) {m : Message}
    {fs : List Fragment} (hm : m.payload = .patch fs)
    (out : ∀ n, l.table.trust peer = .inSync n → m.id ≠ n + 1) :
    Bound peer j (l.deliver peer m) := by
  obtain ⟨same, trust⟩ := PeerTable.receive_out_of_turn (s := l.receiver) hm out
  unfold Link.deliver
  generalize l.table.receive l.receiver peer m = r at same trust
  obtain ⟨receipt, t, s⟩ := r
  obtain rfl : s = l.receiver := same
  refine h.receiver h.nodes (fun n hn => ?_)
  rcases trust with trust | trust
  · exact h.trusted n (trust.symm.trans hn)
  · cases trust.symm.trans hn

/-- The receiver trusts only what its copy mirrors, whatever message it takes
in. -/
theorem Bound.deliver (h : Bound peer j l) {m : Message} (sent : m ∈ l.sent) :
    Bound peer j (l.deliver peer m) := by
  have fits := h.sent m sent
  cases hm : m.payload with
  | full blob => exact h.join h.nodes hm fits
  | patch fs =>
    by_cases turn : ∃ n, l.table.trust peer = .inSync n ∧ m.id = n + 1
    · obtain ⟨n, trusted, id⟩ := turn
      exact h.deliver_next hm fits trusted id
    · exact h.deliver_out_of_turn hm (fun n trusted id => turn ⟨n, trusted, id⟩)

theorem Bound.purge (h : Bound peer j l) : Bound peer j (l.purge peer) := by
  obtain ⟨untrusted, nodes⟩ := PeerTable.purge_untrusted l.table h.nodes peer
  unfold Link.purge
  refine h.receiver nodes (fun k hk => ?_)
  cases untrusted.symm.trans hk

/-- What the receiver does elsewhere leaves it with the copy that it trusts. -/
theorem Bound.elsewhere (h : Bound peer j l) {t : PeerTable} {s : Store}
    (trust : t.trust peer = l.table.trust peer) (copy : s.copyOf peer = l.receiver.copyOf peer)
    (nodes : s.HasNodes) : Bound peer j { l with table := t, receiver := s } := by
  refine h.receiver nodes (fun k hk => ?_)
  rw [copy]
  exact h.trusted k (trust.symm.trans hk)

/-- **Every step keeps the invariant.** -/
theorem invariant_step (keys : j.ByKeys) (head : j.head ≠ []) (exclude : [] ∉ j.exclude)
    (h : Invariant peer j l) (step : Step peer l l') : Invariant peer j l' := by
  cases step with
  | edit e sorted numbers => exact invariant_edit keys head exclude h sorted numbers
  | broadcast now => exact invariant_broadcast h now
  | full now => exact invariant_full h now
  -- the sender is left alone by what becomes of the receiver
  | deliver sent => exact ⟨h.toBound.deliver sent, h.numbers, h.heads⟩
  | purge => exact ⟨h.toBound.purge, h.numbers, h.heads⟩
  | elsewhere trust copy nodes =>
    exact ⟨h.toBound.elsewhere trust copy nodes, h.numbers, h.heads⟩

theorem invariant_run (keys : j.ByKeys) (head : j.head ≠ []) (exclude : [] ∉ j.exclude)
    (start : Start peer j l) (run : Relation.ReflTransGen (Step peer) l l') :
    Invariant peer j l' := by
  induction run with
  | refl => exact invariant_of_start start
  | tail _ step ih => exact invariant_step keys head exclude ih step

/-! ## Safety -/

/-- A copy is, as a value, what a head was; one of an absent head is absent or
empty. -/
def IsCopy (copy head : Option Value) : Prop :=
  match head with
  | some h => ∃ c, copy = some c ∧ (c == h) = true
  | none => copy = none ∨ ∃ c, copy = some c ∧ (c == Value.empty) = true

instance (copy head : Option Value) : Decidable (IsCopy copy head) :=
  match head, copy with
  | some h, some c => decidable_of_iff ((c == h) = true) (by simp [IsCopy])
  | some _, none => .isFalse (by simp [IsCopy])
  | none, some c => decidable_of_iff ((c == Value.empty) = true) (by simp [IsCopy])
  | none, none => .isTrue (.inl rfl)

theorem Mirrors.isCopy (h : Mirrors copy a) (real : ∀ v, a = some v → v.NoNaN) :
    IsCopy copy a := by
  have equal {v w : Value} (hw : w.NoNaN) (e : v.plain = w.plain) : (v == w) = true :=
    (beq_iff_plain_eq (noNaN_plain.1 (e ▸ noNaN_plain.2 hw))).2 e
  cases a with
  | some v =>
    rcases h with e | ⟨e, -⟩
    · obtain ⟨c, rfl, e⟩ := Option.map_eq_some_iff.1 e
      exact ⟨c, rfl, equal (real v rfl) (Option.some.inj e)⟩
    · cases e
  | none =>
    rcases h with e | ⟨-, e⟩
    · exact .inl (Option.map_eq_none_iff.1 e)
    · obtain ⟨c, rfl, e⟩ := Option.map_eq_some_iff.1 e
      have empty : Value.empty.NoNaN := everywhere_map.2 ⟨trivial, fun e he => by cases he⟩
      exact .inr ⟨c, rfl, equal empty (Option.some.inj e)⟩

/-- **A trusted copy is a copy.** Along every run, as long as the receiver
trusts its copy up to patch `k`, the copy is what the sender's head was when
`k` patches had been cut, and the patch with the next number is applied without
a failed fragment whenever it comes in. -/
theorem in_step (keys : j.ByKeys) (head : j.head ≠ []) (exclude : ∀ ex ∈ j.exclude, ex ≠ [])
    (start : Start peer j l) (run : Relation.ReflTransGen (Step peer) l l') {k : Nat}
    (trusted : l'.table.trust peer = .inSync k) :
    (∃ a, l'.heads[k]? = some a ∧ IsCopy (l'.receiver.copyOf peer) a)
      ∧ ∀ m ∈ l'.sent, ∀ fs, m.payload = .patch fs → m.id = k + 1 →
        (l'.table.receive l'.receiver peer m).1 = .applied
          ∧ (l'.receiver.patch (Layout.node peer) fs).1 = none := by
  have h := invariant_run keys head (fun hE => exclude [] hE rfl) start run
  obtain ⟨a, ha, mirrors⟩ := h.trusted k trusted
  refine ⟨⟨a, ha, mirrors.isCopy (fun v hv => ?_)⟩, fun m hm fs hfs id => ?_⟩
  · exact h.heads v (hv ▸ List.mem_of_getElem? ha)
  · have fits := h.sent m hm
    rw [Fits, hfs] at fits
    obtain ⟨n, b, c, id', hb, -, leads⟩ := fits
    obtain rfl : n = k := by omega
    obtain rfl := Option.some.inj (ha.symm.trans hb)
    obtain ⟨y, hy, -⟩ := mirrors.followAll? leads
    obtain ⟨s', received, -⟩ := PeerTable.receive_next (t := l'.table) h.nodes trusted hfs id hy
    obtain ⟨s'', patched, -⟩ := Store.patch_followAll? h.nodes hy
    rw [received, patched]
    exact ⟨rfl, rfl⟩

/-- A link whose sender publishes one number under the key `a`. -/
def Link.fresh : Link where
  sender := ⟨.map [("a", .map [("v", .int 1)])], some ⟨[.key "a"], [[.key "x"]]⟩, []⟩
  publisher := Publisher.new
  table := []
  receiver := ⟨.map [("cluster", .map [("nodes", .map [])])], none, []⟩
  sent := []
  heads := [some (.map [("v", .int 1)])]

/-- The link after a full message, a change of the number and the patch for it,
all of which the receiver took in. -/
def Link.afterPatch : Link :=
  let first : Message := ⟨0, 0, .full (.map [("v", .int 1)])⟩
  let second : Message := ⟨1, 1, .patch [⟨[.key "v"], some (.int 2)⟩]⟩
  let l := (Link.fresh.full 0).deliver "a" first
  let l := { l with sender := (Edit.set [.key "a", .key "v"] (.int 2)).perform l.sender }
  (l.broadcast 1).deliver "a" second

theorem in_step_afterPatch :
    Link.afterPatch.table.trust "a" = .inSync 1
      ∧ (∃ a, Link.afterPatch.heads[1]? = some a
          ∧ IsCopy (Link.afterPatch.receiver.copyOf "a") a) := by
  have keys : Journal.ByKeys ⟨[.key "a"], [[.key "x"]]⟩ :=
    ⟨by simp [Path.AllKeys], by simp [Path.AllKeys]⟩
  have start : Start "a" ⟨[.key "a"], [[.key "x"]]⟩ Link.fresh :=
    { journal := rfl, idle := rfl, publisher := rfl, untrusted := rfl, sent := rfl, heads := rfl
      sorted := by simp [Link.fresh, Everywhere, EverywhereEntries, isSorted, Entries.Sorted,
        Entries.keys]
      numbers := by simp [Link.fresh, Everywhere, EverywhereEntries, isNumber]
      nodes := ⟨[], rfl⟩ }
  have run : Relation.ReflTransGen (Step "a") Link.fresh Link.afterPatch :=
    (((((Relation.ReflTransGen.refl.tail (.full 0)).tail
      (.deliver (m := ⟨0, 0, .full (.map [("v", .int 1)])⟩) List.mem_cons_self)).tail
      (.edit (.set [.key "a", .key "v"] (.int 2)) trivial trivial)).tail
      (.broadcast 1))).tail
      (.deliver (m := ⟨1, 1, .patch [⟨[.key "v"], some (.int 2)⟩]⟩)
        (List.mem_cons_of_mem _ List.mem_cons_self))
  exact ⟨rfl, (in_step keys (by simp) (by simp) start run rfl).1⟩

end HaCluster.Replication
