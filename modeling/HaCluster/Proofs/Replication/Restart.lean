import HaCluster.Daemon.State
import HaCluster.Proofs.Replication.Trust

/-!
# Senders that are restarted

A node that is restarted begins a new life: its tree is the empty blob again,
and its publisher counts from one again. It announces itself with a full
message, and a follower that takes the announcement in forgets what it had.

The follower remembers a number and no life. If the announcement is lost, the
patch whose number comes next is applied although it belongs to another life,
and the copy that it makes may be one that the sender never had
(`not_real_afterLoss`).

As long as a copy is made from the messages of one life it is a copy, whatever
else is lost (`restart_safe`). And messages that come in the order in which
they were made do not mix lives unless an announcement is lost: behind the
messages of one life comes the announcement of the next one, or nothing.
-/

namespace HaCluster.Replication

open Value Store

/-! ## Runs -/

/-- A node that has just started. -/
def Feed.born (settings : Daemon.Settings) (settingsFile : Option String) (now : Float) : Feed :=
  let d := Daemon.start settings settingsFile now
  ⟨d.store, d.publisher⟩

/-- A message on its way. -/
structure Parcel where
  message : Message
  /-- The life of the sender in which it was made. -/
  life : Nat
  /-- It is the first message of its life. -/
  announces : Bool

/-- A sender that may be restarted, a follower, and what is on its way between
them. -/
structure Line where
  sender : Feed
  /-- How often the sender was restarted. -/
  life : Nat
  /-- The sender has announced itself in this life. -/
  announced : Bool
  /-- The messages on their way, in the order in which they were made. -/
  transit : List Parcel
  follower : Follower
  /-- Every head that the sender ever had. -/
  had : List (Option Value)
  /-- The lives of the messages that the copy is made from: a full message and
  the patches applied to it. -/
  made : List Nat

/-- The lives that a copy is made from after a message was taken in. -/
def sources (made : List Nat) (p : Parcel) (r : Receipt) : List Nat :=
  match p.message.payload, r with
  | .full _, _ => [p.life]
  | .patch _, .applied => made ++ [p.life]
  | .patch _, _ => made

namespace Line

/-- The sender edits its tree. -/
def edit (l : Line) (e : Edit) : Line :=
  { l with
    sender := l.sender.edit e
    had := l.had ++ [(l.sender.edit e).store.journalHead] }

/-- The sender broadcasts what it has to broadcast. -/
def broadcast (l : Line) (now : Float) : Line :=
  let (ms, f) := l.sender.broadcast now
  { l with sender := f, transit := l.transit ++ ms.map (⟨·, l.life, false⟩) }

/-- The sender makes a full message. The first one of a life announces it. -/
def full (l : Line) (now : Float) : Line :=
  let (m, f) := l.sender.full now
  { l with
    sender := f
    announced := true
    transit := l.transit ++ [⟨m, l.life, !l.announced⟩] }

/-- The sender is restarted. -/
def restart (l : Line) (f : Feed) : Line :=
  { l with
    sender := f
    life := l.life + 1
    announced := false
    had := l.had ++ [f.store.journalHead] }

/-- The first message on its way reaches the follower. -/
def arrive (l : Line) (peer : String) : Line :=
  match l.transit with
  | [] => l
  | p :: rest =>
    let (r, y) := l.follower.take peer p.message
    { l with transit := rest, follower := y, made := sources l.made p r }

/-- The first message on its way is lost. -/
def lose (l : Line) : Line := { l with transit := l.transit.tail }

/-- The copy is made from the messages of one life. -/
def OneLife (l : Line) : Prop := ∀ i ∈ l.made, ∀ j ∈ l.made, i = j

end Line

/-- One step of a line whose sender the follower knows as `peer`. If the network
is `careful`, no announcement is lost. -/
inductive Passes (peer : String) (careful : Prop) : Line → Line → Prop
  /-- The sender edits its tree anywhere. -/
  | edit {l : Line} (e : Edit) (sorted : e.Given Value.Sorted) (numbers : e.Given NoNaN) :
    Passes peer careful l (l.edit e)
  | broadcast {l : Line} (now : Float) (announced : l.announced = true) :
    Passes peer careful l (l.broadcast now)
  | full {l : Line} (now : Float) : Passes peer careful l (l.full now)
  | restart {l : Line} (settings : Daemon.Settings) (settingsFile : Option String) (now : Float)
    (name : settings.nodeName = peer) :
    Passes peer careful l (l.restart (Feed.born settings settingsFile now))
  | arrive {l : Line} : Passes peer careful l (l.arrive peer)
  | lose {l : Line}
    (kept : careful → ∀ p, l.transit.head? = some p → p.announces = false) :
    Passes peer careful l l.lose
  | purge {l : Line} : Passes peer careful l { l with follower := l.follower.purge peer }
  /-- The follower does something else, which leaves the copy, the trust in it
  and the mapping with all copies alone. -/
  | elsewhere {l : Line} {y : Follower}
    (trust : y.table.trust peer = l.follower.table.trust peer)
    (copy : y.store.copyOf peer = l.follower.store.copyOf peer) (nodes : y.store.HasNodes) :
    Passes peer careful l { l with follower := y }

/-- A line at its start: the sender has just started, nothing is on its way,
and the follower trusts no copy of it. -/
structure Opening (peer : String) (l : Line) : Prop where
  born : ∃ (settings : Daemon.Settings) (settingsFile : Option String) (now : Float),
    settings.nodeName = peer
      ∧ l.sender = Feed.born settings settingsFile now
  announced : l.announced = false
  transit : l.transit = []
  untrusted : l.follower.table.trust peer = .untrusted
  nodes : l.follower.store.HasNodes
  had : l.had = [l.sender.store.journalHead]
  made : l.made = []

variable {peer : String} {careful : Prop} {l l' : Line} {f : Feed}
variable {heads more : List (Option Value)} {cuts : Nat → List (Option Value)}

theorem Line.arrive_nil (first : l.transit = []) : l.arrive peer = l := by
  unfold arrive
  rw [first]

theorem Line.arrive_cons {p : Parcel} {rest : List Parcel} (first : l.transit = p :: rest) :
    l.arrive peer = { l with
      transit := rest
      follower := (l.follower.take peer p.message).2
      made := sources l.made p (l.follower.take peer p.message).1 } := by
  unfold arrive
  rw [first]

/-! ## The sender -/

theorem byKeys_journalOf (name : String) : (Daemon.journalOf name).ByKeys :=
  ⟨Path.allKeys_ofKeys ["cluster", "nodes", name], by
    intro ex hex
    rw [List.mem_singleton.1 hex]
    exact Path.allKeys_ofKeys ["stats"]⟩

/-- A node that has just started has queued and cut nothing, and its tree is
well formed. -/
theorem born_fresh (settings : Daemon.Settings) (settingsFile : Option String) (now : Float) :
    let f := Feed.born settings settingsFile now
    f.Keeps (Daemon.journalOf settings.nodeName) ∧ f.store.data.NoNaN
      ∧ Sender f.publisher f.store [f.store.journalHead] := by
  refine ⟨⟨rfl, ?_⟩, ?_, rfl, ⟨_, rfl, leads_nil.2 rfl⟩, fun m hm => by cases hm⟩
  · simp only [Feed.born, Daemon.start, Store.new, Node.emptyBlob, Value.empty, Everywhere,
      EverywhereEntries, isSorted, Entries.Sorted, Entries.keys]
    simp only [List.map_cons, List.map_nil, List.pairwise_singleton]
    decide
  · simp [Feed.born, Daemon.start, Store.new, Node.emptyBlob, Value.empty, Everywhere,
      EverywhereEntries, isNumber, Number.zero_ne_nan.1]

/-- A broadcast notes the head down if there was anything to cut, and hands out
what fits the heads noted down. -/
theorem sender_broadcast (h : Sender f.publisher f.store heads) (now : Float) :
    ∃ more, Sender (f.broadcast now).2.publisher f.store.popJournal.2 (heads ++ more)
      ∧ (∀ m ∈ (f.broadcast now).1, Fits (heads ++ more) m)
      ∧ ∀ a ∈ more, a = f.store.journalHead := by
  obtain ⟨ms, q, cut⟩ : ∃ ms q, f.publisher.cut f.store.queue now = (ms, q) := ⟨_, _, rfl⟩
  have shape : f.broadcast now
      = (f.publisher.unsent ++ ms, ⟨f.store.popJournal.2, { q with unsent := [] }⟩) := by
    unfold Feed.broadcast Publisher.nextPatches popJournal
    dsimp only
    rw [cut]
  obtain ⟨after, same, fits, -⟩ := sender_cut h now cut rfl
  rw [shape]
  refine ⟨if f.publisher.lastId < q.lastId then [f.store.journalHead] else [],
    ⟨after.count, after.pending, fun m hm => by cases hm⟩, fun m hm => ?_, fun a ha => ?_⟩
  · rcases List.mem_append.1 hm with hm | hm
    · exact after.unsent m (same ▸ hm)
    · exact fits m hm
  · split at ha
    · exact List.mem_singleton.1 ha
    · cases ha

/-- A full message notes the head down if there was anything to cut, and fits
the heads noted down. -/
theorem sender_full (h : Sender f.publisher f.store heads) (now : Float) :
    ∃ more, Sender (f.full now).2.publisher f.store.popJournal.2 (heads ++ more)
      ∧ Fits (heads ++ more) (f.full now).1
      ∧ ∀ a ∈ more, a = f.store.journalHead := by
  obtain ⟨ms, q, cut⟩ : ∃ ms q, f.publisher.cut f.store.queue now = (ms, q) := ⟨_, _, rfl⟩
  have shape : f.full now
      = (⟨q.lastId, now, .full (f.store.journalHead.getD Value.empty)⟩,
        ⟨f.store.popJournal.2, { q with unsent := q.unsent ++ ms }⟩) := by
    unfold Feed.full Publisher.full popJournal
    dsimp only
    rw [cut]
    rfl
  obtain ⟨after, -, fits, a, ha, level⟩ := sender_cut h now cut rfl
  rw [shape]
  refine ⟨if f.publisher.lastId < q.lastId then [f.store.journalHead] else [],
    ⟨after.count, after.pending, fun m hm => ?_⟩, ⟨a, ha, ?_⟩, fun b hb => ?_⟩
  · rcases List.mem_append.1 hm with hm | hm
    · exact after.unsent m hm
    · exact fits m hm
  · rw [getD_plain, getD_plain, level]
  · split at hb
    · exact List.mem_singleton.1 hb
    · cases hb

/-! ## The invariant -/

/-- More heads noted down for a life. -/
def note (cuts : Nat → List (Option Value)) (life : Nat) (more : List (Option Value)) :
    Nat → List (Option Value) :=
  Function.update cuts life (cuts life ++ more)

theorem note_self (cuts : Nat → List (Option Value)) (i : Nat) (more : List (Option Value)) :
    note cuts i more i = cuts i ++ more := Function.update_self _ _ _

/-- What was noted down stays. -/
theorem note_eq_append (cuts : Nat → List (Option Value)) (life : Nat)
    (more : List (Option Value)) (i : Nat) : ∃ new, note cuts life more i = cuts i ++ new := by
  by_cases h : i = life
  · subst h
    exact ⟨more, note_self cuts i more⟩
  · exact ⟨[], by rw [note, Function.update_of_ne h, List.append_nil]⟩

theorem mem_note {i life : Nat} {a : Option Value} (h : a ∈ note cuts life more i) :
    a ∈ cuts i ∨ a ∈ more := by
  by_cases e : i = life
  · subst e
    rw [note_self] at h
    exact List.mem_append.1 h
  · rw [note, Function.update_of_ne e] at h
    exact .inl h

/-- **The invariant of a line.** The heads at the cuts of each life are noted
down. Every message fits those of its life, and a copy that is made from the
messages of one life mirrors one of them. -/
structure Sound (peer : String) (cuts : Nat → List (Option Value)) (l : Line) : Prop where
  keeps : l.sender.Keeps (Daemon.journalOf peer)
  numbers : l.sender.store.data.NoNaN
  sender : Sender l.sender.publisher l.sender.store (cuts l.life)
  /-- Nothing is noted down for the lives to come. -/
  later : ∀ i, l.life < i → cuts i = []
  transit : ∀ p ∈ l.transit, p.life ≤ l.life ∧ Fits (cuts p.life) p.message
  noted : ∀ i, ∀ a ∈ cuts i, a ∈ l.had
  here : l.sender.store.journalHead ∈ l.had
  real : ∀ v, some v ∈ l.had → v.NoNaN
  nodes : l.follower.store.HasNodes
  trusted : ∀ k, l.follower.table.trust peer = .inSync k → l.made ≠ []
    ∧ ∀ i, (∀ j ∈ l.made, j = i) →
      ∃ a, (cuts i)[k]? = some a ∧ Mirrors (l.follower.store.copyOf peer) a

/-- What is noted down for a life takes nothing from what a copy mirrors. -/
theorem Sound.trusted_note (h : Sound peer cuts l) (life : Nat) (more : List (Option Value)) {k : Nat}
    (hk : l.follower.table.trust peer = .inSync k) :
    l.made ≠ [] ∧ ∀ i, (∀ j ∈ l.made, j = i) →
      ∃ a, (note cuts life more i)[k]? = some a ∧ Mirrors (l.follower.store.copyOf peer) a := by
  obtain ⟨made, mirrors⟩ := h.trusted k hk
  refine ⟨made, fun i all => ?_⟩
  obtain ⟨a, ha, copy⟩ := mirrors i all
  obtain ⟨new, same⟩ := note_eq_append cuts life more i
  exact ⟨a, same ▸ getElem?_append_of_some ha new, copy⟩

theorem Sound.transit_note (h : Sound peer cuts l) (life : Nat) (more : List (Option Value))
    {p : Parcel} (hp : p ∈ l.transit) :
    p.life ≤ l.life ∧ Fits (note cuts life more p.life) p.message := by
  obtain ⟨made, fits⟩ := h.transit p hp
  obtain ⟨new, same⟩ := note_eq_append cuts life more p.life
  exact ⟨made, same ▸ fits.append new⟩

theorem sound_of_opening (opening : Opening peer l) : ∃ cuts, Sound peer cuts l := by
  obtain ⟨settings, settingsFile, now, rfl, born⟩ := opening.born
  obtain ⟨keeps, numbers, sender⟩ := born_fresh settings settingsFile now
  rw [← born] at keeps numbers sender
  have had : l.had = [l.sender.store.journalHead] := opening.had
  refine ⟨note (fun _ => []) l.life [l.sender.store.journalHead],
    { keeps := keeps
      numbers := numbers
      sender := by rwa [note_self]
      later := fun i hi => Function.update_of_ne (by omega) _ _
      transit := fun p hp => by
        rw [opening.transit] at hp
        cases hp
      noted := fun i a ha => by
        rcases mem_note ha with ha | ha
        · cases ha
        · rwa [had]
      here := by
        rw [had]
        exact List.mem_singleton_self _
      real := fun v hv => by
        rw [had] at hv
        exact noNaN_journalHead keeps.journal numbers (List.mem_singleton.1 hv).symm
      nodes := opening.nodes
      trusted := fun k hk => by cases opening.untrusted.symm.trans hk }⟩

/-! ## One step -/

theorem Sound.edit (h : Sound peer cuts l) {e : Edit} (sorted : e.Given Value.Sorted)
    (numbers : e.Given NoNaN) : Sound peer cuts (l.edit e) := by
  obtain ⟨keeps, queue, leads⟩ := h.keeps.edit (byKeys_journalOf peer) (by simp [Daemon.journalOf,
    Layout.node, Path.key, Path.child]) (by simp [Daemon.journalOf, Path.ofKeys]) sorted
  obtain ⟨a, ha, pending⟩ := h.sender.pending
  have real : (l.sender.edit e).store.data.NoNaN :=
    (kept_everywhere closed_isNumber trivial (fun _ => trivial)).perform numbers l.sender.store
      h.numbers
  refine { h with
    keeps := keeps
    numbers := real
    sender := ⟨h.sender.count, ⟨a, ha, ?_⟩, h.sender.unsent⟩
    noted := fun i a ha => List.mem_append_left _ (h.noted i a ha)
    here := List.mem_append_right _ (List.mem_singleton_self _)
    real := fun v hv => ?_ }
  · show Leads a (l.sender.edit e).store.queue (l.sender.edit e).store.journalHead
    rw [queue]
    exact pending.append leads
  · rcases List.mem_append.1 hv with hv | hv
    · exact h.real v hv
    · exact noNaN_journalHead keeps.journal real (List.mem_singleton.1 hv).symm

/-- What a cut keeps of the invariant, whatever messages are then sent. -/
theorem Sound.cut (h : Sound peer cuts l) {q : Publisher} (ps : List Parcel) {announced : Bool}
    (sender : Sender q l.sender.store.popJournal.2 (cuts l.life ++ more))
    (fits : ∀ p ∈ ps, p.life = l.life ∧ Fits (cuts l.life ++ more) p.message)
    (noted : ∀ a ∈ more, a = l.sender.store.journalHead) :
    Sound peer (note cuts l.life more) { l with
      sender := ⟨l.sender.store.popJournal.2, q⟩
      announced := announced
      transit := l.transit ++ ps } where
  keeps := ⟨h.keeps.journal, h.keeps.sorted⟩
  numbers := h.numbers
  sender := by rwa [note_self]
  later i hi := by
    have other : i ≠ l.life := by
      have : l.life < i := hi
      omega
    rw [note, Function.update_of_ne other]
    exact h.later i hi
  transit p hp := by
    rcases List.mem_append.1 hp with hp | hp
    · exact h.transit_note l.life more hp
    · obtain ⟨life, fits⟩ := fits p hp
      rw [life, note_self]
      exact ⟨le_rfl, fits⟩
  noted i a ha := by
    rcases mem_note ha with ha | ha
    · exact h.noted i a ha
    · rw [noted a ha]
      exact h.here
  here := h.here
  real := h.real
  nodes := h.nodes
  trusted k hk := h.trusted_note l.life more hk

theorem Sound.broadcast (h : Sound peer cuts l) (now : Float) :
    ∃ cuts', Sound peer cuts' (l.broadcast now) := by
  obtain ⟨more, sender, fits, noted⟩ := sender_broadcast h.sender now
  refine ⟨_, h.cut ((l.sender.broadcast now).1.map (⟨·, l.life, false⟩)) sender
    (fun p hp => ?_) noted⟩
  obtain ⟨m, hm, rfl⟩ := List.mem_map.1 hp
  exact ⟨rfl, fits m hm⟩

theorem Sound.full (h : Sound peer cuts l) (now : Float) :
    ∃ cuts', Sound peer cuts' (l.full now) := by
  obtain ⟨more, sender, fits, noted⟩ := sender_full h.sender now
  refine ⟨_, h.cut [⟨(l.sender.full now).1, l.life, !l.announced⟩] sender
    (fun p hp => ?_) noted⟩
  rw [List.mem_singleton.1 hp]
  exact ⟨rfl, fits⟩

/-- A restart begins a life for which nothing was noted down. -/
theorem Sound.restart (h : Sound peer cuts l) {settings : Daemon.Settings}
    (settingsFile : Option String) (now : Float) (name : settings.nodeName = peer) :
    ∃ cuts', Sound peer cuts' (l.restart (Feed.born settings settingsFile now)) := by
  obtain ⟨keeps, numbers, sender⟩ := born_fresh settings settingsFile now
  rw [name] at keeps
  generalize Feed.born settings settingsFile now = f at keeps numbers sender
  refine ⟨note cuts (l.life + 1) [f.store.journalHead],
    { keeps := keeps
      numbers := numbers
      sender := ?_
      later := fun i hi => ?_
      transit := fun p hp => ?_
      noted := fun i a ha => ?_
      here := List.mem_append_right _ (List.mem_singleton_self _)
      real := fun v hv => ?_
      nodes := h.nodes
      trusted := fun k hk => h.trusted_note (l.life + 1) _ hk }⟩
  · show Sender _ _ (note cuts (l.life + 1) _ (l.life + 1))
    rw [note_self, h.later _ (Nat.lt_succ_self _)]
    exact sender
  · have after : l.life + 1 < i := hi
    rw [note, Function.update_of_ne (by omega)]
    exact h.later i (by omega)
  · obtain ⟨life, fits⟩ := h.transit_note (l.life + 1) [f.store.journalHead] hp
    exact ⟨Nat.le_succ_of_le life, fits⟩
  · rcases mem_note ha with ha | ha
    · exact List.mem_append_left _ (h.noted i a ha)
    · exact List.mem_append_right _ ha
  · rcases List.mem_append.1 hv with hv | hv
    · exact h.real v hv
    · exact noNaN_journalHead keeps.journal numbers (List.mem_singleton.1 hv).symm

/-- What the follower does keeps the invariant if it does so for what is then
trusted. -/
theorem Sound.follower (h : Sound peer cuts l) {rest : List Parcel} {y : Follower} {made : List Nat}
    (left : ∀ p ∈ rest, p ∈ l.transit) (nodes : y.store.HasNodes)
    (trusted : ∀ k, y.table.trust peer = .inSync k → made ≠ []
      ∧ ∀ i, (∀ j ∈ made, j = i) →
        ∃ a, (cuts i)[k]? = some a ∧ Mirrors (y.store.copyOf peer) a) :
    Sound peer cuts { l with transit := rest, follower := y, made := made } :=
  { h with
    transit := fun p hp => h.transit p (left p hp)
    nodes := nodes
    trusted := trusted }

/-- Taking a message in keeps the invariant. -/
theorem Sound.arrive (h : Sound peer cuts l) : Sound peer cuts (l.arrive peer) := by
  cases first : l.transit with
  | nil => rwa [Line.arrive_nil first]
  | cons p rest =>
    rw [Line.arrive_cons first]
    have left : ∀ q ∈ rest, q ∈ l.transit := fun q hq => first ▸ List.mem_cons_of_mem p hq
    obtain ⟨-, fits⟩ := h.transit p (first ▸ List.mem_cons_self)
    have outcome := taken h.nodes peer p.message
    have nodes := (outcome.only h.nodes).1.nodes
    generalize took : l.follower.take peer p.message = t at outcome nodes
    obtain ⟨r, y⟩ := t
    refine h.follower left nodes (fun k hk => ?_)
    cases outcome with
    | @replaced blob s full only copy =>
      rw [PeerTable.trust_insert] at hk
      cases hk
      unfold sources
      rw [full]
      refine ⟨List.cons_ne_nil _ _, fun i all => ?_⟩
      obtain rfl : p.life = i := all p.life (List.mem_singleton_self _)
      obtain ⟨a, ha, mirrors⟩ := fits.mirrors_full full
      exact ⟨a, ha, copy.symm ▸ mirrors⟩
    | @followed n s patch trust next only copy =>
      rw [PeerTable.trust_insert, next] at hk
      cases hk
      unfold sources
      rw [patch]
      refine ⟨List.append_ne_nil_of_right_ne_nil _ (List.cons_ne_nil _ _), fun i all => ?_⟩
      obtain rfl : p.life = i := all p.life (List.mem_append_right _ (List.mem_singleton_self _))
      obtain ⟨a, ha, mirrors⟩ :=
        (h.trusted n trust).2 p.life (fun j hj => all j (List.mem_append_left _ hj))
      obtain ⟨z, b, hz, hb, mirrors'⟩ := fits.mirrors_patch patch next ha mirrors
      obtain ⟨s', received, -, copied⟩ :=
        PeerTable.receive_next (t := l.follower.table) h.nodes trust patch next hz
      have same : s' = s := by
        unfold Follower.take at took
        rw [received] at took
        exact congrArg (fun q => q.2.store) took
      exact ⟨b, hb, by rw [← same, copied]; exact mirrors'⟩
    | failed => cases (PeerTable.trust_insert _ _ _).symm.trans hk
    | gap => cases (PeerTable.trust_insert _ _ _).symm.trans hk
    | refused patch trust => cases trust.symm.trans hk
    | dropped patch =>
      unfold sources
      rw [patch]
      exact h.trusted k hk

/-- **Every step keeps the invariant.** -/
theorem sound_step (h : Sound peer cuts l) (step : Passes peer careful l l') :
    ∃ cuts', Sound peer cuts' l' := by
  cases step with
  | edit e sorted numbers => exact ⟨cuts, h.edit sorted numbers⟩
  | broadcast now => exact h.broadcast now
  | full now => exact h.full now
  | restart settings settingsFile now name => exact h.restart settingsFile now name
  | arrive => exact ⟨cuts, h.arrive⟩
  | lose => exact ⟨cuts, h.follower (fun q hq => List.mem_of_mem_tail hq) h.nodes h.trusted⟩
  | purge =>
    obtain ⟨untrusted, nodes⟩ := PeerTable.purge_untrusted l.follower.table h.nodes peer
    refine ⟨cuts, h.follower (fun q hq => hq) nodes (fun k hk => ?_)⟩
    cases untrusted.symm.trans hk
  | elsewhere trust copy nodes =>
    refine ⟨cuts, h.follower (fun q hq => hq) nodes (fun k hk => ?_)⟩
    rw [copy]
    exact h.trusted k (trust.symm.trans hk)

theorem sound_run (opening : Opening peer l)
    (run : Relation.ReflTransGen (Passes peer careful) l l') : ∃ cuts, Sound peer cuts l' := by
  induction run with
  | refl => exact sound_of_opening opening
  | tail _ step ih =>
    obtain ⟨cuts, h⟩ := ih
    exact sound_step h step

/-! ## The order of lives -/

/-- Messages on their way lead from one life to another: the life changes only
where an announcement comes. -/
def Leading : Nat → List Parcel → Nat → Prop
  | i, [], j => i = j
  | i, p :: ps, j => (p.announces = false → p.life = i) ∧ Leading p.life ps j

theorem Leading.append {i j k : Nat} {ps qs : List Parcel} (h : Leading i ps j)
    (h' : Leading j qs k) : Leading i (ps ++ qs) k := by
  induction ps generalizing i with
  | nil =>
    obtain rfl : i = j := h
    exact h'
  | cons p ps ih => exact ⟨h.1, ih h.2⟩

theorem leading_of_forall {i : Nat} {ps : List Parcel} (h : ∀ p ∈ ps, p.life = i) :
    Leading i ps i := by
  induction ps with
  | nil => exact rfl
  | cons p ps ih =>
    obtain ⟨rfl, rest⟩ := List.forall_mem_cons.1 h
    exact ⟨fun _ => rfl, ih rest⟩

/-- What arrives comes from the life that the copy is made from, up to the next
announcement, and what is on its way goes on from there. -/
structure Orderly (l : Line) (heard last : Nat) : Prop where
  made : ∀ i ∈ l.made, i = heard
  leading : Leading heard l.transit last
  last : l.announced = true → last = l.life
  announcements : ∀ p ∈ l.transit, p.announces = true → ∃ blob, p.message.payload = .full blob

/-- The lives that a copy is made from come from what arrived. -/
theorem sources_eq {made : List Nat} {p : Parcel} (r : Receipt) {heard : Nat}
    (all : ∀ i ∈ made, i = heard)
    (patch : p.message.payload = .patch p.message.changes → p.life = heard) :
    ∀ i ∈ sources made p r, i = p.life := by
  unfold sources
  cases payload : p.message.payload with
  | full blob => exact fun i hi => List.mem_singleton.1 hi
  | patch fs =>
    have same : p.life = heard := patch (by rw [payload, Message.changes, payload])
    have kept : ∀ i ∈ made, i = p.life := fun i hi => (all i hi).trans same.symm
    cases r with
    | applied =>
      intro i hi
      rcases List.mem_append.1 hi with hi | hi
      · exact kept i hi
      · exact List.mem_singleton.1 hi
    | duplicate => exact kept
    | needResync => exact kept

theorem orderly_step (kept : careful) {heard last : Nat} (h : Orderly l heard last)
    (step : Passes peer careful l l') : ∃ heard' last', Orderly l' heard' last' := by
  cases step with
  | edit => exact ⟨heard, last, h.made, h.leading, h.last, h.announcements⟩
  | broadcast now announced =>
    obtain rfl := h.last announced
    refine ⟨heard, _, h.made, h.leading.append (leading_of_forall ?_), fun _ => rfl, ?_⟩
    · intro p hp
      obtain ⟨m, -, rfl⟩ := List.mem_map.1 hp
      rfl
    · intro p hp
      rcases List.mem_append.1 hp with hp | hp
      · exact h.announcements p hp
      · obtain ⟨m, -, rfl⟩ := List.mem_map.1 hp
        exact nofun
  | full now =>
    refine ⟨heard, l.life, h.made, h.leading.append ⟨fun again => ?_, rfl⟩, fun _ => rfl, ?_⟩
    · -- a full message that announces nothing comes from the same life
      have announced : l.announced = true := by simpa using again
      exact (h.last announced).symm
    · intro p hp
      rcases List.mem_append.1 hp with hp | hp
      · exact h.announcements p hp
      · rw [List.mem_singleton.1 hp]
        exact fun _ => ⟨_, rfl⟩
  | restart => exact ⟨heard, last, h.made, h.leading, nofun, h.announcements⟩
  | arrive =>
    cases first : l.transit with
    | nil => exact ⟨heard, last, by rwa [Line.arrive_nil first]⟩
    | cons p rest =>
      rw [Line.arrive_cons first]
      have leading := h.leading
      have announcements := h.announcements
      rw [first] at leading announcements
      refine ⟨p.life, last, sources_eq _ h.made (fun patch => leading.1 ?_), leading.2, h.last,
        fun q hq => announcements q (List.mem_cons_of_mem p hq)⟩
      -- a patch announces nothing
      by_contra announces
      obtain ⟨blob, full⟩ := announcements p List.mem_cons_self (by simpa using announces)
      cases patch.symm.trans full
  | lose lost =>
    refine ⟨heard, last, h.made, ?_, h.last, fun q hq => h.announcements q (List.mem_of_mem_tail hq)⟩
    have leading := h.leading
    unfold Line.lose
    cases first : l.transit with
    | nil => rwa [first] at leading
    | cons p rest =>
      rw [first] at leading
      have same : p.life = heard := leading.1 (lost kept p (by rw [first]; rfl))
      exact same ▸ leading.2
  | purge => exact ⟨heard, last, h.made, h.leading, h.last, h.announcements⟩
  | elsewhere => exact ⟨heard, last, h.made, h.leading, h.last, h.announcements⟩

theorem orderly_run (kept : careful) (opening : Opening peer l)
    (run : Relation.ReflTransGen (Passes peer careful) l l') :
    ∃ heard last, Orderly l' heard last := by
  induction run with
  | refl =>
    refine ⟨l.life, l.life, fun i hi => ?_, ?_, fun _ => rfl, fun p hp => ?_⟩
    · rw [opening.made] at hi
      cases hi
    · rw [opening.transit]
      exact rfl
    · rw [opening.transit] at hp
      cases hp
  | tail _ step ih =>
    obtain ⟨heard, last, h⟩ := ih
    exact orderly_step kept h step

/-! ## Safety -/

/-- **Restarts do not corrupt a copy that is made from the messages of one
life.** While the follower trusts it, it is a head that the sender had. If no
announcement is lost, every copy is made from the messages of one life. -/
theorem restart_safe (opening : Opening peer l)
    (run : Relation.ReflTransGen (Passes peer careful) l l') {k : Nat}
    (trusted : l'.follower.table.trust peer = .inSync k) :
    (l'.OneLife → ∃ a ∈ l'.had, IsCopy (l'.follower.store.copyOf peer) a)
      ∧ (careful → l'.OneLife) := by
  constructor
  · intro one
    obtain ⟨cuts, h⟩ := sound_run opening run
    obtain ⟨made, mirrors⟩ := h.trusted k trusted
    obtain ⟨i, hi⟩ := List.exists_mem_of_ne_nil _ made
    obtain ⟨a, ha, copy⟩ := mirrors i (fun j hj => one j hj i hi)
    have had : a ∈ l'.had := h.noted i a (List.mem_of_getElem? ha)
    exact ⟨a, had, copy.isCopy (fun v hv => h.real v (hv ▸ had))⟩
  · intro kept
    obtain ⟨heard, last, h⟩ := orderly_run kept opening run
    exact fun i hi j hj => (h.made i hi).trans (h.made j hj).symm

namespace Line

/-- The node `n1` has just started, and its follower knows nothing of it. -/
def opened : Line :=
  let f := Feed.born (.standard ⟨"n1", 0⟩) none 0
  { sender := f
    life := 0
    announced := false
    transit := []
    follower := ⟨[], ⟨.map [("cluster", .map [("nodes", .map [])])], none, []⟩⟩
    had := [f.store.journalHead]
    made := [] }

/-- The sender sets one of its labels, and broadcasts it. -/
def label (l : Line) (name : String) (now : Float) : Line :=
  (l.edit (.set (Layout.node "n1" ++ Path.ofKeys ["labels", name]) (.int 1))).broadcast now

/-- The sender has announced itself and set the label `a`, which the follower
knows. Then it was restarted, and its announcement is on its way. -/
def restarted : Line :=
  let l := (((opened.full 0).label "a" 1).arrive "n1").arrive "n1"
  (l.restart (Feed.born (.standard ⟨"n1", 0⟩) none 2)).full 2

/-- The announcement arrives, and so does the patch for the label `b`. -/
def afterAnnouncement : Line := ((restarted.arrive "n1").label "b" 3).arrive "n1"

/-- The announcement is lost. Patches for the labels `b` and `c` arrive. -/
def afterLoss : Line := (((restarted.lose.label "b" 3).arrive "n1").label "c" 4).arrive "n1"

end Line

theorem opening_opened : Opening "n1" Line.opened where
  born := ⟨_, _, _, rfl, rfl⟩
  announced := rfl
  transit := rfl
  untrusted := rfl
  nodes := ⟨[], rfl⟩
  had := rfl
  made := rfl

theorem Passes.label {l : Line} (name : String) (now : Float) (announced : l.announced = true) :
    Relation.ReflTransGen (Passes peer careful) l (l.label name now) :=
  (Relation.ReflTransGen.single (.edit _ trivial trivial)).tail (.broadcast now announced)

theorem run_restarted : Relation.ReflTransGen (Passes "n1" careful) Line.opened Line.restarted :=
  have first : Relation.ReflTransGen (Passes "n1" careful) Line.opened _ :=
    (((Relation.ReflTransGen.single (.full 0)).trans (Passes.label "a" 1 rfl)).tail .arrive).tail
      .arrive
  (first.tail (.restart (.standard ⟨"n1", 0⟩) none 2 rfl)).tail (.full 2)

theorem restart_safe_afterAnnouncement :
    Line.afterAnnouncement.follower.table.trust "n1" = .inSync 1
      ∧ ∃ a ∈ Line.afterAnnouncement.had,
        IsCopy (Line.afterAnnouncement.follower.store.copyOf "n1") a := by
  have run : Relation.ReflTransGen (Passes "n1" True) Line.opened Line.afterAnnouncement :=
    ((run_restarted.tail .arrive).trans (Passes.label "b" 3 rfl)).tail .arrive
  have trusted : Line.afterAnnouncement.follower.table.trust "n1" = .inSync 1 := rfl
  obtain ⟨real, one⟩ := restart_safe opening_opened run trusted
  exact ⟨trusted, real (one trivial)⟩

/-- When the announcement is lost, a copy that the sender never had is
trusted. -/
theorem not_real_afterLoss :
    Opening "n1" Line.opened
      ∧ Relation.ReflTransGen (Passes "n1" False) Line.opened Line.afterLoss
      ∧ Line.afterLoss.follower.table.trust "n1" = .inSync 2
      ∧ ¬ ∃ a ∈ Line.afterLoss.had, IsCopy (Line.afterLoss.follower.store.copyOf "n1") a := by
  refine ⟨opening_opened, ?_, rfl, by decide +kernel⟩
  exact (((((run_restarted.tail (.lose nofun)).trans (Passes.label "b" 3 rfl)).tail .arrive).trans
    (Passes.label "c" 4 rfl)).tail .arrive)

end HaCluster.Replication
