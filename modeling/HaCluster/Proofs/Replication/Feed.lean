import HaCluster.Proofs.Replication.Safety

/-!
# Publication without gaps

A publisher hands every change out once, in patches that are numbered without a
gap, whatever it is asked for in between. A full message for one peer cuts the
queue behind the backs of the others, but the patch that it cuts waits in front
of those cut later. Hence a peer that has taken a full message and from then on
takes every patch that is handed out is never out of step (`without_gaps`).

The sender is accounted for without its peers: what a stretch of its run has
cut is numbered on from the last cut, is what was waiting and queued before and
has been queued since (`Ledger`), and leads from the head at the beginning to
the head at the end. A broadcast leaves nothing behind (`Feed.pending_broadcast`),
so by then every change that was ever queued is handed out (`Stream.broadcast`).
A peer only has to tell the patches that its full message contained from those
that follow on it, and has the head after every broadcast (`Stream.followed`).
-/

namespace HaCluster

/-- The changes that a message carries as a patch. -/
def Message.changes (m : Message) : List Fragment :=
  match m.payload with
  | .patch fs => fs
  | .full _ => []

namespace Replication

open Value Store

/-! ## Feeds -/

/-- A node that publishes its changes. -/
structure Feed where
  store : Store
  publisher : Publisher

namespace Feed

/-- The node edits its tree. -/
def edit (f : Feed) (e : Edit) : Feed :=
  { f with store := e.perform f.store }

/-- What an edit queues. -/
def queuedBy (f : Feed) (e : Edit) : List Fragment :=
  (e.perform f.store).queue.drop f.store.queue.length

/-- The node hands out what it has to broadcast. -/
def broadcast (f : Feed) (now : Float) : List Message × Feed :=
  let (ms, p, s) := f.publisher.nextPatches f.store now
  (ms, ⟨s, p⟩)

/-- The node makes a full message for one peer. -/
def full (f : Feed) (now : Float) : Message × Feed :=
  let (m, p, s) := f.publisher.full f.store now
  (m, ⟨s, p⟩)

/-- What the node has not handed out yet. -/
def pending (f : Feed) : List Fragment :=
  f.publisher.unsent.flatMap Message.changes ++ f.store.queue

/-- Nothing waits after a broadcast, neither a patch nor a change. -/
theorem idle_broadcast (f : Feed) (now : Float) :
    (f.broadcast now).2.publisher.unsent = [] ∧ (f.broadcast now).2.store.queue = [] :=
  ⟨rfl, rfl⟩

theorem pending_broadcast (f : Feed) (now : Float) : (f.broadcast now).2.pending = [] := by
  obtain ⟨unsent, queue⟩ := f.idle_broadcast now
  rw [pending, unsent, queue]
  rfl

/-- The node keeps a journal, and its tree is well formed. -/
structure Keeps (f : Feed) (j : Journal) : Prop where
  journal : f.store.journal = some j
  sorted : f.store.data.Sorted

end Feed

/-- One step of a feed, with the changes that it queues and the patches that it
hands out. -/
inductive Sends : Feed → List Fragment → List Message → Feed → Prop
  /-- The node edits its tree anywhere. -/
  | edit {f : Feed} (e : Edit) (sorted : e.Given Value.Sorted) :
    Sends f (f.queuedBy e) [] (f.edit e)
  | broadcast {f : Feed} (now : Float) : Sends f [] (f.broadcast now).1 (f.broadcast now).2
  | full {f : Feed} (now : Float) : Sends f [] [] (f.full now).2

/-- A run of a feed, with all the changes that it queued and all the patches
that it handed out. -/
inductive Stream : Feed → List Fragment → List Message → Feed → Prop
  | refl (f : Feed) : Stream f [] [] f
  | tail {f g h : Feed} {fs gs : List Fragment} {ms ns : List Message}
    (run : Stream f fs ms g) (step : Sends g gs ns h) : Stream f (fs ++ gs) (ms ++ ns) h

/-! ## Accounting -/

variable {f g h : Feed} {fs gs : List Fragment} {ms ns cs ds : List Message} {n : Nat}
  {j : Journal}

/-- Patches with the numbers from `n` on, one after the other. -/
structure Numbered (n : Nat) (ms : List Message) : Prop where
  ids : ms.map Message.id = List.range' n ms.length
  patches : ∀ m ∈ ms, m.payload = .patch m.changes

theorem numbered_nil (n : Nat) : Numbered n [] := ⟨rfl, fun m hm => by cases hm⟩

theorem numbered_cons {m : Message} :
    Numbered n (m :: ms) ↔ m.id = n ∧ m.payload = .patch m.changes ∧ Numbered (n + 1) ms := by
  constructor
  · rintro ⟨ids, patches⟩
    rw [List.map_cons, List.length_cons, List.range'_succ, List.cons.injEq] at ids
    exact ⟨ids.1, patches m List.mem_cons_self, ids.2,
      fun m' hm' => patches m' (List.mem_cons_of_mem m hm')⟩
  · rintro ⟨id, patch, ids, patches⟩
    refine ⟨?_, ?_⟩
    · rw [List.map_cons, List.length_cons, List.range'_succ, id, ids]
    · intro m' hm'
      rcases List.mem_cons.1 hm' with rfl | hm'
      · exact patch
      · exact patches m' hm'

theorem numbered_append :
    Numbered n (ms ++ ns) ↔ Numbered n ms ∧ Numbered (n + ms.length) ns := by
  induction ms generalizing n with
  | nil => exact ⟨fun h => ⟨numbered_nil n, h⟩, fun h => h.2⟩
  | cons m ms ih =>
    rw [List.cons_append, numbered_cons, numbered_cons, ih, List.length_cons,
      show n + (ms.length + 1) = n + 1 + ms.length by omega]
    exact ⟨fun ⟨a, b, c, d⟩ => ⟨⟨a, b, c⟩, d⟩, fun ⟨⟨a, b, c⟩, d⟩ => ⟨a, b, c, d⟩⟩

theorem Numbered.id_lt (h : Numbered n ms) {m : Message} (hm : m ∈ ms) :
    m.id < n + ms.length := by
  have mem := List.mem_map_of_mem (f := Message.id) hm
  rw [h.ids, List.mem_range'_1] at mem
  exact mem.2

/-- What a stretch of a run has cut: what was handed out, and waits at the end,
is what was waiting and what was cut. The cut patches are numbered on, and they
carry what was queued before and since, but for what still is. -/
structure Ledger (f : Feed) (fs : List Fragment) (ms : List Message) (g : Feed)
    (cs : List Message) : Prop where
  handed : ms ++ g.publisher.unsent = f.publisher.unsent ++ cs
  numbered : Numbered (f.publisher.lastId + 1) cs
  last : g.publisher.lastId = f.publisher.lastId + cs.length
  changes : cs.flatMap Message.changes ++ g.store.queue = f.store.queue ++ fs

theorem Ledger.trans (h₁ : Ledger f fs ms g cs) (h₂ : Ledger g gs ns h ds) :
    Ledger f (fs ++ gs) (ms ++ ns) h (cs ++ ds) where
  handed := by rw [List.append_assoc, h₂.handed, ← List.append_assoc, h₁.handed, List.append_assoc]
  numbered := by
    rw [numbered_append, Nat.add_right_comm, ← h₁.last]
    exact ⟨h₁.numbered, h₂.numbered⟩
  last := by
    rw [h₂.last, h₁.last, List.length_append]
    omega
  changes := by
    rw [List.flatMap_append, List.append_assoc, h₂.changes, ← List.append_assoc, h₁.changes,
      List.append_assoc]

/-- Cutting numbers on and carries all changes. -/
theorem cut_spec {p q : Publisher} {now : Float} (cut : p.cut fs now = (cs, q)) :
    q.unsent = p.unsent ∧ Numbered (p.lastId + 1) cs ∧ q.lastId = p.lastId + cs.length
      ∧ cs.flatMap Message.changes = fs := by
  cases fs with
  | nil =>
    cases cut
    exact ⟨rfl, numbered_nil _, rfl, rfl⟩
  | cons f fs =>
    cases cut
    exact ⟨rfl, numbered_cons.2 ⟨rfl, rfl, numbered_nil _⟩, rfl, List.append_nil _⟩

/-- What an edit queues comes after what is queued, and leads to the new head. -/
theorem Feed.Keeps.edit (keys : j.ByKeys) (head : j.head ≠ []) (exclude : [] ∉ j.exclude)
    (keeps : f.Keeps j) {e : Edit} (sorted : e.Given Value.Sorted) :
    (f.edit e).Keeps j ∧ (f.edit e).store.queue = f.store.queue ++ f.queuedBy e
      ∧ Leads f.store.journalHead (f.queuedBy e) (f.edit e).store.journalHead := by
  have recorded := kept_recorded.perform sorted f.store
  obtain ⟨fs, queue, leads⟩ :=
    leads_of_recorded keys head exclude keeps.journal keeps.sorted recorded
  have same : f.queuedBy e = fs := by
    rw [Feed.queuedBy, queue, List.drop_left]
  rw [same]
  exact ⟨⟨recorded.journal.trans keeps.journal, (recorded.changes keeps.sorted).1⟩, queue, leads⟩

/-- **One step is accounted for.** -/
theorem Sends.ledger (keys : j.ByKeys) (head : j.head ≠ []) (exclude : [] ∉ j.exclude)
    (keeps : f.Keeps j) (step : Sends f fs ms g) :
    g.Keeps j ∧ Leads f.store.journalHead fs g.store.journalHead ∧ ∃ cs, Ledger f fs ms g cs := by
  cases step with
  | edit e sorted =>
    obtain ⟨kept, queue, leads⟩ := keeps.edit keys head exclude sorted
    exact ⟨kept, leads, [], (List.append_nil _).symm, numbered_nil _, rfl, queue⟩
  | broadcast now =>
    obtain ⟨cs, q, cut⟩ : ∃ cs q, f.publisher.cut f.store.queue now = (cs, q) := ⟨_, _, rfl⟩
    have shape : f.broadcast now
        = (f.publisher.unsent ++ cs, ⟨f.store.popJournal.2, { q with unsent := [] }⟩) := by
      unfold Feed.broadcast Publisher.nextPatches popJournal
      dsimp only
      rw [cut]
    obtain ⟨-, numbered, last, changes⟩ := cut_spec cut
    rw [shape]
    refine ⟨⟨keeps.journal, keeps.sorted⟩, leads_nil.2 rfl, cs, List.append_nil _, numbered, last,
      ?_⟩
    rw [changes]
    rfl
  | full now =>
    obtain ⟨cs, q, cut⟩ : ∃ cs q, f.publisher.cut f.store.queue now = (cs, q) := ⟨_, _, rfl⟩
    have shape : (f.full now).2 = ⟨f.store.popJournal.2, { q with unsent := q.unsent ++ cs }⟩ := by
      unfold Feed.full Publisher.full popJournal
      dsimp only
      rw [cut]
    obtain ⟨same, numbered, last, changes⟩ := cut_spec cut
    rw [shape]
    refine ⟨⟨keeps.journal, keeps.sorted⟩, leads_nil.2 rfl, cs, ?_, numbered, last, ?_⟩
    · rw [← same]
      rfl
    · rw [changes]
      rfl

/-- **Every run is accounted for.** -/
theorem Stream.ledger (keys : j.ByKeys) (head : j.head ≠ []) (exclude : [] ∉ j.exclude)
    (keeps : f.Keeps j) (run : Stream f fs ms g) :
    g.Keeps j ∧ Leads f.store.journalHead fs g.store.journalHead ∧ ∃ cs, Ledger f fs ms g cs := by
  induction run with
  | refl =>
    exact ⟨keeps, leads_nil.2 rfl, [], (List.append_nil _).symm, numbered_nil _, rfl,
      (List.append_nil _).symm⟩
  | tail _ step ih =>
    obtain ⟨kept, leads, cs, ledger⟩ := ih
    obtain ⟨kept', leads', ds, ledger'⟩ := step.ledger keys head exclude kept
    exact ⟨kept', leads.append leads', cs ++ ds, ledger.trans ledger'⟩

/-- What leads somewhere leads through a place after each of its parts. -/
theorem Leads.split {a c : Option Value} (h : Leads a (fs ++ gs) c) :
    ∃ b, Leads a fs b ∧ Leads b gs c := by
  unfold Leads at h
  rw [List.map_append, followAll?_append] at h
  obtain ⟨x, hx, rest⟩ := Option.bind_eq_some_iff.1 h
  have through := hx
  rw [followAll?_plain] at hx
  obtain ⟨b, -, rfl⟩ := Option.map_eq_some_iff.1 hx
  exact ⟨b, through, rest⟩

theorem Mirrors.congr {copy a b : Option Value} (h : Mirrors copy a)
    (e : a.map plain = b.map plain) : Mirrors copy b := by
  rcases h with h | ⟨rfl, h⟩
  · exact .inl (h.trans e)
  · exact .inr ⟨Option.map_eq_none_iff.1 e.symm, h⟩

/-! ## Followers -/

/-- A node that follows peers. -/
structure Follower where
  table : PeerTable
  store : Store

variable {x y : Follower} {peer : String} {rs : List Receipt} {k : Nat} {copy : Option Value}

namespace Follower

/-- Takes a message of a peer in. -/
def take (x : Follower) (peer : String) (m : Message) : Receipt × Follower :=
  let (r, t, s) := x.table.receive x.store peer m
  (r, ⟨t, s⟩)

/-- The follower trusts a copy of a peer up to patch `k`. -/
structure At (x : Follower) (peer : String) (k : Nat) (copy : Option Value) : Prop where
  nodes : x.store.HasNodes
  trust : x.table.trust peer = .inSync k
  copy : x.store.copyOf peer = copy

/-- The copy of a peer mirrors the head that the peer has, and equals it if no number
in the head is a NaN. -/
structure HasHead (x : Follower) (peer : String) (f : Feed) : Prop where
  mirrors : Mirrors (x.store.copyOf peer) f.store.journalHead
  isCopy : (∀ v, f.store.journalHead = some v → v.NoNaN) →
    IsCopy (x.store.copyOf peer) f.store.journalHead

end Follower

/-- A follower takes messages of a peer in one after the other, and answers
each of them. In between it may do anything else that leaves the copy of the
peer, the trust in it and the mapping with all copies alone. -/
inductive Intake (peer : String) :
    Follower → List Message → List Receipt → Follower → Prop
  | nil (x : Follower) : Intake peer x [] [] x
  | take {x y : Follower} {m : Message} {ms : List Message} {rs : List Receipt}
    (rest : Intake peer (x.take peer m).2 ms rs y) :
    Intake peer x (m :: ms) ((x.take peer m).1 :: rs) y
  | elsewhere {x x' y : Follower} {ms : List Message} {rs : List Receipt}
    (trust : x'.table.trust peer = x.table.trust peer)
    (copy : x'.store.copyOf peer = x.store.copyOf peer) (nodes : x'.store.HasNodes)
    (rest : Intake peer x' ms rs y) : Intake peer x ms rs y

theorem Follower.At.elsewhere {x' : Follower} (h : x.At peer k copy)
    (trust : x'.table.trust peer = x.table.trust peer)
    (same : x'.store.copyOf peer = x.store.copyOf peer) (nodes : x'.store.HasNodes) :
    x'.At peer k copy :=
  ⟨nodes, trust.trans h.trust, same.trans h.copy⟩

/-- What is taken in first and what is taken in then is taken in. -/
theorem Intake.append {z : Follower} {rs' : List Receipt} (h : Intake peer x ms rs y)
    (h' : Intake peer y ns rs' z) : Intake peer x (ms ++ ns) (rs ++ rs') z := by
  induction h with
  | nil => exact h'
  | take _ ih => exact .take (ih h')
  | elsewhere trust copy nodes _ ih => exact .elsewhere trust copy nodes (ih h')

/-- A sequence of messages can be taken in in two parts. -/
theorem Intake.split (h : Intake peer x (ms ++ ns) rs y) :
    ∃ rs₁ rs₂ z, rs = rs₁ ++ rs₂ ∧ Intake peer x ms rs₁ z ∧ Intake peer z ns rs₂ y := by
  generalize hl : ms ++ ns = l at h
  induction h generalizing ms with
  | nil x =>
    obtain ⟨rfl, rfl⟩ := List.append_eq_nil_iff.1 hl
    exact ⟨[], [], x, rfl, .nil x, .nil x⟩
  | @take x y m l rs rest ih =>
    cases ms with
    | nil =>
      obtain rfl : ns = m :: l := hl
      exact ⟨[], _, x, rfl, .nil x, .take rest⟩
    | cons m' ms =>
      rw [List.cons_append, List.cons.injEq] at hl
      obtain ⟨rfl, hl⟩ := hl
      obtain ⟨rs₁, rs₂, z, rfl, first, second⟩ := ih hl
      exact ⟨_ :: rs₁, rs₂, z, rfl, .take first, second⟩
  | elsewhere trust copy nodes _ ih =>
    obtain ⟨rs₁, rs₂, z, rfl, first, second⟩ := ih hl
    exact ⟨rs₁, rs₂, z, rfl, .elsewhere trust copy nodes first, second⟩

/-- Patches that the copy contains already change nothing. -/
theorem Intake.old (h : Intake peer x ms rs y) (here : x.At peer k copy)
    (old : ∀ m ∈ ms, m.id ≤ k ∧ m.payload = .patch m.changes) :
    (∀ r ∈ rs, r = .duplicate) ∧ y.At peer k copy := by
  induction h with
  | nil => exact ⟨fun r hr => (by cases hr), here⟩
  | @take x y m ms rs _ ih =>
    obtain ⟨id, patch⟩ := old m List.mem_cons_self
    have taken : x.take peer m = (.duplicate, x) := by
      unfold Follower.take
      rw [PeerTable.receive_old here.trust patch id]
    rw [taken] at ih ⊢
    obtain ⟨dropped, there⟩ := ih here (fun m' hm' => old m' (List.mem_cons_of_mem m hm'))
    exact ⟨List.forall_mem_cons.2 ⟨rfl, dropped⟩, there⟩
  | elsewhere trust same nodes _ ih => exact ih (here.elsewhere trust same nodes) old

/-- Patches in turn that can be followed from the copy lead it there. -/
theorem Intake.next (h : Intake peer x ms rs y) (here : x.At peer k copy)
    (numbered : Numbered (k + 1) ms) {copy' : Option Value}
    (follow : followAll? copy (ms.flatMap Message.changes) = some copy') :
    (∀ r ∈ rs, r = .applied) ∧ y.At peer (k + ms.length) copy' := by
  induction h generalizing k copy with
  | nil =>
    cases follow
    exact ⟨fun r hr => (by cases hr), here⟩
  | @take x y m ms rs _ ih =>
    obtain ⟨id, patch, numbered⟩ := numbered_cons.1 numbered
    rw [List.flatMap_cons, followAll?_append] at follow
    obtain ⟨z, hz, follow⟩ := Option.bind_eq_some_iff.1 follow
    rw [← here.copy] at hz
    obtain ⟨s', received, nodes, copied⟩ :=
      PeerTable.receive_next (t := x.table) here.nodes here.trust patch id hz
    have taken : x.take peer m = (.applied, ⟨Entries.insert x.table peer (.inSync m.id), s'⟩) := by
      unfold Follower.take
      rw [received]
    rw [taken] at ih ⊢
    have next : Follower.At ⟨Entries.insert x.table peer (.inSync m.id), s'⟩ peer (k + 1) z :=
      ⟨nodes, by rw [PeerTable.trust_insert, id], copied⟩
    obtain ⟨applied, there⟩ := ih next numbered follow
    refine ⟨List.forall_mem_cons.2 ⟨rfl, applied⟩, ?_⟩
    rw [List.length_cons, show k + (ms.length + 1) = k + 1 + ms.length by omega]
    exact there
  | elsewhere trust same nodes _ ih =>
    exact ih (here.elsewhere trust same nodes) numbered follow

/-- A full message is applied wherever there is room for it. -/
theorem take_full {m : Message} {blob : Value} (peer : String) (room : x.store.HasRoom)
    (hm : m.payload = .full blob) :
    (x.take peer m).1 = .applied ∧ (x.take peer m).2.At peer m.id (some blob) := by
  obtain ⟨s', received, nodes, copied⟩ := PeerTable.receive_full (t := x.table) room hm
  have taken : x.take peer m = (.applied, ⟨Entries.insert x.table peer (.inSync m.id), s'⟩) := by
    unfold Follower.take
    rw [received]
  rw [taken]
  exact ⟨rfl, nodes, PeerTable.trust_insert _ _ _, copied⟩

theorem Intake.full {m : Message} {blob : Value} (h : Intake peer x (m :: ms) rs y)
    (room : x.store.HasRoom) (hm : m.payload = .full blob) :
    ∃ rs' z, rs = .applied :: rs' ∧ z.At peer m.id (some blob) ∧ Intake peer z ms rs' y := by
  generalize hl : m :: ms = l at h
  induction h with
  | nil => cases hl
  | @take x y m' l rs rest _ =>
    obtain ⟨rfl, rfl⟩ := List.cons.inj hl
    obtain ⟨applied, there⟩ := take_full peer room hm
    exact ⟨rs, _, by rw [applied], there, rest⟩
  | elsewhere _ _ nodes _ ih => exact ih nodes.hasRoom hl

/-! ## Following a feed -/

/-- What a publisher has cut since it was new. -/
theorem Ledger.from_new (ledger : Ledger f fs ms g cs) (new : f.publisher = Publisher.new) :
    Numbered 1 (ms ++ g.publisher.unsent)
      ∧ (ms ++ g.publisher.unsent).flatMap Message.changes ++ g.store.queue
        = f.store.queue ++ fs := by
  have unsent : f.publisher.unsent = [] := by rw [new]; rfl
  have lastId : f.publisher.lastId = 0 := by rw [new]; rfl
  have numbered := ledger.numbered
  rw [lastId] at numbered
  rw [ledger.handed, unsent, List.nil_append]
  exact ⟨numbered, ledger.changes⟩

/-- Whatever waits to be handed out was cut before now. -/
theorem Ledger.waiting (ledger : Ledger f fs ms g cs) (new : f.publisher = Publisher.new) :
    ∀ m ∈ g.publisher.unsent, m.id ≤ g.publisher.lastId ∧ m.payload = .patch m.changes := by
  intro m hm
  have member : m ∈ cs := by
    have handed := ledger.handed
    rw [new] at handed
    have cut : ms ++ g.publisher.unsent = cs := handed
    rw [← cut]
    exact List.mem_append_right _ hm
  refine ⟨?_, ledger.numbered.patches m member⟩
  have bound := ledger.numbered.id_lt member
  have last := ledger.last
  omega

/-- The full message of a feed has its head, as it is numbered. -/
theorem full_payload (f : Feed) (now : Float) :
    (f.full now).1.id = (f.full now).2.publisher.lastId
      ∧ (f.full now).1.payload = .full ((f.full now).2.store.journalHead.getD Value.empty) :=
  ⟨rfl, rfl⟩

theorem mirrors_getD (a : Option Value) : Mirrors (some (a.getD Value.empty)) a := by
  cases a with
  | some v => exact .inl rfl
  | none => exact .inr ⟨rfl, rfl⟩

/-- From a copy of the head on, patches that were waiting then and were cut
since are dropped and applied, and the copy is what they lead to. -/
theorem Ledger.follow {a : Option Value} (ledger : Ledger f fs ms g cs)
    (leads : Leads f.store.journalHead fs a) (idle : f.store.queue = [])
    (waiting : ∀ m ∈ f.publisher.unsent,
      m.id ≤ f.publisher.lastId ∧ m.payload = .patch m.changes)
    (here : x.At peer f.publisher.lastId copy) (mirrors : Mirrors copy f.store.journalHead)
    (intake : Intake peer x ms rs y) :
    (∀ r ∈ rs, r = .applied ∨ r = .duplicate)
      ∧ ∃ taken rest b copy', cs = taken ++ rest ∧ (g.publisher.unsent = [] → rest = [])
        ∧ y.At peer (f.publisher.lastId + taken.length) copy' ∧ Mirrors copy' b
        ∧ Leads b (rest.flatMap Message.changes ++ g.store.queue) a := by
  have changes := ledger.changes
  rw [idle, List.nil_append] at changes
  rcases List.append_eq_append_iff.1 ledger.handed with ⟨ds, waited, unsent⟩ | ⟨taken, all, cut⟩
  · -- only patches that the copy contains were handed out
    obtain ⟨dropped, there⟩ := intake.old here (fun m hm => waiting m (by
      rw [waited]
      exact List.mem_append_left _ hm))
    refine ⟨fun r hr => .inr (dropped r hr), [], cs, _, copy, rfl, fun none => ?_, there,
      mirrors, changes.symm ▸ leads⟩
    rw [unsent] at none
    exact (List.append_eq_nil_iff.1 none).2
  · rw [cut, List.flatMap_append, List.append_assoc] at changes
    rw [← changes] at leads
    obtain ⟨b, first, second⟩ := leads.split
    obtain ⟨copy', follow, mirrors'⟩ := mirrors.followAll? first
    have numbered := ledger.numbered
    rw [cut, numbered_append] at numbered
    rw [all] at intake
    obtain ⟨rs₁, rs₂, z, rfl, olds, news⟩ := intake.split
    obtain ⟨dropped, between⟩ := olds.old here waiting
    obtain ⟨applied, there⟩ := news.next between numbered.1 follow
    refine ⟨fun r hr => ?_, taken, g.publisher.unsent, b, copy', cut, id, there, mirrors', second⟩
    rcases List.mem_append.1 hr with hr | hr
    · exact .inr (dropped r hr)
    · exact .inl (applied r hr)

section

variable (keys : j.ByKeys) (head : j.head ≠ []) (exclude : [] ∉ j.exclude) (keeps : f.Keeps j)
  (new : f.publisher = Publisher.new)

include keys head exclude keeps new

/-- What was handed out in a run, and what is pending, is what was queued. -/
theorem Stream.handed (run : Stream f fs ms g) :
    Numbered 1 ms ∧ ms.flatMap Message.changes ++ g.pending = f.store.queue ++ fs := by
  obtain ⟨-, -, cs, ledger⟩ := run.ledger keys head exclude keeps
  obtain ⟨numbered, all⟩ := ledger.from_new new
  refine ⟨(numbered_append.1 numbered).1, ?_⟩
  rw [Feed.pending, ← List.append_assoc, ← List.flatMap_append, all]

/-- **A broadcast leaves nothing behind**: with it everything that was queued is
handed out. -/
theorem Stream.broadcast (run : Stream f fs ms g) (now : Float) :
    (ms ++ (g.broadcast now).1).flatMap Message.changes = f.store.queue ++ fs := by
  have all := ((run.tail (.broadcast now)).handed keys head exclude keeps new).2
  rwa [Feed.pending_broadcast, List.append_nil, List.append_nil] at all

/-- **A peer that follows a feed** from a full message on is never out of step. It has
all patches when none waits, and the head when moreover nothing is queued. -/
theorem Stream.followed (run : Stream f fs ms g) {now : Float} {later : List Message}
    (later_run : Stream (g.full now).2 gs later h) (room : x.store.HasRoom)
    (intake : Intake peer x ((g.full now).1 :: later) rs y) :
    (∀ r ∈ rs, r = .applied ∨ r = .duplicate)
      ∧ (h.publisher.unsent = [] → y.table.trust peer = .inSync h.publisher.lastId)
      ∧ (y.table.trust peer = .inSync h.publisher.lastId → h.store.queue = [] →
        y.HasHead peer h) := by
  obtain ⟨kept, -, cs, before⟩ := (run.tail (.full now)).ledger keys head exclude keeps
  obtain ⟨-, leads, ds, after⟩ := later_run.ledger keys head exclude kept
  obtain ⟨id, payload⟩ := full_payload g now
  obtain ⟨rs', z, rfl, here, rest⟩ := intake.full room payload
  rw [id] at here
  obtain ⟨answers, taken, rest, b, copy', rfl, none, there, mirrors, lacks⟩ :=
    after.follow leads rfl (before.waiting new) here (mirrors_getD _) rest
  refine ⟨List.forall_mem_cons.2 ⟨.inl rfl, answers⟩, fun nothing => ?_, fun trust idle => ?_⟩
  · rw [there.trust, after.last, none nothing, List.append_nil]
  · have count : taken.length = (taken ++ rest).length := by
      rw [there.trust, after.last] at trust
      injection trust with trust
      omega
    have all : rest = [] := by
      rw [List.length_append] at count
      exact List.length_eq_zero_iff.1 (by omega)
    rw [all, idle] at lacks
    have level := mirrors.congr (leads_nil.1 lacks)
    rw [← there.copy] at level
    exact ⟨level, level.isCopy⟩

end

/-- **Publication without gaps.** Whatever a node edits and whomever it makes
full messages for, it hands out patches numbered from one on, and their changes
are those that were queued, in order, up to what is still pending. A broadcast
leaves nothing pending: with it the changes that were handed out are exactly
those that were queued. A peer that takes a full message and from then on
everything that is handed out never needs another one. It has all patches when
none waits to be handed out, and when it has all patches and nothing is queued,
its copy is the head. So it is after every broadcast. -/
theorem without_gaps (keys : j.ByKeys) (head : j.head ≠ []) (exclude : ∀ ex ∈ j.exclude, ex ≠ [])
    (keeps : f.Keeps j) (new : f.publisher = Publisher.new) (run : Stream f fs ms g) :
    Numbered 1 ms ∧ ms.flatMap Message.changes ++ g.pending = f.store.queue ++ fs
      ∧ (∀ now : Float, (g.broadcast now).2.pending = []
        ∧ (ms ++ (g.broadcast now).1).flatMap Message.changes = f.store.queue ++ fs)
      ∧ ∀ (now : Float) {later : List Message} {gs : List Fragment} {h : Feed} {peer : String}
        {x y : Follower} {rs : List Receipt}, Stream (g.full now).2 gs later h →
        x.store.HasRoom → Intake peer x ((g.full now).1 :: later) rs y →
        (∀ r ∈ rs, r = .applied ∨ r = .duplicate)
          ∧ (h.publisher.unsent = [] → y.table.trust peer = .inSync h.publisher.lastId)
          ∧ (y.table.trust peer = .inSync h.publisher.lastId → h.store.queue = [] →
            y.HasHead peer h)
          ∧ ∀ (next : Float) {rs' : List Receipt} {z : Follower},
            Intake peer y (h.broadcast next).1 rs' z →
            (∀ r ∈ rs', r = .applied ∨ r = .duplicate) ∧ z.HasHead peer (h.broadcast next).2 := by
  have root : [] ∉ j.exclude := fun hE => exclude [] hE rfl
  obtain ⟨numbered, handed⟩ := run.handed keys head root keeps new
  refine ⟨numbered, handed, fun now => ⟨g.pending_broadcast now,
    run.broadcast keys head root keeps new now⟩, ?_⟩
  intro now later gs h peer x y rs later_run room intake
  obtain ⟨answers, all, level⟩ := run.followed keys head root keeps new later_run room intake
  refine ⟨answers, all, level, fun next rs' z last => ?_⟩
  -- the broadcast is one more step of the run, after which nothing waits
  obtain ⟨answers', all', level'⟩ := run.followed keys head root keeps new
    (later_run.tail (.broadcast next)) room (intake.append last)
  obtain ⟨unsent, queue⟩ := h.idle_broadcast next
  exact ⟨fun r hr => answers' r (List.mem_append_right _ hr), level' (all' unsent) queue⟩

/-- A feed of one number under the key `a`. -/
def Feed.fresh : Feed :=
  ⟨⟨.map [("a", .map [("v", .int 1)])], some ⟨[.key "a"], [[.key "x"]]⟩, []⟩, Publisher.new⟩

/-- The number is changed before the full message for the follower, and before
and after one for another peer. Then all three changes are broadcast. -/
theorem without_gaps_fresh :
    let change (n : Int64) : Edit := .set [.key "a", .key "v"] (.int n)
    let g := Feed.fresh.edit (change 2)
    let h := (((g.full 0).2.edit (change 3)).full 1).2.edit (change 4)
    let x : Follower := ⟨[], ⟨.map [("cluster", .map [])], none, []⟩⟩
    (h.broadcast 2).1.flatMap Message.changes
        = [⟨[.key "v"], some (.int 2)⟩, ⟨[.key "v"], some (.int 3)⟩, ⟨[.key "v"], some (.int 4)⟩]
      ∧ ∃ y z, Intake "a" x [(g.full 0).1] [.applied] y
        ∧ Intake "a" y (h.broadcast 2).1 [.duplicate, .applied, .applied] z
        ∧ IsCopy (z.store.copyOf "a") (h.broadcast 2).2.store.journalHead := by
  intro change g h x
  have keys : Journal.ByKeys ⟨[.key "a"], [[.key "x"]]⟩ :=
    ⟨by simp [Path.AllKeys], by simp [Path.AllKeys]⟩
  have keeps : Feed.fresh.Keeps ⟨[.key "a"], [[.key "x"]]⟩ :=
    ⟨rfl, by simp [Feed.fresh, Everywhere, EverywhereEntries, isSorted, Entries.Sorted,
      Entries.keys]⟩
  have run := (Stream.refl Feed.fresh).tail (.edit (change 2) trivial)
  have whole_run := (((run.tail (.full 0)).tail (.edit (change 3) trivial)).tail (.full 1)).tail
    (.edit (change 4) trivial)
  have later_run := (((Stream.refl (g.full 0).2).tail (.edit (change 3) trivial)).tail
    (.full 1)).tail (.edit (change 4) trivial)
  have room : x.store.HasRoom := .inr ⟨rfl, [], rfl⟩
  let y := (x.take "a" (g.full 0).1).2
  have first : Intake "a" x [(g.full 0).1] [.applied] y := .take (.nil _)
  have second : Intake "a" y (h.broadcast 2).1 [.duplicate, .applied, .applied] _ :=
    .take (.take (.take (.nil _)))
  obtain ⟨-, -, broadcast, -⟩ := without_gaps keys (by simp) (by simp) keeps rfl whole_run
  obtain ⟨-, -, -, follows⟩ := without_gaps keys (by simp) (by simp) keeps rfl run
  obtain ⟨-, -, -, next⟩ := follows 0 later_run room first
  have last : (h.broadcast 2).2.store.journalHead = some (.map [("v", .int 4)]) := rfl
  refine ⟨(broadcast 2).2, y, _, first, second, (next 2 second).2.isCopy fun v hv => ?_⟩
  rw [← Option.some.inj (last.symm.trans hv)]
  simp [Everywhere, EverywhereEntries, isNumber]

end Replication

end HaCluster
