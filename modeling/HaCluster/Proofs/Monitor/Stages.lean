import HaCluster.Monitor.Round
import HaCluster.Proofs.Daemon.Requests

/-!
# The stages of a round

A round goes through stages, most of which have nothing to do with actions:
they write records, take statuses in, make up the picture of the cluster and
drop what is no longer wanted. On a sound daemon none of them fails, and none
of them touches the table of running actions (`Calm`). The two stages that do,
at the beginning and in the middle of a round, are the subject of the next
module.
-/

namespace HaCluster.Monitor

open Value Mutation

variable {W : Type} {α β : Type}

/-! ## Sound monitors -/

variable {R : String → Entries Value → Prop} {node : String} {s s' s'' : Monitor W}

/-- The daemon is sound, and every running action is listed once, under the
service it runs on. -/
structure Sound (R : String → Entries Value → Prop) (node : String) (s : Monitor W) : Prop where
  daemon : Daemon.Sound R node s.daemon
  sorted : Entries.Sorted s.running
  keyed : ∀ e ∈ s.running, e.2.action.path = e.1

/-- The actions of which the events between two states say that they could not
be launched. -/
def Refused (as : List Action) (s s' : Monitor W) : Prop :=
  ∃ es, s'.events = s.events ++ es ∧ ∀ a, Event.done a none ∈ es ↔ a ∈ as

theorem refused_refl (s : Monitor W) : Refused [] s s :=
  ⟨[], (List.append_nil _).symm, fun _ => ⟨nofun, nofun⟩⟩

theorem Refused.append {as bs : List Action} (h : Refused as s s') (h' : Refused bs s' s'') :
    Refused (as ++ bs) s s'' := by
  obtain ⟨es, hes, refused⟩ := h
  obtain ⟨es', hes', refused'⟩ := h'
  refine ⟨es ++ es', by rw [hes', hes, List.append_assoc], fun a => ?_⟩
  rw [List.mem_append, List.mem_append, refused, refused']

/-- Nothing that concerns actions happened between two states. -/
structure Calm (s s' : Monitor W) : Prop where
  running : s'.running = s.running
  settings : s'.daemon.settings = s.daemon.settings
  events : Refused [] s s'

theorem Calm.refl (s : Monitor W) : Calm s s := ⟨rfl, rfl, refused_refl s⟩

theorem Calm.trans (h : Calm s s') (h' : Calm s' s'') : Calm s s'' :=
  ⟨h'.running.trans h.running, h'.settings.trans h.settings, h.events.append h'.events⟩

/-- A step succeeds on sound monitors, leaves them sound, and does nothing that
concerns actions. -/
def Quiet (R : String → Entries Value → Prop) (node : String) (m : Step W α) : Prop :=
  ∀ s, Sound R node s → ∃ a s', m s = .ok a s' ∧ Sound R node s' ∧ Calm s s'

theorem quiet_pure (a : α) : Quiet R node (pure a : Step W α) :=
  fun s h => ⟨a, s, rfl, h, .refl s⟩

theorem quiet_bind {m : Step W α} {f : α → Step W β} (hm : Quiet R node m)
    (hf : ∀ a, Quiet R node (f a)) : Quiet R node (m >>= f) := by
  intro s h
  obtain ⟨a, t, ha, ht, calm⟩ := hm s h
  obtain ⟨b, u, hb, hu, calm'⟩ := hf a t ht
  exact ⟨b, u, (bind_ok ha).trans hb, hu, calm.trans calm'⟩

/-- A step that reads the monitor, and then acts on what it has read. -/
theorem quiet_get_bind {f : Monitor W → Step W β}
    (hf : ∀ s, Sound R node s → Quiet R node (f s)) : Quiet R node (get >>= f) :=
  fun s h => hf s h s h

theorem quiet_forM {f : α → Step W PUnit} {l : List α} (hf : ∀ a ∈ l, Quiet R node (f a)) :
    Quiet R node (l.forM f) := by
  induction l with
  | nil => exact quiet_pure _
  | cons a l ih =>
    exact quiet_bind (hf a List.mem_cons_self)
      (fun _ => ih (fun b hb => hf b (List.mem_cons_of_mem a hb)))

/-- The parts of a monitor that are not about actions may change. -/
theorem Sound.congr (h : Sound R node s) (daemon : Daemon.Sound R node s'.daemon)
    (running : s'.running = s.running) : Sound R node s' :=
  ⟨daemon, running ▸ h.sorted, running ▸ h.keyed⟩

theorem quiet_modify {f : Monitor W → Monitor W} (daemon : ∀ s, (f s).daemon = s.daemon)
    (running : ∀ s, (f s).running = s.running) (events : ∀ s, (f s).events = s.events) :
    Quiet R node (modify f : Step W PUnit) := by
  intro s h
  refine ⟨⟨⟩, f s, rfl, h.congr (daemon s ▸ h.daemon) (running s), running s, ?_, [], ?_,
    fun _ => ⟨nofun, nofun⟩⟩
  · rw [daemon s]
  · rw [events s, List.append_nil]

theorem quiet_emit {e : Event} (he : ∀ a, e ≠ .done a none) :
    Quiet R node (emit e : Step W Unit) :=
  fun s h => ⟨(), { s with events := s.events ++ [e] }, rfl, h.congr h.daemon rfl, rfl, rfl, [e],
    rfl, fun a => ⟨fun ha => absurd (List.mem_singleton.1 ha).symm (he a), nofun⟩⟩

/-- A step that notes an event under a condition first. -/
theorem when_emit {c : Prop} [Decidable c] {e : Event} (he : ∀ a, e ≠ .done a none)
    (f : PUnit → Step W β) (h : Sound R node s) :
    ∃ s', (if c then emit e >>= f else f ⟨⟩) s = f ⟨⟩ s' ∧ Sound R node s' ∧ Calm s s' := by
  split
  · obtain ⟨u, s', noted, sound, calm⟩ := quiet_emit (R := R) he s h
    exact ⟨s', bind_ok noted, sound, calm⟩
  · exact ⟨s, rfl, h, .refl s⟩

/-- A step of the daemon that is one of its mutations. -/
theorem quiet_onDaemon {m : Daemon.Step DataError α}
    (mutates : ∀ d, d.nodeName = node → ∃ mutation, Node.Blob.Keeps R node mutation
      ∧ m d = Daemon.mutate mutation d) : Quiet R node (onDaemon m : Step W α) := by
  intro s h
  obtain ⟨mutation, keeps, same⟩ := mutates s.daemon h.daemon.name
  obtain ⟨a, store, hm, shaped⟩ := h.daemon.mutate keeps
  refine ⟨a, { s with daemon := { s.daemon with store } }, ?_,
    h.congr ⟨h.daemon.name, shaped⟩ rfl, rfl, rfl, refused_refl s⟩
  unfold onDaemon
  rw [same, hm]

theorem quiet_mutate {m : Mutation α} (keeps : Node.Blob.Keeps R node m) :
    Quiet R node (mutate m : Step W α) :=
  quiet_onDaemon fun _ _ => ⟨m, keeps, rfl⟩

/-! ## The stages that have nothing to do with actions -/

theorem quiet_dropOrphans {v : View} (hv : v.localNode = node) :
    Quiet R node (dropOrphans v : Step W Unit) :=
  quiet_get_bind fun _ _ => quiet_forM fun p _ =>
    quiet_mutate (hv ▸ Node.Blob.keeps_dropInstance p)

/-- **The copies of the peers that are down are dropped.** The node itself is
not among them. -/
theorem quiet_purgeDownPeers (live : List String) (at_ : Float) :
    Quiet R node (purgeDownPeers live at_ : Step W (List String)) := by
  refine quiet_get_bind fun s h => ?_
  refine quiet_bind (quiet_forM fun peer hpeer => ?_) fun _ => quiet_pure _
  have ne : peer ≠ node := by
    obtain ⟨e, he, rfl⟩ := List.mem_map.1 hpeer
    have other := (List.mem_filter.1 he).2
    rw [h.daemon.name] at other
    simp only [Bool.and_eq_true, decide_eq_true_eq] at other
    exact other.1.1
  intro t ht
  obtain ⟨fs, store, gone, shaped⟩ := Node.Blob.keeps_forgetPeer ne t.daemon.store ht.daemon.shaped
  refine ⟨(), { t with daemon := { t.daemon with
    peers := Entries.erase t.daemon.peers peer, store := store } }, ?_,
    ht.congr ⟨ht.daemon.name, shaped⟩ rfl, rfl, rfl, refused_refl t⟩
  unfold onDaemon Daemon.purge PeerTable.purge
  dsimp only
  rw [gone]

/-- Taking in a status that may be taken in, or none. -/
theorem quiet_ingestOne (rule : Node.Blob.Rule R) {r : Status.Refreshed}
    (accepts : (∃ doc, r.reading = .ok (some (.map doc))) →
      ∀ new, Node.Blob.Accepts R r.service new) :
    Quiet R node (ingestOne r : Step W Unit) := by
  unfold ingestOne
  split
  · rename_i doc reading
    refine quiet_onDaemon fun d name => ⟨_, Node.Blob.keeps_replaceStatus rule
      (accepts ⟨doc, reading⟩ (if Entries.contains doc "updated" then doc
        else Entries.insert doc "updated" (.float r.readAt))), ?_⟩
    rw [← name]
    rfl
  · exact quiet_pure ()

variable [World W]

theorem quiet_submit (now : Float) (p : String) : Quiet R node (submit now p : Step W Unit) :=
  quiet_modify (fun _ => rfl) (fun _ => rfl) (fun _ => rfl)

/-- The pool after some services were submitted. -/
def submitted (now : Float) (services : List String) (s : Monitor W) : Status.Pool :=
  services.foldl (fun p service => p.submit (World.readStatus s.world) now service) s.pool

theorem forM_submit (now : Float) (services : List String) (s : Monitor W) :
    services.forM (submit now) s = .ok () { s with pool := submitted now services s } := by
  induction services generalizing s with
  | nil => rfl
  | cons p services ih =>
    have first : submit now p s = .ok ⟨⟩ { s with
        pool := s.pool.submit (World.readStatus s.world) now p } := rfl
    exact (bind_ok first).trans (ih _)

/-- The services whose statuses a round submits: those that are configured. -/
def configured (s : Monitor W) : List String :=
  Node.Blob.keysAt s.daemon.store ((Layout.services s.daemon.nodeName).key "config")

/-- The readings that a round takes in: those that were waiting, and those of
the services that are submitted and read at once. -/
def readings (now : Float) (s : Monitor W) : List Status.Refreshed :=
  (submitted now (configured s) s).results

/-- **The statuses are taken in**, if those that were read may be. -/
theorem ingest_ok (rule : Node.Blob.Rule R) (now : Float) (h : Sound R node s)
    (accepts : ∀ r ∈ readings now s, (∃ doc, r.reading = .ok (some (.map doc))) →
      ∀ new, Node.Blob.Accepts R r.service new) :
    ∃ s', ingest now s = .ok () s' ∧ Sound R node s' ∧ Calm s s' := by
  have submits := forM_submit now (configured s) s
  obtain ⟨u, s', taken, sound, calm⟩ := quiet_forM (f := ingestOne) (l := readings now s)
    (fun r hr => quiet_ingestOne rule (accepts r hr))
    { s with pool := (submitted now (configured s) s).drain.2 } (h.congr h.daemon rfl)
  exact ⟨s', (bind_ok submits).trans taken, sound, calm.running, calm.settings, calm.events⟩

theorem quiet_setNodeFrozen (frozen : Bool) (at_ : Float) :
    Quiet R node (setNodeFrozen frozen at_ : Step W Unit) := by
  refine quiet_bind (quiet_modify ?_ ?_ ?_) fun _ => quiet_onDaemon fun d name => ?_
  · intro s
    split <;> rfl
  · intro s
    split <;> rfl
  · intro s
    split <;> rfl
  · refine ⟨_, Node.Blob.keeps_setFrozen frozen at_, ?_⟩
    rw [← name]
    rfl

/-- **The node is decided about.** -/
theorem quiet_evaluateNode (at_ : Float) (v : View) :
    Quiet R node (evaluateNode at_ v : Step W NodeOutcome) := by
  refine quiet_get_bind fun s h => ?_
  dsimp only
  rw [h.daemon.name]
  have record {f : PUnit → Step W NodeOutcome} {edit : Node.Monitor → Node.Monitor}
      {c : Prop} [Decidable c] {e : Event} (hf : ∀ u, Quiet R node (f u))
      (he : ∀ a, e ≠ .done a none) :
      Quiet R node (mutate (Node.Blob.updateMonitor node at_ edit) >>= fun _ =>
        if c then emit e >>= f else f ⟨⟩) := by
    refine quiet_bind (quiet_mutate (Node.Blob.keeps_updateMonitor at_ _)) fun _ t ht => ?_
    obtain ⟨u, noted, hu, calm⟩ := when_emit (c := c) he f ht
    obtain ⟨x, s', done, sound, calm'⟩ := hf ⟨⟩ u hu
    exact ⟨x, s', noted.trans done, sound, calm.trans calm'⟩
  split
  · exact quiet_bind (quiet_setNodeFrozen _ at_) fun _ => record (fun _ => quiet_pure _) nofun
  · exact record (fun _ => quiet_pure _) nofun

end HaCluster.Monitor
