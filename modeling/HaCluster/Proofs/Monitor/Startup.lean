import HaCluster.Proofs.Monitor.Debounce
import HaCluster.Proofs.Monitor.Playback

/-!
# The startup gate

A daemon that starts does not know what the other nodes do, so it waits for them
before it touches any service. Its node goes from `init` to `rejoin`, and stays
there until the data of a peer can be seen, or no peer is declared, or the grace
period is over (`Turn.opens`). As long as nobody speaks for the node as its peer,
and nobody asks for its state to be another one, no action is tried before a round
at which that is so, and a round that holds the services leaves their records alone,
apart from those of which an action has ended (`startup_gated`). A message in the name
of the node brings a node that is past the gate, and a start with it
(`not_startsGated`).
-/

namespace HaCluster

open Value

namespace Daemon

variable {d : Daemon} {node : String}

/-- The node of a daemon does not look after its services. -/
def Waits (node : String) (d : Daemon) : Prop :=
  d.nodeName = node
    ∧ Node.Situation.holdsServices (Node.Blob.monitor d.store node).state = true

theorem concerns_waits : Concerns node (Waits node) where
  name h := h.1
  congr h name store _ := ⟨name.trans h.1, by rw [store]; exact h.2⟩

/-- What leaves the record of the node alone leaves the node waiting. -/
theorem Waits.of_since {d' : Daemon} (h : Waits node d)
    (since : Since node (fun v w => w.lookup (Layout.nodeMonitor node)
      = v.lookup (Layout.nodeMonitor node)) d.store d') : Waits node d' :=
  ⟨since.name, by rw [Node.Blob.monitor_congr since.store.data]; exact h.2⟩

/-- A change of the record leaves the node waiting if it means another state in which
it does, or none. -/
theorem waits_updateMonitor {at_ : Float} {edit : Node.Monitor → Node.Monitor}
    (waits : ∀ m : Node.Monitor, Node.Situation.holdsServices m.state = true →
      Node.Situation.holdsServices (edit m).state = true) :
    Preserves (Waits node) (mutate (Node.Blob.updateMonitor node at_ edit)) := by
  intro d h
  have left := Node.Blob.state_after_update node at_ edit d.store
  unfold Mutation.after at left
  unfold Step.after mutate
  have held {s : Store} (left : (Node.Blob.monitor s node).state
      = (Node.Blob.monitor d.store node).state
      ∨ (Node.Blob.monitor s node).state = (edit (Node.Blob.monitor d.store node)).state
      ∨ (Node.Blob.monitor s node).state = .init) :
      Node.Situation.holdsServices (Node.Blob.monitor s node).state = true := by
    rcases left with same | meant | lost
    · rw [same]; exact h.2
    · rw [meant]; exact waits _ h.2
    · rw [lost]; rfl
  cases result : Node.Blob.updateMonitor node at_ edit d.store <;> rw [result] at left <;>
    exact ⟨h.1, held left⟩

end Daemon

/-- A request that neither speaks for a node as its peer nor asks for the state of the
node to be another one. -/
def Request.Unforced (node : String) (r : Request) : Prop :=
  r.Foreign node ∧ ∀ u, r = .setNode u → u.state = none

namespace Daemon

/-- **Whatever is asked**, a node that waits goes on waiting, unless it is asked to go
to another state. -/
theorem waits_serve {node : String} (now : Moment) {r : Request} (unforced : r.Unforced node) :
    Preserves (Waits node) (serve now r) := by
  refine concerns_waits.serve_record (fun h => h.of_since) unforced.1
    (fun u same => waits_updateMonitor fun m held => ?_) fun _ => waits_updateMonitor fun m _ => rfl
  show Node.Situation.holdsServices (u.state.getD m.state) = true
  rw [unforced.2 u same]
  exact held

end Daemon

namespace Monitor

open Daemon (Since Waits)

variable {W : Type} [World W] {R : String → Entries Value → Prop} {node p : String}
  {s s' : Monitor W} {at_ now : Float} {v : View}

/-! ## Rounds -/

/-- Actions that end leave the records of the other services alone. -/
theorem since_completeAll {ended : List (String × Int)} {done : List (Action × Int)}
    {s₀ : Store} (since : Since node (fun v w => w.lookup (Layout.serviceMonitor node p)
      = v.lookup (Layout.serviceMonitor node p)) s₀ s.daemon)
    (run : completeAll at_ now ended s = .ok done s') (absent : ∀ e ∈ done, e.1.path ≠ p) :
    Since node (fun v w => w.lookup (Layout.serviceMonitor node p)
      = v.lookup (Layout.serviceMonitor node p)) s₀ s'.daemon := by
  induction ended generalizing s done with
  | nil =>
    cases run
    exact since
  | cons e ended ih =>
    rcases completeAll_cons_eq_ok run with rest | ⟨r, t, done', first, rest, rfl⟩
    · exact ih since rest absent
    · have ended := (retains_complete (Node.Blob.frame_record node p) at_ now
        (absent _ List.mem_cons_self) (some e.2)).of_ok first since
      exact ih ended rest fun e he => absent e (List.mem_cons_of_mem _ he)

namespace Turn

variable (t : Turn W)

/-- The monitor that decides about the node, and the cluster as it sees it then. -/
def scene? : Option (Monitor W × View) :=
  match look t.now t.settled with
  | .ok seen s => some (s, s.daemon.viewOf t.at_ seen.1 seen.2)
  | .error _ _ => none

/-- The gate is open at a round: the data of some trusted peer can be seen, no other
node is declared, or the grace period is over. -/
def opens : Bool :=
  match t.scene? with
  | some (s, v) => v.peersKnown || v.declaredPeers.isEmpty
      || s.daemon.settings.rejoinGrace.toSeconds ≤ t.at_ - s.daemon.startedAt
  | none => false

/-- A round leaves the services in peace: it tries no action, and changes no record
of a service other than by the end of an action. -/
structure Rests (node : String) : Prop where
  idle (a : Action) : t.tries a = false
  records (p : String) : t.after.daemon.store.data.lookup (Layout.serviceMonitor node p)
    = t.settled.daemon.store.data.lookup (Layout.serviceMonitor node p)
  ended (p : String) : p ∉ t.completed.map Action.path →
    t.settled.daemon.store.data.lookup (Layout.serviceMonitor node p)
      = t.before.daemon.store.data.lookup (Layout.serviceMonitor node p)

variable {t}

end Turn

variable {t : Turn W}

/-- **The services rest** in a round that holds them. -/
theorem Played.rests (play : Played node t)
    (holds : Node.Situation.holdsServices play.report.nodeState = true) : t.Rests node := by
  have hold := play.hold_outlook.trans holds
  have still : play.ready = play.done := by
    have attended := play.attends
    unfold attend at attended
    rw [if_pos hold] at attended
    exact (EStateM.Result.ok.inj attended).2
  refine ⟨fun a => ?_, fun p => ?_, fun p absent => ?_⟩
  · rw [Bool.eq_false_iff]
    intro tries
    obtain ⟨x, decided, -⟩ := (play.soundBefore.tried Node.Blob.rule_anything t.accepts_anything
      a).1.1 (of_decide_eq_true tries)
    rw [Turn.situation?_eq play.prepares] at decided
    unfold Outlook.services at decided
    rw [if_pos hold] at decided
    cases decided
  · have frame := Node.Blob.frame_record node p
    have name : t.settled.daemon.nodeName = node :=
      ((retains_settle (W := W) (Node.Blob.frame_statuses node) (fun _ => trivial) t.host t.now
        t.at_).of_ok play.settles
          (Daemon.since_refl (Node.Blob.frame_statuses node) play.soundBefore.daemon.name)).name
    have before := (retains_survey frame t.now (.of_frame frame trivial t.at_) _).of_ok
      play.surveys (Daemon.since_refl frame name)
    exact ((retains_conclude frame (fun _ ne => ne) t.at_ play.outlook _).of_ok play.concludes
      (still ▸ before)).store.data
  · have frame := Node.Blob.frame_record node p
    obtain ⟨_, _, -, -, reported⟩ := conclude_eq_ok play.concludes
    rw [Turn.completed_eq play.report?, reported] at absent
    have settled := play.settles
    unfold settle at settled
    obtain ⟨_, v, loaded, reaped⟩ := bind_eq_ok (σ := Monitor W) settled
    have read := (retains_reload t.host).of_ok loaded
      (Daemon.since_refl frame play.soundBefore.daemon.name)
    unfold reap at reaped
    rw [get_bind] at reaped
    obtain ⟨_, x, polled, completed⟩ := bind_eq_ok (σ := Monitor W) reaped
    cases polled
    refine (since_completeAll (s := { v with world := (pollAll v.running v.world).2 }) read
      completed fun e he same => absent ?_).store.data
    exact List.mem_map.2 ⟨e.1, List.mem_map.2 ⟨e, he, rfl⟩, same⟩

/-- **One round** of a node that waits: it goes on to wait, or the gate is open. -/
theorem Played.opens (play : Played node t) (waits : Waits node t.before.daemon) :
    t.opens = true ∨ Node.Situation.holdsServices play.report.nodeState = true := by
  by_contra neither
  simp only [not_or, Bool.not_eq_true] at neither
  obtain ⟨closed, free⟩ := neither
  rw [play.nodeState_report] at free
  have scene : t.scene? = some (play.scene, play.outlook.view t.at_ play.scene) := by
    unfold Turn.scene?
    rw [play.looks]
    rfl
  unfold Turn.opens at closed
  rw [scene] at closed
  simp only [Bool.or_eq_false_iff, decide_eq_false_iff_not] at closed
  rcases Node.Situation.opened (play.monitor_situation ▸ waits.2) free with known | waited
  · rw [show play.situation.peersKnown = ((play.outlook.view t.at_ play.scene).peersKnown
      || (play.outlook.view t.at_ play.scene).declaredPeers.isEmpty) from rfl, closed.1.1,
      closed.1.2] at known
    cases known
  · exact closed.2 waited

/-- A node that holds its services waits. -/
theorem Played.waits (play : Played node t)
    (holds : Node.Situation.holdsServices play.report.nodeState = true) :
    Waits node t.after.daemon := by
  refine ⟨play.since_ready.name, ?_⟩
  rcases play.state_left with reported | lost
  · rw [reported]
    exact holds
  · rw [lost]
    rfl

/-! ## Runs -/

variable {ts : List (Turn W)} {allowed : Request → Prop}

omit [World W] in
theorem admitted_unforced (node : String) :
    Admitted Node.Blob.anything node (Request.Unforced node) where
  foreign _ made := made.1
  posted _ _ p new _ := Node.Blob.accepts_anything p new

/-- **A node waits** until the gate has been open. -/
theorem Course.waits (run : Course (Request.Unforced node) s ts s')
    (sound : Sound Node.Blob.anything node s) (start : Waits node s.daemon) :
    (∃ t ∈ ts, t.opens = true) ∨ Waits node s'.daemon := by
  induction run with
  | refl => exact .inr start
  | outside _ step ih =>
    refine ih.imp id fun waits => ?_
    cases step with
    | request now made => exact Daemon.waits_serve now made _ waits
    | aside name data _ =>
      have same := Node.Blob.monitor_congr (congrArg (·.lookup (Layout.nodeMonitor node)) data)
      exact ⟨name.trans waits.1, same ▸ waits.2⟩
  | round t run ih =>
    rcases ih with ⟨u, hu, opens⟩ | waits
    · exact .inl ⟨u, List.mem_append_left _ hu, opens⟩
    · have before := run.sound Node.Blob.rule_anything sound (admitted_unforced node)
        fun t _ => t.accepts_anything
      obtain ⟨play⟩ := before.played
      rcases play.opens waits with opens | holds
      · exact .inl ⟨t, List.mem_append_right _ List.mem_cons_self, opens⟩
      · exact .inr (play.waits holds)

/-- The rounds of a run keep to the startup gate: no action is tried before a round at
which the gate is open, and every round reports, and leaves the services in peace if the
node is to hold them in the state that it reports. -/
structure Gated (node : String) (ts : List (Turn W)) : Prop where
  waits : ∀ past t future, ts = past ++ t :: future → ∀ a, t.tries a = true →
    ∃ u ∈ past ++ [t], u.opens = true
  rests : ∀ t ∈ ts, ∃ r, t.report? = some r
    ∧ (Node.Situation.holdsServices r.nodeState = true → t.Rests node)

/-- **The startup gate.** Whatever is requested, as long as nobody speaks for the node as
its peer or asks for its state to be another one, and whatever becomes of the peers, the
settings and the actions: the node waits for its peers before it touches a service. -/
theorem startup_gated {settings : Daemon.Settings} {file : Option String} {start : Float} {w : W}
    (run : Course (Request.Unforced settings.nodeName)
      (new (Daemon.start settings file start) w) ts s) : Gated settings.nodeName ts := by
  have sound := sound_new Node.Blob.anything settings file start w
  have initial : Waits settings.nodeName (new (Daemon.start settings file start) w).daemon := by
    refine ⟨rfl, ?_⟩
    rw [Node.Blob.monitor_eq, lookup_nodeMonitor_new]
    rfl
  have before := run.before Node.Blob.rule_anything sound (admitted_unforced _)
    fun t _ => t.accepts_anything
  refine ⟨fun past t future here a tries => ?_, fun t ht => ?_⟩
  · subst here
    obtain ⟨play⟩ := (before t (List.mem_append_right _ List.mem_cons_self)).played
    rcases run.upTo.waits sound initial with ⟨u, hu, opens⟩ | waits
    · exact ⟨u, List.mem_append_left _ hu, opens⟩
    · refine ⟨t, List.mem_append_right _ List.mem_cons_self, (play.opens waits).resolve_right ?_⟩
      intro holds
      exact absurd tries (by rw [(play.rests holds).idle a]; exact nofun)
  · obtain ⟨play⟩ := (before t ht).played
    exact ⟨play.report, play.report?, play.rests⟩

/-- On every run on which nobody asks for the state of the node to be another one, its
rounds keep to the startup gate, whatever else is requested. -/
def StartsGated (W : Type) [World W] : Prop :=
  ∀ (settings : Daemon.Settings) (file : Option String) (start : Float) (w s : _)
    (ts : List (Turn W)),
    Course (fun r => ∀ u, r = .setNode u → u.state = none)
      (new (Daemon.start settings file start) w) ts s → Gated settings.nodeName ts

namespace Script

/-- The settings of a node that is one of two. -/
def paired : Daemon.Settings := { settings with nodes := ["n1", "n2"] }

/-- The node has just started, and hears nothing of the other one. -/
def lone : Monitor Simulation.World :=
  new (Daemon.start paired none 1000) ((Simulation.World.new false false).setAvail "svc" .down)

/-- The node is asked to keep a service up. -/
def assigned : Monitor Simulation.World :=
  { lone with daemon := (Daemon.serve (Moment.ofMillis 1000000) request).after lone.daemon }

/-- It waits until the grace period is over, and then starts the service. -/
def patient : List (Turn Simulation.World) × Monitor Simulation.World :=
  turnsAt ⟨"n1", 0⟩ ([1000000, 1001000, 1090000, 1091000, 1097000].map Moment.ofMillis) assigned

theorem course_patient : Course (Request.Unforced paired.nodeName) lone patient.1 patient.2 := by
  have asked : Request.Unforced paired.nodeName request :=
    ⟨fun _ _ peer => (by cases peer), fun _ changes => (by cases changes)⟩
  have start : Course (Request.Unforced paired.nodeName) lone [] assigned :=
    (Course.refl lone).outside (.request (Moment.ofMillis 1000000) asked)
  have rounds : Course (Request.Unforced paired.nodeName) assigned patient.1 patient.2 :=
    course_turnsAt _ _ _ _
  exact start.trans rounds

/-- The monitor after a message in the name of its node. -/
def posed : Monitor Simulation.World :=
  { assigned with
    daemon := (Daemon.serve (Moment.ofMillis 1000000) forgery).after assigned.daemon }

/-- The first round of the node. -/
def hasty : Turn Simulation.World :=
  ⟨⟨"n1", 0⟩, Moment.ofMillis 1000000, (Moment.ofMillis 1000000).wall, posed⟩

theorem course_hasty :
    Course (fun r => ∀ u, r = .setNode u → u.state = none) lone [hasty] hasty.after := by
  have asked : Course (fun r => ∀ u, r = .setNode u → u.state = none) lone [] assigned :=
    (Course.refl lone).outside (.request (Moment.ofMillis 1000000) fun _ changes => by
      cases changes)
  have sent : Course (fun r => ∀ u, r = .setNode u → u.state = none) lone [] posed :=
    asked.outside (.request (Moment.ofMillis 1000000) fun _ changes => by cases changes)
  exact sent.round hasty

end Script

open Script

/-- The start is tried in the last round, and the gate is open from the third one on. -/
theorem startup_gated_patient :
    patient.1.map Turn.opens = [false, false, true, true, true]
      ∧ patient.1.map Turn.launched = [[], [], [], [], [.whole "svc" .start]]
      ∧ Gated paired.nodeName patient.1 :=
  ⟨by decide +kernel, by decide +kernel, startup_gated course_patient⟩

/-- The first round starts the service, though the other node has not been heard of. -/
theorem not_startsGated : ¬ StartsGated Simulation.World := by
  intro gated
  have claimed := gated paired none 1000 _ _ _ course_hasty
  obtain ⟨u, hu, opens⟩ := claimed.waits [] hasty [] rfl (.whole "svc" .start) (by decide +kernel)
  rw [List.mem_singleton.1 hu] at opens
  exact absurd opens (by decide +kernel)

end Monitor

end HaCluster
