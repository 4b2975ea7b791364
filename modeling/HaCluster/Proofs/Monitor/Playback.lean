import HaCluster.Proofs.Monitor.Ready
import HaCluster.Proofs.Node.State

/-!
# A round as its stages see it

A round of a sound monitor goes through monitors of which each is sound: the one
that decides about the node, the one that decides about the services, and the one
that is left when they have been decided about (`Played`). What a round reports of
the node is what was decided on, and the record says so after the round, unless it
cannot be read (`Played.state_left`).
-/

namespace HaCluster

open Value

namespace Daemon

/-- **A node sees its own record** as it keeps it. -/
theorem nodeMonitor_viewOf (d : Daemon) (at_ : Float) (live declared : List String) :
    ((d.viewOf at_ live declared).nodeMonitor? d.nodeName).getD d.nodeMonitor
      = d.nodeMonitor := by
  unfold View.nodeMonitor?
  rw [trusted?_viewOf, localData?_viewOf]
  cases blob : d.store.data.lookup (Layout.node d.nodeName) with
  | none => rfl
  | some v =>
    show Node.Data.recordAt Node.Monitor.decode v "monitor" Node.Monitor.blank
      = Node.Blob.monitor d.store d.nodeName
    rw [Node.Blob.monitor_eq, show Layout.nodeMonitor d.nodeName
      = Layout.node d.nodeName ++ [.key "monitor"] from rfl, lookup_append, blob,
      Option.bind_some, ← get?_eq_lookup]
    rfl

end Daemon

namespace Monitor

open Daemon (Since)

variable {W : Type} [World W] {node p : String} {s s' : Monitor W} {at_ now : Float} {v : View}
  {t : Turn W}

/-! ## The decision about the node -/

/-- The node is frozen or thawed if that was decided. -/
def followFreeze (freeze : Option Bool) (at_ : Float) : Step W Unit :=
  match freeze with
  | some b => setNodeFrozen b at_
  | none => pure ()

/-- What a decision about the node comes to: the node is frozen or thawed if that was
decided, and the record is changed. -/
theorem evaluateNode_eq (at_ : Float) (v : View) (s : Monitor W) :
    let x := nodeSituationOn s v at_
    evaluateNode at_ v s = (do
      followFreeze x.decide.freeze at_
      let _ ← mutate (Node.Blob.updateMonitor s.daemon.nodeName at_ (noted x.decide))
      if x.goal ≠ x.monitor.state then emit (.node x.monitor.state x.goal x.decide.reason)
      pure ⟨x.goal, x.decide.holdServices, x.decide.freeze.getD x.frozen⟩ :
        Step W NodeOutcome) s := by
  dsimp only
  unfold evaluateNode nodeSituationOn
  rw [get_bind]
  dsimp only
  generalize nodeSituation s.daemon v _ at_ = x
  cases freeze : x.decide.freeze <;> rfl

/-- **The decision about the node** leads to the state that the round reports, in which
the services are held or not, and is written down in the record. -/
theorem evaluateNode_eq_ok (name : s.daemon.nodeName = node) {n : NodeOutcome}
    (run : evaluateNode at_ v s = .ok n s') :
    let x := nodeSituationOn s v at_
    n.state = x.goal ∧ n.hold = Node.Situation.holdsServices x.goal
      ∧ ∃ (t : Monitor W) (changed : Bool),
        t.daemon.store.data.lookup (Layout.nodeMonitor node)
            = s.daemon.store.data.lookup (Layout.nodeMonitor node)
          ∧ Node.Blob.updateMonitor node at_ (noted x.decide) t.daemon.store
              = .ok changed s'.daemon.store := by
  dsimp only
  have frame := Node.Blob.frame_nodeMonitor node
  rw [evaluateNode_eq, name] at run
  rw [← Node.Situation.holdServices_decide]
  obtain ⟨_, t, frozen, run⟩ := bind_eq_ok run
  obtain ⟨changed, w, written, run⟩ := bind_eq_ok run
  obtain ⟨x, ended, daemon, -⟩ := when_emit_run (c := (nodeSituationOn s v at_).goal
    ≠ (nodeSituationOn s v at_).monitor.state) (.node _ _ _) (fun _ => pure _) w
  cases ended.symm.trans run
  refine ⟨rfl, rfl, t, changed, ?_, daemon ▸ (mutate_eq_ok written).2⟩
  have freezes : Retains (W := W) (Since node (fun v w => w.lookup (Layout.nodeMonitor node)
      = v.lookup (Layout.nodeMonitor node)) s.daemon.store)
      (followFreeze (nodeSituationOn s v at_).decide.freeze at_) := by
    unfold followFreeze
    split
    · exact Daemon.concerns_since.setNodeFrozen
        (Daemon.since_mutate frame
          (Node.Blob.framed_setFrozen frame (.key (by decide) (by decide)) _ at_))
    · exact retains_pure _
  exact (freezes.of_ok frozen (Daemon.since_refl frame name)).store.data

/-! ## Rounds -/

/-- The monitor of a round once the actions that ended are written down. -/
def Turn.settled (t : Turn W) : Monitor W := Step.after (settle t.host t.now t.at_) t.before

/-- What a round of a sound monitor goes through. -/
structure Played (node : String) (t : Turn W) where
  outlook : Outlook
  /-- The monitor that decides about the node. -/
  scene : Monitor W
  /-- The monitor that decides about the services. -/
  ready : Monitor W
  launched : List Action
  /-- The monitor when the services have been decided about. -/
  done : Monitor W
  report : Report
  settles : settle t.host t.now t.at_ t.before = .ok outlook.completed t.settled
  looks : look t.now t.settled = .ok (outlook.live, outlook.declared) scene
  decides : evaluateNode t.at_ (outlook.view t.at_ scene) scene = .ok outlook.node ready
  attends : attend t.at_ t.now.wall outlook ready = .ok (launched, []) done
  concludes : conclude t.at_ outlook (launched, []) done = .ok report t.after
  soundBefore : Sound Node.Blob.anything node t.before
  soundScene : Sound Node.Blob.anything node scene
  soundReady : Sound Node.Blob.anything node ready
  soundDone : Sound Node.Blob.anything node done

/-- **A round of a sound monitor is played** to its end. -/
theorem Sound.played (h : Sound Node.Blob.anything node t.before) : Nonempty (Played node t) := by
  have accepts (s : Monitor W) (now : Float) : ∀ r ∈ readings now s,
      (∃ doc, r.reading = .ok (some (.map doc))) →
        ∀ new, Node.Blob.Accepts Node.Blob.anything r.service new :=
    fun r _ _ new => Node.Blob.accepts_anything r.service new
  obtain ⟨completed, u, settled, soundU, -⟩ :=
    settle_ok Node.Blob.rule_anything h t.host t.now t.at_
  obtain rfl : t.settled = u := Step.after_of_ok settled
  obtain ⟨seen, s, looked, soundS, -⟩ :=
    look_ok Node.Blob.rule_anything soundU t.now (accepts _ _)
  obtain ⟨n, w, decided, soundW, -⟩ :=
    quiet_evaluateNode t.at_ (s.daemon.viewOf t.at_ seen.1 seen.2) s soundS
  let o : Outlook := ⟨completed, n, seen.1, seen.2⟩
  obtain ⟨launched, x, attended, soundX, -⟩ :=
    attend_ok Node.Blob.rule_anything soundW t.at_ t.now.wall o
  obtain ⟨report, y, concluded, -⟩ := conclude_ok soundX t.at_ o launched
  have prepared : prepare t.host t.now t.at_ t.before = .ok o w := by
    rw [prepare_eq, bind_ok settled, survey_eq, bind_ok looked, get_bind]
    exact bind_ok decided
  obtain rfl : t.after = y := Turn.after_eq (round_of_parts prepared attended concluded)
  exact ⟨⟨o, s, w, launched, x, report, settled, looked, decided, attended, concluded, h, soundS,
    soundW, soundX⟩⟩

namespace Played

variable (play : Played node t)

include play

/-- What was found out before the services come. -/
theorem surveys : survey t.now t.at_ play.outlook.completed t.settled
    = .ok play.outlook play.ready := by
  rw [survey_eq, bind_ok play.looks, get_bind]
  exact bind_ok play.decides

theorem prepares : prepare t.host t.now t.at_ t.before = .ok play.outlook play.ready := by
  rw [prepare_eq]
  exact (bind_ok play.settles).trans play.surveys

theorem report? : t.report? = some play.report :=
  Turn.report?_eq (round_of_parts play.prepares play.attends play.concludes)

/-- Whatever else the node edits, its record is left alone before it is decided about. -/
theorem since_scene : Since node (fun v w => w.lookup (Layout.nodeMonitor node)
    = v.lookup (Layout.nodeMonitor node)) t.before.daemon.store play.scene.daemon := by
  have frame := Node.Blob.frame_nodeMonitor node
  have before := (retains_settle (W := W) frame (fun _ => trivial) t.host t.now t.at_).of_ok
    play.settles (Daemon.since_refl frame play.soundBefore.daemon.name)
  exact (retains_look frame t.now).of_ok play.looks before

/-- The record of the node is left alone after it was decided about. -/
theorem since_ready : Since node (fun v w => w.lookup (Layout.nodeMonitor node)
    = v.lookup (Layout.nodeMonitor node)) play.ready.daemon.store t.after.daemon := by
  have frame := Node.Blob.frame_nodeMonitor node
  have attended := (retains_attend frame (fun _ => trivial) t.at_ t.now.wall play.outlook).of_ok
    play.attends (Daemon.since_refl frame play.soundReady.daemon.name)
  exact (retains_conclude frame (fun _ ne => ne) t.at_ play.outlook _).of_ok play.concludes attended

/-- What is decided about the node on. -/
def situation : Node.Situation := nodeSituationOn play.scene (play.outlook.view t.at_ play.scene) t.at_

/-- **The node is decided about on its own record**, as it was before the round. -/
theorem monitor_situation :
    play.situation.monitor = Node.Blob.monitor t.before.daemon.store node := by
  have seen := Daemon.nodeMonitor_viewOf play.scene.daemon t.at_ play.outlook.live
    play.outlook.declared
  unfold Daemon.nodeMonitor at seen
  rw [play.soundScene.daemon.name] at seen
  rw [← Node.Blob.monitor_congr play.since_scene.store.data]
  show ((play.outlook.view t.at_ play.scene).nodeMonitor? play.scene.daemon.nodeName).getD
    play.scene.daemon.nodeMonitor = _
  unfold Daemon.nodeMonitor
  rw [play.soundScene.daemon.name]
  exact seen

theorem nodeState_report : play.report.nodeState = play.situation.goal := by
  obtain ⟨_, _, -, -, reported⟩ := conclude_eq_ok play.concludes
  rw [reported]
  exact (evaluateNode_eq_ok play.soundScene.daemon.name play.decides).1

theorem hold_outlook :
    play.outlook.node.hold = Node.Situation.holdsServices play.report.nodeState := by
  rw [play.nodeState_report]
  exact (evaluateNode_eq_ok play.soundScene.daemon.name play.decides).2.1

/-- **After a round** the record of the node is in the state that the round reports, or
it cannot be read. -/
theorem state_left : (Node.Blob.monitor t.after.daemon.store node).state = play.report.nodeState
    ∨ (Node.Blob.monitor t.after.daemon.store node).state = .init := by
  obtain ⟨-, -, s, changed, same, written⟩ :=
    evaluateNode_eq_ok play.soundScene.daemon.name play.decides
  rw [Node.Blob.monitor_congr play.since_ready.store.data, play.nodeState_report]
  rcases Node.Blob.state_of_update written with meant | lost
  · left
    rw [meant, Node.Blob.monitor_congr same, Node.Blob.monitor_congr play.since_scene.store.data,
      ← play.monitor_situation]
    rfl
  · exact .inr lost

end Played

end Monitor

end HaCluster
