import HaCluster.Proofs.Daemon.Report
import HaCluster.Proofs.Monitor.Playback
import HaCluster.Proofs.Monitor.WellFormed

/-!
# What a drained node has left running

A node that is drained, or that exits, says that its services are down: of a drain all
but those that are always on. It decides so by the status of the instances that it can
see, and takes an instance that it cannot see, and one of which nothing is known, for
one that is down. So what it says is true exactly if it can see them, and something is
known of each (`endsDown_iff`): of those that it sees none runs, and nothing is in
flight when it exits. An instance whose document cannot be read goes on running on a
node that is drained, and on one that has exited (`not_emptiesNodes`).
-/

namespace HaCluster.Monitor

open Value Mutation
open Daemon (Since)
open Node.Blob (IsDown IsKnown LegibleInstance)

variable {W : Type} {node p : String} {s s' : Monitor W} {at_ now : Float} {v : View}
  {o : Outlook} {c : Service.Config} {i : Service.Instance}

/-! ## The end of a round -/

variable [World W] {t : Turn W}

namespace Played

variable (play : Played node t)

include play

/-- **What exits** runs nothing, and sees nothing that runs. -/
theorem exited (mapping : HasMapping t.after.daemon.store.data (Node.Blob.statuses node))
    (sound : Sound Node.Blob.anything node t.after) (exit : play.report.exit = true) :
    t.after.running = []
      ∧ ∀ p i, Node.Blob.instance? t.after.daemon.store.data node p = some i →
        i.avail.isRunning = false := by
  obtain ⟨u, _, -, left, reported⟩ := conclude_eq_ok play.concludes
  have name : u.daemon.nodeName = t.after.daemon.nodeName := by rw [left]; rfl
  have data : u.daemon.store.data = t.after.daemon.store.data := by rw [left]; rfl
  have running : u.running = t.after.running := by rw [left]
  have complete : shutdownComplete u (play.outlook.view t.at_ u) play.outlook.node.state = true := by
    rw [reported] at exit
    exact exit
  unfold shutdownComplete at complete
  simp only [Bool.and_eq_true, List.all_eq_true, List.isEmpty_iff] at complete
  obtain ⟨⟨-, idle⟩, down⟩ := complete
  refine ⟨running ▸ idle, fun p i seen => ?_⟩
  have named : u.daemon.nodeName = node := name.trans sound.daemon.name
  have soundU : Daemon.Sound Node.Blob.anything node u.daemon :=
    ⟨named, sound.daemon.shaped.congr (by rw [data])⟩
  rw [← data] at seen mapping
  have local_ : (u.daemon.viewOf t.at_ play.outlook.live play.outlook.declared).instance?
      u.daemon.nodeName p = Node.Blob.instance? u.daemon.store.data node p := soundU.instance?_viewOf mapping
  have listed : p ∈ (play.outlook.view t.at_ u).localInstances := by
    have found := local_.trans seen
    unfold View.instance? at found
    rw [Daemon.trusted?_viewOf] at found
    obtain ⟨x, here, there⟩ := Option.bind_eq_some_iff.1 found
    unfold View.localInstances
    rw [show (play.outlook.view t.at_ u).localData? = some x from here]
    exact Entries.isSome_get?_iff.1 (Option.isSome_iff_exists.2 ⟨i, there⟩)
  have avail : (play.outlook.view t.at_ u).avail u.daemon.nodeName p
      = ((Node.Blob.instance? u.daemon.store.data node p).map Service.Instance.avail).getD
        .unknown := soundU.avail_viewOf mapping p
  rw [seen] at avail
  have stopped := down p listed
  rw [show (play.outlook.view t.at_ u).avail (play.outlook.view t.at_ u).localNode p = i.avail
    from avail] at stopped
  simpa using stopped

/-! ## From the decision to the end of the round -/

variable {T : Value → Value → Prop} {s₀ : Store} {edits : Path → Prop}

/-- The decision about the node edits keys of the node alone. -/
theorem since_decides_of (h : Frame edits (Node.Blob.Makes node) T)
    (keys : ∀ k, k ≠ "services" → edits ((Layout.node node).key k)) :
    Since node T play.scene.daemon.store play.ready.daemon := by
  have decides : Retains (W := W) (Since node T play.scene.daemon.store)
      (evaluateNode t.at_ (play.outlook.view t.at_ play.scene)) :=
    Daemon.concerns_since.evaluateNode
      (fun b => Daemon.since_mutate h (Node.Blob.framed_setFrozen h (keys _ (by decide)) b t.at_))
      fun d => Daemon.since_mutate h
        (Node.Blob.framed_updateMonitor h (keys "monitor" (by decide)) t.at_ (noted d))
  exact decides.of_ok play.decides (Daemon.since_refl h play.soundScene.daemon.name)

/-- **From the decision about the node on** a round edits its own keys, the records of the
services, the copies of the peers and the instances that are dropped. -/
theorem since_scene_of (h : Frame edits (Node.Blob.Makes node) T)
    (keys : ∀ k, k ≠ "services" → edits ((Layout.node node).key k))
    (records : ∀ q, edits (Layout.serviceMonitor node q))
    (copies : ∀ n, n ≠ node → ∀ r, edits (Layout.node n ++ r))
    (dropped : ∀ (u : Monitor W), ∀ q ∈ orphans u (play.outlook.view t.at_ play.ready),
      edits (Layout.serviceStatus node q)) :
    Since node T play.scene.daemon.store t.after.daemon := by
  have written (q : String) (edit : Service.Monitor → Service.Monitor) :
      Daemon.Preserves (Since node T play.scene.daemon.store)
        (Daemon.mutate (Node.Blob.updateInstanceMonitor node q t.at_ edit)) :=
    Daemon.since_mutate h (Node.Blob.framed_updateInstanceMonitor h (records q) t.at_ edit)
  have attended : Since node T play.scene.daemon.store play.done.daemon := by
    rw [← Step.after_of_ok play.attends]
    exact Daemon.concerns_since.attend (fun a => written a.path _) (fun q _ => written q _)
      (fun u q hq => Daemon.since_mutate h (Node.Blob.framed_dropInstance h (dropped u q hq)))
      (play.since_decides_of h keys)
  exact (retains_conclude_of h (keys _ (by decide)) (keys _ (by decide)) copies t.at_ play.outlook
    _).of_ok play.concludes attended

/-- The configuration of a service is the same from the decision about the node on. -/
theorem config?_scene (p : String) : Node.Blob.config? play.scene.daemon.store.data node p
      = Node.Blob.config? t.after.daemon.store.data node p
    ∧ Node.Blob.config? play.ready.daemon.store.data node p
      = Node.Blob.config? t.after.daemon.store.data node p := by
  have frame := Node.Blob.frame_config node p
  have keys (k : String) (hk : k ≠ "services") :
      (Layout.serviceConfig node p).Apart ((Layout.node node).key k) :=
    Path.apart_of_ne (p := Layout.node node) hk.symm
  have decided := (play.since_decides_of frame keys).store.data
  have after := (play.since_scene_of frame keys
    (fun _ => Path.apart_of_ne (p := Layout.services node) (by decide))
    (fun _ ne _ => Path.apart_of_ne (p := Layout.nodes) ne.symm)
    (fun _ _ _ => Path.apart_of_ne (p := Layout.services node) (by decide))).store.data
  unfold Node.Blob.config?
  rw [decided, after]
  exact ⟨rfl, rfl⟩

/-- **The report on a service that is configured** is the same from the decision about the
node on. -/
theorem sameReport_scene (config : Node.Blob.config? t.after.daemon.store.data node p = some c) :
    Node.Blob.SameReport node p play.scene.daemon.store.data t.after.daemon.store.data := by
  refine (play.since_scene_of (Node.Blob.frame_report node p)
    (fun _ hk => Node.Blob.besideReport_key hk) Node.Blob.besideReport_record
    (fun _ ne r => Node.Blob.besideReport_peer ne r) fun u q hq => ?_).store.data
  -- a service that is configured is no orphan
  refine Node.Blob.besideReport_instance fun same => ?_
  subst same
  have local_ : q ∈ (play.outlook.view t.at_ play.ready).localServices :=
    play.soundReady.daemon.mem_localServices.2 (by rw [(play.config?_scene q).2, config]; rfl)
  have orphan := (List.mem_filter.1 hq).2
  rw [List.contains_iff_mem.2 local_] at orphan
  cases orphan

/-- The monitor that decides about the node can read the records of its services. -/
theorem legible_scene (finite : t.at_.isFinite = true)
    (legible : LegibleInstance node p t.before.daemon.store.data) :
    LegibleInstance node p play.scene.daemon.store.data := by
  have frame := Node.Blob.frame_legibleInstance node p
  have settled := (retains_settle_of (W := W) frame (within_outcome finite) t.host t.now).of_ok
    play.settles (Daemon.since_refl frame play.soundBefore.daemon.name)
  exact ((retains_look frame t.now).of_ok play.looks settled).store.data legible

theorem statuses_scene (mapping : HasMapping t.before.daemon.store.data (Node.Blob.statuses node)) :
    HasMapping play.scene.daemon.store.data (Node.Blob.statuses node) := by
  have frame := Node.Blob.frame_statuses node
  have settled := (retains_settle (W := W) frame (fun _ => trivial) t.host t.now t.at_).of_ok
    play.settles (Daemon.since_refl frame play.soundBefore.daemon.name)
  exact ((retains_look frame t.now).of_ok play.looks settled).store.data mapping

/-- **What a drained node sees** of the services that a drain stops does not run. -/
theorem drained (legible : Legible node t.before) (finite : t.at_.isFinite = true)
    (sound : Sound Node.Blob.anything node t.after) (drained : play.report.nodeState = .drained)
    (config : Node.Blob.config? t.after.daemon.store.data node p = some c)
    (stops : c.alwaysOn = false)
    (seen : Node.Blob.instance? t.after.daemon.store.data node p = some i) :
    i.avail.isRunning = false := by
  rw [Bool.eq_false_iff]
  intro runs
  rw [play.nodeState_report] at drained
  have down : (play.outlook.view t.at_ play.scene).localServices.all (fun p =>
      (((play.outlook.view t.at_ play.scene).serviceConfig? p).map Service.Config.alwaysOn).getD
          false
        || !((play.outlook.view t.at_ play.scene).avail
          (play.outlook.view t.at_ play.scene).localNode p).isRunning) = true :=
    Node.Situation.drainableDown_of_goal drained
  have configured := (play.config?_scene p).1.trans config
  have local_ : p ∈ (play.outlook.view t.at_ play.scene).localServices :=
    play.soundScene.daemon.mem_localServices.2 (by rw [configured]; rfl)
  have here := List.all_eq_true.1 down p local_
  have found : (play.outlook.view t.at_ play.scene).serviceConfig? p = some c := by
    unfold View.serviceConfig?
    rw [show (play.outlook.view t.at_ play.scene).localData?.bind _ = some c from
      (play.soundScene.daemon.localConfig?_viewOf p).trans configured]
  obtain ⟨j, there, same⟩ := Node.Blob.avail_of_report play.soundScene.daemon.shaped
    sound.daemon.shaped (play.legible_scene finite (legible.instances p))
    (play.sameReport_scene config) seen runs
  have avail : (play.outlook.view t.at_ play.scene).avail play.scene.daemon.nodeName p
      = ((Node.Blob.instance? play.scene.daemon.store.data node p).map
        Service.Instance.avail).getD .unknown :=
    play.soundScene.daemon.avail_viewOf (play.statuses_scene legible.statuses) p
  rw [there] at avail
  rw [found, show (play.outlook.view t.at_ play.scene).avail
    (play.outlook.view t.at_ play.scene).localNode p = i.avail from avail.trans same, runs,
    Option.map_some, stops] at here
  cases here

end Played

/-! ## Rounds at which a node ends its services -/

namespace Turn

variable (t : Turn W)

/-- A round leaves the node drained: it reports so, or the record says so. -/
def EndsDrained (node : String) : Prop :=
  t.report?.map Report.nodeState = some .drained
    ∨ (Node.Blob.monitor t.after.daemon.store node).state = .drained

/-- A round tells the node to exit. -/
def Exits : Prop := t.report?.map Report.exit = some true

/-- What holds of the services that a round has ended: of all that are configured if the
node exits, and of those that are not always on if it is drained. -/
structure Ends (node : String) (Q : Value → String → String → Prop) : Prop where
  drained : t.EndsDrained node → ∀ p c,
    Node.Blob.config? t.after.daemon.store.data node p = some c → c.alwaysOn = false →
      Q t.after.daemon.store.data node p
  exit : t.Exits → ∀ p c, Node.Blob.config? t.after.daemon.store.data node p = some c →
    Q t.after.daemon.store.data node p

end Turn

/-! ## Histories -/

variable {es : List (Stage W)}

/-- **A node sees its services to their end.** Whatever is requested, as long as nobody
speaks for the node as its peer, whatever is reported and comes of the actions, and
whatever settings come into force: in a round at which the node exits nothing is in
flight, and what a round has ended is down, exactly if its document can be read and
something is known of it. -/
theorem endsDown_iff {settings : Daemon.Settings} {file : Option String} {start : Float} {w : W}
    (run : History (Request.Foreign settings.nodeName) (new (Daemon.start settings file start) w)
      es s)
    (finite : ∀ e ∈ es, ∀ u, e.time? = some u → u.isFinite = true)
    (bounded : ∀ e ∈ es, e.before.daemon.settings.Bounded) (mem : .round t ∈ es) :
    (t.Exits → t.after.running = [])
      ∧ (t.Ends settings.nodeName IsDown ↔ t.Ends settings.nodeName IsKnown) := by
  obtain ⟨past, future, rfl⟩ := List.append_of_mem mem
  have earlier : ∀ e ∈ past, e ∈ past ++ .round t :: future :=
    fun e he => List.mem_append_left _ he
  have before : Legible settings.nodeName t.before :=
    run.upTo.legible (fun e he => finite e (earlier e he)) (fun e he => bounded e (earlier e he))
      (legible_new settings file start w)
  have time : t.at_.isFinite = true := finite _ mem _ rfl
  have after : Legible settings.nodeName t.after :=
    before.stage (e := .round t) trivial (fun u here => finite _ mem u here) (bounded _ mem)
  obtain ⟨play⟩ := before.sound.played
  have exited (exits : t.Exits) := play.exited after.statuses after.sound (by
    unfold Turn.Exits at exits
    rw [play.report?] at exits
    exact Option.some.inj exits)
  have drained (ends : t.EndsDrained settings.nodeName) : play.report.nodeState = .drained := by
    rcases ends with reported | recorded
    · rw [play.report?] at reported
      exact Option.some.inj reported
    -- a record that says so can be read, and so it says what the round reports
    · rcases play.state_left with same | lost
      · exact same.symm.trans recorded
      · cases lost.symm.trans recorded
  refine ⟨fun exits => (exited exits).1, fun ends => ?_, fun known => ?_⟩
  · exact ⟨fun h p c config stops => (ends.drained h p c config stops).isKnown,
      fun h p c config => (ends.exit h p c config).isKnown⟩
  · refine ⟨fun h p c config stops => ?_, fun h p c config => ?_⟩
    · exact (known.drained h p c config stops).isDown fun i seen =>
        play.drained before time after.sound (drained h) config stops seen
    · exact (known.exit h p c config).isDown ((exited h).2 p)

/-- On every history on which nobody speaks for the node as its peer, what a round has
ended is down, and nothing is in flight when the node exits. -/
def EmptiesNodes (W : Type) [World W] : Prop :=
  ∀ (settings : Daemon.Settings) (file : Option String) (start : Float) (w s : _)
    (es : List (Stage W)),
    History (Request.Foreign settings.nodeName) (new (Daemon.start settings file start) w) es s →
      (∀ e ∈ es, ∀ u, e.time? = some u → u.isFinite = true) →
      (∀ e ∈ es, e.before.daemon.settings.Bounded) →
      ∀ t, .round t ∈ es →
        (t.Exits → t.after.running = []) ∧ t.Ends settings.nodeName IsDown

namespace Script

/-- The node in a world that reports the service by a document. -/
def documented (doc : Value) : Monitor Simulation.World :=
  { configured with world := (Simulation.World.new false false).setDocument "svc" doc }

/-- Rounds until the node looks after its services. -/
def settling (doc : Value) : List (Turn Simulation.World) × Monitor Simulation.World :=
  turnsAt ⟨"n1", 0⟩ ([0, 1000].map Moment.ofMillis) (documented doc)

/-- What somebody asks of the node. -/
def wish (expect : Node.LocalExpect) : Request :=
  .setNode { Node.Update.none with localExpect := .set expect }

/-- The round after something was asked of the node. -/
def obeying (expect : Node.LocalExpect) (millis : Nat) (s : Monitor Simulation.World) :
    Turn Simulation.World :=
  ⟨⟨"n1", 0⟩, Moment.ofMillis millis, (Moment.ofMillis millis).wall,
    { s with daemon := (Daemon.serve (Moment.ofMillis millis) (wish expect)).after s.daemon }⟩

/-- The round after the node was asked to drain. -/
def draining (doc : Value) : Turn Simulation.World := obeying .drain 2000 (settling doc).2

/-- The round after it was asked to shut down as well. -/
def leaving (doc : Value) : Turn Simulation.World := obeying .shutdown 3000 (draining doc).after

/-- The node is drained, and then shut down. -/
def emptying (doc : Value) : List (Stage Simulation.World) :=
  .request (Moment.ofMillis 0) request fresh :: .aside configured (documented doc)
    :: ((settling doc).1.map .round
      ++ [.request (Moment.ofMillis 2000) (wish .drain) (settling doc).2, .round (draining doc),
        .request (Moment.ofMillis 3000) (wish .shutdown) (draining doc).after,
        .round (leaving doc)])

theorem history_emptying (doc : Value) :
    History (Request.Foreign settings.nodeName) fresh (emptying doc) (leaving doc).after := by
  have asked : Request.Foreign settings.nodeName request := fun _ _ peer => by cases peer
  have wished (expect : Node.LocalExpect) : Request.Foreign settings.nodeName (wish expect) :=
    fun _ _ peer => by cases peer
  have reported : History (Request.Foreign settings.nodeName) configured
      [.aside configured (documented doc)] (documented doc) :=
    (History.refl configured).stage (.aside configured (documented doc)) ⟨rfl, rfl, rfl⟩
  have obeyed (expect : Node.LocalExpect) (millis : Nat) (s : Monitor Simulation.World) :
      History (Request.Foreign settings.nodeName) s
        [.request (Moment.ofMillis millis) (wish expect) s, .round (obeying expect millis s)]
        (obeying expect millis s).after := by
    have made : History (Request.Foreign settings.nodeName) s
        [.request (Moment.ofMillis millis) (wish expect) s] (obeying expect millis s).before :=
      (History.refl s).stage (.request (Moment.ofMillis millis) (wish expect) s) (wished expect)
    exact made.stage (.round (obeying expect millis s)) trivial
  have settled : History (Request.Foreign settings.nodeName) (documented doc)
      ((settling doc).1.map .round) (settling doc).2 := history_turnsAt _ _ _ _
  have ended := (obeyed .drain 2000 (settling doc).2).trans (obeyed .shutdown 3000 _)
  exact (history_request asked).trans (reported.trans (settled.trans ended))

/-- A document by which the service is up, and that cannot be read. -/
def garbled : Value := .map [("avail", .str "up"), ("overall", .int 5)]

/-- A document by which the service is down. -/
def stopped : Value := .map [("avail", .str "down"), ("overall", .str "down")]

end Script

open Script

/-- A service that is down is known to be down when the node is drained and exits. -/
theorem endsDown_iff_stopped :
    (draining stopped).EndsDrained settings.nodeName ∧ (leaving stopped).Exits
      ∧ ((leaving stopped).Exits → (leaving stopped).after.running = [])
      ∧ ((leaving stopped).Ends settings.nodeName IsDown
        ↔ (leaving stopped).Ends settings.nodeName IsKnown) := by
  have timed : Timed (emptying stopped) := by decide +kernel
  refine ⟨.inl (by decide +kernel), by unfold Turn.Exits; decide +kernel, ?_⟩
  exact endsDown_iff (history_emptying stopped) timed.finite_of_mem (by decide +kernel)
    (by simp [emptying])

/-- The node is drained and exits, and the service is still up. -/
theorem not_emptiesNodes : ¬ EmptiesNodes Simulation.World := by
  intro empties
  have timed : Timed (emptying garbled) := by decide +kernel
  obtain ⟨-, ends⟩ := empties settings none 0 _ _ _ (history_emptying garbled)
    timed.finite_of_mem (by decide +kernel) (leaving garbled) (by simp [emptying])
  have exits : (leaving garbled).Exits := by unfold Turn.Exits; decide +kernel
  have hidden : Node.Blob.instance? (leaving garbled).after.daemon.store.data settings.nodeName
      "svc" = none := by decide +kernel
  obtain ⟨c, config⟩ := Option.isSome_iff_exists.1 (show (Node.Blob.config?
    (leaving garbled).after.daemon.store.data settings.nodeName "svc").isSome = true by
      decide +kernel)
  obtain ⟨i, seen, -⟩ := ends.exit exits "svc" c config
  cases hidden.symm.trans seen

end HaCluster.Monitor
