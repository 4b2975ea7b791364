import HaCluster.Proofs.Monitor.Exchange
import HaCluster.Proofs.Monitor.Startup

/-!
# Maintenance

A daemon that is stopped tells its peers so: the record of its node goes to maintenance.
No decision brings it out of there, and nothing but a request for another state or a
message in the name of the node does. So whatever else happens, every round that still
comes leaves the services in peace, and every follower that is abreast of what was
published finds the node in maintenance (`maintenance_sticks`).

That goes for what was published since the request. Nothing is sent on the request
itself, so up to the next publication a follower may have all that was published, and
find the node in the state it was in before (`not_maintenanceSticks`).
-/

namespace HaCluster

open Value

/-! ## What a record tells -/

namespace Daemon

variable {R : String → Entries Value → Prop} {node : String} {Q : Node.State → Prop} {d : Daemon}
  {at_ : Float}

/-- The record of the node of a daemon tells one of some states. -/
structure Telling (node : String) (Q : Node.State → Prop) (d : Daemon) : Prop where
  name : d.nodeName = node
  tells : ∃ m, Node.Blob.Tells node d.store.data m ∧ Q m.state

theorem concerns_telling : Concerns node (Telling node Q) where
  name h := h.name
  congr h name store _ := ⟨name.trans h.name, store ▸ h.tells⟩

theorem Telling.of_since {d' : Daemon} (h : Telling node Q d)
    (since : Since node (fun v w => w.lookup (Layout.nodeMonitor node)
      = v.lookup (Layout.nodeMonitor node)) d.store d') : Telling node Q d' :=
  ⟨since.name, let ⟨m, tells, told⟩ := h.tells; ⟨m, tells.congr since.store.data, told⟩⟩

/-- A change of the record goes from one of the states to another one of them. -/
theorem telling_updateMonitor (finite : at_.isFinite = true) {edit : Node.Monitor → Node.Monitor}
    (kept : ∀ m, (edit m).stateSince = m.stateSince)
    (stays : ∀ m : Node.Monitor, Q m.state → Q (edit m).state) :
    Preserves (Telling node Q) (mutate (Node.Blob.updateMonitor node at_ edit)) := by
  intro d h
  obtain ⟨m, tells, told⟩ := h.tells
  obtain ⟨m', tells', either⟩ := tells.after_update finite (kept m)
  have told' : Q m'.state := by
    rcases either with same | meant
    · rwa [same]
    · rw [meant]
      exact stays m told
  unfold Mutation.after at tells'
  unfold Step.after mutate
  cases result : Node.Blob.updateMonitor node at_ edit d.store <;> rw [result] at tells' <;>
    exact ⟨h.name, m', tells', told'⟩

theorem telling_serve {now : Moment} (finite : now.wall.isFinite = true) {r : Request}
    (foreign : r.Foreign node)
    (asked : ∀ u, r = .setNode u → ∀ m : Node.Monitor, Q m.state → Q (u.apply m).state)
    (stopped : Q .maintenance) : Preserves (Telling node Q) (serve now r) :=
  concerns_telling.serve_record (fun h => h.of_since) foreign
    (fun u same => telling_updateMonitor finite (fun _ => rfl) (asked u same))
    fun _ => telling_updateMonitor finite (fun _ => rfl) fun _ _ => stopped

/-- **A daemon that is stopped** tells that its node is in maintenance. -/
theorem telling_stop (sound : Sound R node d) (h : Telling node Q d) {now : Moment}
    (finite : now.wall.isFinite = true) :
    Telling node (· = .maintenance) (Step.after (serve now .stop) d) := by
  obtain rfl := h.name
  obtain ⟨m, tells, -⟩ := h.tells
  obtain ⟨changed, s, written, -⟩ := Node.Blob.keeps_updateMonitor now.wall
    (Node.Update.enter .maintenance).apply d.store sound.shaped
  obtain ⟨m', tells', meant⟩ := tells.update finite rfl written
  have set : setNodeMonitor (.enter .maintenance) now.wall d = _ := mutating_wakeIf written
  have stopped : (Step.after (serve now .stop) d).nodeName = d.nodeName
      ∧ (Step.after (serve now .stop) d).store = s := by
    have halted : stop now.wall d = .ok ()
        (if changed then { d with store := s }.wake else { d with store := s }).requestStop := by
      unfold stop
      rw [set]
    have served : serve now .stop d = .ok .null
        (if changed then { d with store := s }.wake else { d with store := s }).requestStop :=
      bind_ok halted
    unfold Step.after
    rw [served]
    cases changed <;> exact ⟨rfl, rfl⟩
  exact ⟨stopped.1, m', stopped.2 ▸ tells', meant⟩

end Daemon

namespace Monitor

open Daemon (Telling concerns_telling)
open Replication

variable {W : Type} [World W] {node : String} {Q : Node.State → Prop} {t : Turn W}

/-! ## Rounds -/

/-- After a round the record tells the state that the round reports. -/
theorem Played.tells (play : Played node t) {m : Node.Monitor}
    (tells : Node.Blob.Tells node t.before.daemon.store.data m) (finite : t.at_.isFinite = true) :
    ∃ m', Node.Blob.Tells node t.after.daemon.store.data m'
      ∧ m'.state = play.report.nodeState := by
  obtain ⟨-, -, s, changed, same, written⟩ :=
    evaluateNode_eq_ok play.soundScene.daemon.name play.decides
  have there := (tells.congr play.since_scene.store.data).congr same
  obtain ⟨m', tells', meant⟩ := there.update finite rfl written
  refine ⟨m', tells'.congr play.since_ready.store.data, meant.trans ?_⟩
  rw [play.nodeState_report]
  show play.situation.decide.state.getD m.state = play.situation.goal
  rw [← tells.monitor, ← play.monitor_situation]
  rfl

/-- **A round in maintenance** stays there. -/
theorem Played.maintained (play : Played node t)
    (state : (Node.Blob.monitor t.before.daemon.store node).state = .maintenance) :
    play.report.nodeState = .maintenance := by
  rw [← play.monitor_situation] at state
  rw [play.nodeState_report, Node.Situation.goal, Node.Situation.decide_maintenance state]
  exact state

theorem Turn.Rests.launched (h : t.Rests node) : t.launched = [] := by
  refine List.eq_nil_iff_forall_not_mem.2 fun a mem => ?_
  have tried : t.tries a = true := decide_eq_true (.inl mem)
  exact Bool.noConfusion (tried.symm.trans (h.idle a))

/-! ## Runs -/

/-- Nothing that is asked or decided leads out of some states. -/
structure Absorbing (node : String) (allowed : Request → Prop) (Q : Node.State → Prop) :
    Prop where
  foreign (r : Request) : allowed r → r.Foreign node
  stopped : Q .maintenance
  asked (r : Request) : allowed r → ∀ u, r = .setNode u →
    ∀ m : Node.Monitor, Q m.state → Q (u.apply m).state
  decided (x : Node.Situation) : Q x.monitor.state → Q x.goal

theorem absorbing_any (node : String) :
    Absorbing node (Request.Foreign node) (fun _ => True) where
  foreign _ made := made
  stopped := trivial
  asked _ _ _ _ _ _ := trivial
  decided _ _ := trivial

theorem absorbing_maintenance (node : String) :
    Absorbing node (Request.Unforced node) (· = .maintenance) where
  foreign _ made := made.1
  stopped := rfl
  asked r made u same m state := by
    show u.state.getD m.state = .maintenance
    rw [made.2 u same]
    exact state
  decided x state := by
    rw [Node.Situation.goal, Node.Situation.decide_maintenance state]
    exact state

namespace Exchange

variable {x y z : Exchange W} {allowed : Request → Prop}

/-- **A step** does not lead out of states that nothing leads out of. -/
theorem Next.telling (absorbing : Absorbing node allowed Q) (next : Next node allowed x y)
    (sound : Sound Node.Blob.anything node x.monitor) (h : Telling node Q x.monitor.daemon) :
    Telling node Q y.monitor.daemon := by
  cases next with
  | @round host now at_ finite =>
    rw [monitor_round]
    obtain ⟨play⟩ := Sound.played (t := x.turn host now at_) sound
    obtain ⟨m, tells, told⟩ := h.tells
    obtain ⟨m', tells', reported⟩ := play.tells tells finite
    refine ⟨play.since_ready.name, m', tells', ?_⟩
    rw [reported, play.nodeState_report]
    refine absorbing.decided _ ?_
    rw [play.monitor_situation]
    exact tells.monitor.symm ▸ told
  | request made finite =>
    rw [monitor_request]
    exact Daemon.telling_serve finite (absorbing.foreign _ made) (absorbing.asked _ made)
      absorbing.stopped _ h
  | broadcast | full => exact ⟨h.name, h.tells⟩
  | aside name store => exact ⟨name.trans h.name, store ▸ h.tells⟩
  | deliver | join | purge | elsewhere => exact h

/-- What is known of an exchange on the way: its monitor is sound, its heads at the cuts
could be noted down, and its node tells one of some states. -/
structure Standing (node : String) (Q : Node.State → Prop) (x : Exchange W) : Prop where
  sound : Sound Node.Blob.anything node x.monitor
  faithful : ∃ heads, Faithful node heads x
  telling : Telling node Q x.monitor.daemon

theorem Next.standing (absorbing : Absorbing node allowed Q) (next : Next node allowed x y)
    (h : Standing node Q x) : Standing node Q y where
  sound := next.sound absorbing.foreign h.sound
  faithful :=
    let ⟨_, faithful⟩ := h.faithful
    ⟨_, (next.advance absorbing.foreign h.sound faithful).faithful⟩
  telling := next.telling absorbing h.sound h.telling

theorem run_standing (absorbing : Absorbing node allowed Q)
    (run : Relation.ReflTransGen (Next node allowed) x y) (h : Standing node Q x) :
    Standing node Q y := by
  induction run with
  | refl => exact h
  | tail _ next ih => exact next.standing absorbing ih

omit [World W] in
theorem standing_opening (settings : Daemon.Settings) (file : Option String) (start : Float)
    (w : W) {follower : Follower}
    (untrusted : follower.table.trust settings.nodeName = .untrusted)
    (nodes : follower.store.HasNodes) :
    Standing settings.nodeName (fun _ => True) (opening settings file start w follower) where
  sound := sound_new Node.Blob.anything settings file start w
  faithful := faithful_opening settings file start w untrusted nodes
  telling := ⟨rfl, Node.Monitor.blank, ⟨⟨_, lookup_nodeMonitor_new settings file start w, rfl,
    rfl⟩, by decide +kernel⟩, trivial⟩

/-- **A daemon that is stopped** brings its node into maintenance. -/
theorem Standing.stop (h : Standing node Q x) {now : Moment} (finite : now.wall.isFinite = true) :
    Standing node (· = .maintenance) (x.request now .stop) := by
  have asked : Request.Foreign node .stop := fun _ _ same => by cases same
  have next : Next node (Request.Foreign node) x (x.request now .stop) :=
    .request asked finite trivial
  obtain ⟨_, faithful⟩ := h.faithful
  exact ⟨next.sound (fun _ made => made) h.sound,
    ⟨_, (next.advance (fun _ made => made) h.sound faithful).faithful⟩,
    Daemon.telling_stop h.sound.daemon h.telling finite⟩

/-! ## What followers see -/

/-- What is published of a node, or a copy of it, shows a state of the node. -/
def Shows (state : Node.State) (a : Option Value) : Prop :=
  (a.map plain).bind (·.lookup (Path.ofKeys ["monitor", "status"])) = some (Named.toValue state)

theorem Shows.lookup {state : Node.State} {s : Store} (h : Shows state (s.copyOf node)) :
    s.data.lookup ((Layout.nodeMonitor node).key "status") = some (Named.toValue state) := by
  rw [show (Layout.nodeMonitor node).key "status"
    = Layout.node node ++ Path.ofKeys ["monitor", "status"] from rfl, lookup_append]
  unfold Shows Store.copyOf at h
  cases copy : s.data.lookup (Layout.node node) with
  | none =>
    rw [copy] at h
    cases h
  | some v =>
    rw [copy, Option.map_some, Option.bind_some, lookup_plain] at h
    obtain ⟨w, there, same⟩ := Option.map_eq_some_iff.1 h
    rw [Option.bind_some, there]
    -- a text stands for itself alone
    cases w <;> first | exact congrArg some same | exact nomatch same

/-- **The head of the journal** shows what the record tells. -/
theorem shows_head {d : Daemon} {m : Node.Monitor} (tells : Node.Blob.Tells node d.store.data m)
    (journal : d.store.journal = some (Daemon.journalOf node)) :
    Shows m.state d.store.journalHead := by
  have status := tells.lookup_status
  rw [show (Layout.nodeMonitor node).key "status"
    = Layout.node node ++ Path.ofKeys ["monitor", "status"] from rfl, lookup_append] at status
  obtain ⟨v, blob, there⟩ := Option.bind_eq_some_iff.1 status
  have aside : ∀ ex ∈ (Daemon.journalOf node).exclude,
      (Path.ofKeys ["monitor", "status"]).Apart ex := by
    intro ex hex
    rw [List.mem_singleton.1 hex]
    exact Path.apart_of_ne (p := []) (by decide)
  rw [Journal.journalHead_eq_image journal]
  unfold Shows Journal.image
  rw [show (Daemon.journalOf node).head = Layout.node node from rfl, blob, Option.map_some,
    Option.map_some, Option.bind_some, lookup_plain, lookup_prune_aside
      (Path.allKeys_ofKeys ["monitor", "status"]) aside, there]
  rfl

theorem Shows.congr {state : Node.State} {a b : Option Value} (h : Shows state b)
    (same : a.map plain = b.map plain) : Shows state a := by
  unfold Shows at h ⊢
  rwa [same]

/-- A copy shows what the head shows that it mirrors. -/
theorem Shows.copy {state : Node.State} {a copy : Option Value} (h : Shows state a)
    (mirrors : Mirrors copy a) : Shows state copy := by
  rcases mirrors with same | ⟨rfl, -⟩
  · exact h.congr same
  · cases h

omit [World W] in
theorem Standing.shows (h : Standing node (· = .maintenance) x) : Shows .maintenance x.head := by
  obtain ⟨m, tells, state⟩ := h.telling.tells
  obtain ⟨_, faithful⟩ := h.faithful
  exact state ▸ shows_head tells faithful.bound.journal

/-! ## Maintenance -/

/-- The node is in maintenance: its record says so, every round that comes next says so
and leaves the services in peace, and, if the monitor has published since, so says the
copy of a follower that is abreast. -/
structure Maintained (node : String) (published : Prop) (z : Exchange W) : Prop where
  state : (Node.Blob.monitor z.monitor.daemon.store node).state = .maintenance
  told : z.monitor.daemon.store.data.lookup ((Layout.nodeMonitor node).key "status")
    = some (Named.toValue Node.State.maintenance)
  rests (t : Turn W) : t.before = z.monitor →
    (∃ r, t.report? = some r ∧ r.nodeState = .maintenance) ∧ t.launched = []
      ∧ ∀ a, t.tries a = false
  shown : published → z.Abreast node →
    z.follower.store.data.lookup ((Layout.nodeMonitor node).key "status")
      = some (Named.toValue Node.State.maintenance)

/-- **Maintenance is sticky.** Once a daemon is stopped, whatever is requested, as long
as nobody speaks for its node as its peer or asks for its state to be another one, and
whatever becomes of the actions, the settings and the messages on their way: the node
stays in maintenance, no round launches an action, and followers that are abreast find
it in maintenance as soon as the monitor has published since. -/
theorem maintenance_sticks {settings : Daemon.Settings} {file : Option String} {start : Float}
    {w : W} {follower : Follower}
    (untrusted : follower.table.trust settings.nodeName = .untrusted)
    (nodes : follower.store.HasNodes)
    (before : Relation.ReflTransGen
      (Next settings.nodeName (Request.Foreign settings.nodeName))
      (opening settings file start w follower) x)
    {now : Moment} (finite : now.wall.isFinite = true)
    (after : Relation.ReflTransGen
      (Next settings.nodeName (Request.Unforced settings.nodeName)) (x.request now .stop) z) :
    Maintained settings.nodeName (x.editions < z.editions) z := by
  have stopped : Standing settings.nodeName (· = .maintenance) (x.request now .stop) :=
    (run_standing (absorbing_any _) before
      (standing_opening settings file start w untrusted nodes)).stop finite
  have absorbing := absorbing_maintenance settings.nodeName
  obtain ⟨m, tells, state⟩ := (run_standing absorbing after stopped).telling.tells
  refine ⟨tells.monitor.symm ▸ state, state ▸ tells.lookup_status, fun t same => ?_,
    fun published abreast => ?_⟩
  · obtain ⟨play⟩ := Sound.played (t := t) (same.symm ▸ (run_standing absorbing after stopped).sound)
    have stays := play.maintained (same.symm ▸ tells.monitor.symm ▸ state)
    have rests := play.rests (by rw [stays]; rfl)
    exact ⟨⟨play.report, play.report?, stays⟩, rests.launched, rests.idle⟩
  · obtain ⟨_, faithful⟩ := stopped.faithful
    obtain ⟨a, shows, mirrors⟩ := abreast_shows absorbing.foreign (C := Shows .maintenance)
      (fun same h => h.congr same) after stopped.sound faithful
      (fun u run => (run_standing absorbing run stopped).shows) published abreast
    exact (shows.copy mirrors).lookup

variable (W) in
/-- The node is in maintenance, and found there by everyone who is abreast, from the
moment on at which its daemon is stopped. -/
def MaintenanceSticks : Prop :=
  ∀ (settings : Daemon.Settings) (file : Option String) (start : Float) (w : W)
    (follower : Follower) (x z : Exchange W) (now : Moment),
    follower.table.trust settings.nodeName = .untrusted → follower.store.HasNodes →
    Relation.ReflTransGen (Next settings.nodeName (Request.Foreign settings.nodeName))
      (opening settings file start w follower) x →
    now.wall.isFinite = true →
    Relation.ReflTransGen (Next settings.nodeName (Request.Unforced settings.nodeName))
      (x.request now .stop) z →
    Maintained settings.nodeName True z

end Exchange

namespace Script

open Exchange

/-- A node that has not heard of any other one. -/
def deaf : Follower := ⟨[], ⟨.map [("cluster", .map [("nodes", .map [])])], none, []⟩⟩

/-- A node that has just started, and one that is to follow it. -/
def begun : Exchange Simulation.World :=
  opening settings none 0 (Simulation.World.new false false) deaf

/-- A round of the node at a time, in milliseconds. -/
def roundAt (millis : Nat) (x : Exchange Simulation.World) : Exchange Simulation.World :=
  x.round ⟨"n1", 0⟩ (Moment.ofMillis millis) (Moment.ofMillis millis).wall

/-- The follower hears what was published last. -/
def hear (x : Exchange Simulation.World) : Exchange Simulation.World :=
  match x.sent.getLast? with
  | some m => x.deliver "n1" m
  | none => x

/-- The node has come to look after its services, and the follower has heard of it. -/
def followed : Exchange Simulation.World := hear ((roundAt 1000 (roundAt 0 begun)).full 1)

/-- The daemon is stopped. -/
def halted : Exchange Simulation.World := followed.request (Moment.ofMillis 2000) .stop

/-- One more round, of which the follower hears. -/
def told : Exchange Simulation.World := hear (roundAt 3000 halted)

theorem run_roundAt {allowed : Request → Prop} {millis : Nat} {x : Exchange Simulation.World}
    (finite : (Moment.ofMillis millis).wall.isFinite = true)
    (idle : (x.turn ⟨"n1", 0⟩ (Moment.ofMillis millis)
      (Moment.ofMillis millis).wall).taken.isEmpty = true) :
    Relation.ReflTransGen (Next "n1" allowed) x (roundAt millis x) := by
  refine .single (.round finite fun r hr => ?_)
  rw [List.isEmpty_iff.1 idle] at hr
  cases hr

theorem run_hear {allowed : Request → Prop} (x : Exchange Simulation.World) :
    Relation.ReflTransGen (Next "n1" allowed) x (hear x) := by
  unfold hear
  split
  · next m last => exact .single (.deliver (List.mem_of_getLast? last))
  · exact .refl

theorem run_followed :
    Relation.ReflTransGen (Next "n1" (Request.Foreign "n1")) begun followed :=
  (((run_roundAt (by decide +kernel) (by decide +kernel)).trans
    (run_roundAt (by decide +kernel) (by decide +kernel))).tail (.full 1)).trans (run_hear _)

theorem run_told :
    Relation.ReflTransGen (Next "n1" (Request.Unforced "n1")) halted told :=
  (run_roundAt (by decide +kernel) (by decide +kernel)).trans (run_hear _)

end Script

open Exchange Script

/-- The follower hears of the next round, and finds the node in maintenance. -/
theorem maintenance_sticks_told :
    followed.editions < told.editions ∧ told.Abreast "n1"
      ∧ Maintained "n1" (followed.editions < told.editions) told := by
  have finite : (Moment.ofMillis 2000).wall.isFinite = true := by decide +kernel
  have sticks : Maintained settings.nodeName (followed.editions < told.editions) told :=
    maintenance_sticks rfl ⟨[], rfl⟩ run_followed finite run_told
  exact ⟨by decide +kernel, ⟨3, by decide +kernel, by decide +kernel⟩, sticks⟩

/-- Up to the next publication the follower has all that was published, and finds the
node idle. -/
theorem not_maintenanceSticks : ¬ MaintenanceSticks Simulation.World := by
  intro sticks
  have claimed : Maintained "n1" True halted := sticks settings none 0 _ deaf followed halted
    (Moment.ofMillis 2000) rfl ⟨[], rfl⟩ run_followed (by decide +kernel) .refl
  have abreast : halted.Abreast "n1" := ⟨2, by decide +kernel, by decide +kernel⟩
  have idle : (halted.follower.store.data.lookup ((Layout.nodeMonitor "n1").key "status")
      == some (Named.toValue Node.State.idle)) = true := by decide +kernel
  rw [claimed.shown trivial abreast] at idle
  exact absurd idle (by decide +kernel)

end Monitor

end HaCluster
