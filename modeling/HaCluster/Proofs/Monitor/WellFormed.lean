import HaCluster.Proofs.Monitor.Debounce
import HaCluster.Proofs.Node.Legible
import HaCluster.Proofs.Node.Update
import HaCluster.Proofs.Service.Rulings

/-!
# The blob of a node stays well formed

Every writer of the tree takes for granted what the others have written. Along a
history on which nobody speaks for the node as its peer, all of it stays in place:
the mappings in which a node keeps its blob, and the records of the node and of its
instances, which can be read. So no round fails, nor does any service in it, and a
record can be changed whenever that is asked for (`blob_wellFormed`).

Of the mappings this holds whatever happens (`Sound`). A record can be read as long
as it is dated with finite times and its counters fit into their bits. The counters
do, since a retry is counted only if one is left, of no more than can be counted:
the settings bound the starts, and the report of a resource its restarts.
-/

namespace HaCluster

open Value Mutation

namespace Daemon.Settings

/-- The retries of a start that settings allow can be counted, in as many bits as a
file of settings may write them with. -/
def Bounded (s : Settings) : Prop := s.maxStartRetries < twoTo 32

instance (s : Settings) : Decidable s.Bounded :=
  inferInstanceAs (Decidable (s.maxStartRetries < twoTo 32))

/-- Settings that are read are bounded. -/
theorem bounded_of_text {h : Host} {text : String} {s : Settings} (read : ofText h text = .ok s) :
    s.Bounded := by
  unfold ofText at read
  split at read
  · cases read
  · split at read
    · cases read
    · next decoded =>
      split at read
      · cases read
        have blank : (standard h).Bounded := Nat.two_pow_pos 32
        refine Decode.record_keeps ?_ blank decoded
        simp only [fields, List.forall_mem_cons, List.not_mem_nil, false_implies, implies_true,
          and_true]
        refine ⟨?_, ?_, ?_, ?_, ?_, ?_, ?_, ?_, ?_, ?_, ?_, ?_, ?_⟩
        case refine_8 =>
          exact Field.keeps_withDefault (fun value _ => Decode.lt_of_u32 value)
            fun _ => Nat.two_pow_pos 32
        all_goals exact Field.keeps_beside fun _ _ h => h
      · cases read

end Daemon.Settings

namespace Daemon

variable {R : String → Entries Value → Prop} {node : String} {d : Daemon}

/-- A change of the blob that keeps its shape is made when it is asked for. -/
theorem Sound.wakes (h : Sound R node d) {m : Mutation Bool} (keeps : Node.Blob.Keeps R node m) :
    ∃ changed d', (mutating m >>= wakeIf) d = .ok changed d' := by
  obtain ⟨changed, s, made, -⟩ := keeps d.store h.shaped
  exact ⟨changed, _, mutating_wakeIf made⟩

theorem answers_changed {m : Step Refusal Bool} (made : ∃ changed d', m d = .ok changed d') :
    ∃ changed d', (m >>= fun c => pure (Daemon.changed c)) d = .ok (Daemon.changed changed) d' := by
  obtain ⟨changed, d', done⟩ := made
  exact ⟨changed, d', bind_ok done⟩

/-- **The record of a node is changed** whenever that is asked for. -/
theorem Sound.setNode (h : Sound R node d) (now : Moment) (u : Node.Update) :
    ∃ changed d', serve now (.setNode u) d = .ok (Daemon.changed changed) d' :=
  answers_changed (h.wakes (h.name ▸ Node.Blob.keeps_updateMonitor now.wall u.apply))

/-- **The record of an instance is changed** whenever that is asked for, of whatever
service. -/
theorem Sound.setInstance (rule : Node.Blob.Rule R) (h : Sound R node d) (now : Moment)
    (p : String) (u : Service.Update) :
    ∃ changed d', serve now (.setInstance p u) d = .ok (Daemon.changed changed) d' :=
  answers_changed
    (h.wakes (h.name ▸ Node.Blob.keeps_updateInstanceMonitor (p := p) rule now.wall u.apply))

end Daemon

namespace Monitor

open Daemon (Since)
open Node.Blob (LegibleNode LegibleInstance)

variable {W : Type} {node p : String} {s s' : Monitor W} {at_ now : Float} {v : View}
  {o : NodeOutcome}

/-! ## What is written of an instance -/

/-- The end of an action leaves a record that can be written. -/
theorem regular_outcome (a : Action) (success : Bool) {m : Service.Monitor} (h : m.Regular) :
    (outcome a success m).Regular := by
  unfold outcome
  dsimp only
  split <;> exact ⟨h.dated, h.sorted, h.counted⟩

/-- A decision leaves a record that can be written, if what it counts can be
counted. -/
theorem regular_applyDecision {d : Service.Decision} {m : Service.Monitor} (h : m.Regular)
    (count : ∀ key, d.countRetry = some key →
      (Entries.get? m.retries key).getD 0 + 1 < twoTo 32) : (applyDecision d m).Regular := by
  refine ⟨h.dated, retries_after_decision h.sorted (fun key _ => h.sorted.insert _ _)
    fun l key sorted => sorted.erase key, ?_⟩
  refine retries_after_decision (C := fun l => ∀ e ∈ l, e.2 < twoTo 32) h.counted
    (fun key counts e he => ?_) fun l key counted e he =>
      counted e (Entries.mem_of_mem_erase he)
  rcases Entries.mem_of_mem_insert he with rfl | he
  · exact count key counts
  · exact h.counted e he

/-- Whatever service an action is on, its end leaves the record of a service one that
can be read. -/
theorem within_outcome (finite : at_.isFinite = true) (a : Action) (success : Bool) :
    Within (Store.Framed (fun v w => LegibleInstance node p v → LegibleInstance node p w))
      (Node.Blob.updateInstanceMonitor node a.path at_ (outcome a success)) := by
  by_cases same : a.path = p
  · rw [same]
    exact Node.Blob.within_update_legible finite fun _ => regular_outcome a success
  · exact Node.Blob.framed_updateInstanceMonitor (Node.Blob.frame_legibleInstance node p)
      (.record same) at_ _

variable [World W]

/-! ## The services -/

theorem retains_launchWanted {T : Value → Value → Prop} {self : Prop} {own peers : String → Prop}
    (frame : Frame (Node.Blob.Edits node self own peers) (Node.Blob.Makes node) T)
    (written : ∀ a : Action, Within (Store.Framed T)
      (Node.Blob.updateInstanceMonitor node a.path at_ (outcome a false)))
    (w : Option Action) {s₀ : Store} :
    Retains (Since node T s₀) (launchWanted at_ now w : Step W (Option Action)) := by
  cases w with
  | none => exact retains_pure _
  | some a =>
    refine retains_bind (retains_launch_of frame now (written a)) fun b => ?_
    cases b <;> exact retains_pure _

omit [World W] in
/-- An instance that is seen is decided about on its record. -/
theorem monitor_serviceSituation {c : Service.Config} {i : Service.Instance}
    (seen : v.instance? v.localNode p = some i) :
    (serviceSituation s v o at_ p c).monitor = i.monitor := by
  show ((v.instance? v.localNode p).map Service.Instance.monitor).getD Service.Monitor.blank = _
  rw [seen]
  rfl

omit [World W] in
/-- **What a decision counts can be counted**, if it is about the record that is
kept. -/
theorem room_to_count {c : Service.Config} {m : Service.Monitor}
    (bounded : s.daemon.settings.Bounded)
    (seen : ∀ i, v.instance? v.localNode p = some i →
      i.monitor = m ∧ ∀ e ∈ i.resources, e.2.restarts < twoTo 32)
    {key : String} (counts : (serviceSituation s v o at_ p c).decide.countRetry = some key) :
    (Entries.get? m.retries key).getD 0 + 1 < twoTo 32 := by
  obtain ⟨i, there, left⟩ := Service.Situation.counts_decide key counts
  obtain ⟨same, restarts⟩ := seen i there
  rw [show (serviceSituation s v o at_ p c).monitor = m from
    (monitor_serviceSituation there).trans same] at left
  rcases left with left | ⟨r, mem, left⟩
  · exact Nat.lt_of_le_of_lt left bounded
  · exact Nat.lt_of_le_of_lt left (restarts _ mem)

omit [World W] in
/-- What a decision makes of the record that is kept can be written. -/
theorem regular_decided (legible : LegibleInstance v.localNode p s.daemon.store.data)
    (bounded : s.daemon.settings.Bounded)
    (seen : ∀ i, v.instance? v.localNode p = some i →
      i.monitor = record v.localNode p s ∧ ∀ e ∈ i.resources, e.2.restarts < twoTo 32)
    (o : NodeOutcome) (at_ : Float) (c : Service.Config) :
    (applyDecision (serviceSituation s v o at_ p c).decide (record v.localNode p s)).Regular :=
  regular_applyDecision legible.regular fun _ => room_to_count bounded seen

/-- **A decision about a service** leaves a record that can be read, if the service
is decided about on the record that is there. -/
theorem legible_orchestrate (name : s.daemon.nodeName = v.localNode)
    (finite : at_.isFinite = true) (bounded : s.daemon.settings.Bounded)
    (seen : ∀ i, v.instance? v.localNode p = some i →
      i.monitor = record v.localNode p s ∧ ∀ e ∈ i.resources, e.2.restarts < twoTo 32)
    (legible : LegibleInstance v.localNode p s.daemon.store.data) {r : Option Action}
    (run : orchestrate at_ now v o p s = .ok r s') :
    LegibleInstance v.localNode p s'.daemon.store.data := by
  cases config : v.localData?.bind (fun d => Entries.get? d.configs p) with
  | none =>
    cases (orchestrate_unconfigured config).symm.trans run
    exact legible
  | some c =>
    rw [orchestrate_eq config] at run
    let x := serviceSituation s v o at_ p c
    obtain ⟨changed, t, written, rest⟩ := bind_eq_ok run
    obtain ⟨steady, updated⟩ := mutate_eq_ok written
    have left := Node.Blob.legible_after_update finite legible
      (regular_decided legible bounded seen o at_ c)
    rw [Mutation.after_of_ok updated] at left
    obtain ⟨u, noted, daemon, -⟩ := when_emit_run (c := x.decide.state ≠ x.monitor.state) _
      (fun _ => launchWanted at_ now x.decide.action) t
    have nameU : u.daemon.nodeName = v.localNode := by
      rw [daemon, steady.name, name]
    have frame := Node.Blob.frame_legibleInstance v.localNode p
    have launched := (retains_launchWanted frame (fun a => within_outcome finite a false)
      x.decide.action).of_ok (noted.symm.trans rest) (Daemon.since_refl frame nameU)
    rw [daemon] at launched
    exact launched.store.data left

/-- The instance of a service that a node sees has the record that is kept, and its
restarts can be counted. -/
theorem seen_viewOf {d : Daemon} (h : Daemon.Sound Node.Blob.anything node d)
    (mapping : HasMapping d.store.data (Node.Blob.statuses node)) {live declared : List String}
    {i : Service.Instance} (seen : (d.viewOf at_ live declared).instance? d.nodeName p = some i) :
    i.monitor = Node.Blob.instanceMonitor d.store node p
      ∧ ∀ e ∈ i.resources, e.2.restarts < twoTo 32 := by
  refine ⟨h.monitor_of_instance? mapping seen, ?_⟩
  rw [h.instance?_viewOf mapping] at seen
  obtain ⟨x, -, read⟩ := Option.bind_eq_some_iff.1 seen
  exact Service.Instance.restarts_lt (Decode.eq_ok_of_toOption read)

omit [World W] in
theorem Beside.legible (h : Beside node p s s')
    (legible : LegibleInstance node p s.daemon.store.data) :
    LegibleInstance node p s'.daemon.store.data :=
  fun x there => legible x (h.data.1 ▸ there)

theorem legible_orchestrateAll (name : s.daemon.nodeName = v.localNode)
    (finite : at_.isFinite = true) (bounded : s.daemon.settings.Bounded)
    (seen : ∀ i, v.instance? v.localNode p = some i →
      i.monitor = record v.localNode p s ∧ ∀ e ∈ i.resources, e.2.restarts < twoTo 32)
    (legible : LegibleInstance v.localNode p s.daemon.store.data) {services : List String}
    (nodup : services.Nodup) {launched : List Action}
    (run : orchestrateAll at_ now v o services s = .ok (launched, []) s') :
    s'.daemon.nodeName = v.localNode ∧ LegibleInstance v.localNode p s'.daemon.store.data := by
  by_cases mem : p ∈ services
  -- the record that the decision changes is still the one that was seen
  · obtain ⟨r, t, u, here, before, settings, after⟩ :=
      orchestrateAll_isolates name nodup mem run
    refine ⟨after.name, after.legible ?_⟩
    exact legible_orchestrate before.name finite (settings ▸ bounded) (before.record ▸ seen)
      (before.legible legible) here
  · have beside := beside_orchestrateAll name mem run
    exact ⟨beside.name, beside.legible legible⟩

/-- The services are decided about on the records that are there. -/
theorem legible_attend (h : Sound Node.Blob.anything node s)
    (mapping : HasMapping s.daemon.store.data (Node.Blob.statuses node))
    (finite : at_.isFinite = true) (bounded : s.daemon.settings.Bounded)
    (legible : LegibleInstance node p s.daemon.store.data) {o : Outlook} {launched : List Action}
    (run : attend at_ now o s = .ok (launched, []) s') :
    LegibleInstance node p s'.daemon.store.data := by
  obtain rfl := h.daemon.name
  unfold attend at run
  split at run
  · cases run
    exact legible
  · rw [get_bind] at run
    obtain ⟨⟨l, f⟩, t, all, run⟩ := bind_eq_ok run
    obtain ⟨_, u, dropped, run⟩ := bind_eq_ok (σ := Monitor W) run
    cases run
    obtain ⟨name, decided⟩ := legible_orchestrateAll (v := o.view at_ s) rfl finite bounded
      (fun i hi => seen_viewOf h.daemon mapping hi) legible h.daemon.nodup_localServices all
    have frame := Node.Blob.frame_legibleInstance s.daemon.nodeName p
    have drops : Retains (W := W) (Since s.daemon.nodeName _ t.daemon.store)
        (dropOrphans (o.view at_ s)) :=
      retains_get fun m => retains_forM fun q _ => retains_mutate frame <| by
        by_cases same : q = p
        · rw [same]
          exact Node.Blob.within_dropInstance_legible s.daemon.nodeName p
        · exact Node.Blob.framed_dropInstance frame (.instance same)
    exact (drops.of_ok dropped (Daemon.since_refl frame name)).store.data decided

/-! ## Up to the services -/

theorem bounded_loadSettings {host : Daemon.Host} {w : W} {file : String}
    {settings : Daemon.Settings} (read : loadSettings host w file = .ok settings) :
    settings.Bounded := by
  unfold loadSettings at read
  split at read
  · exact Daemon.Settings.bounded_of_text read
  · cases read

/-- Settings that are read again are bounded, and so are those that stay. -/
theorem bounded_reload {host : Daemon.Host} (bounded : s.daemon.settings.Bounded) {u : Unit}
    (run : reload host s = .ok u s') : s'.daemon.settings.Bounded := by
  have loaded : (Daemon.Step.after (Daemon.reloadSettings (loadSettings host s.world))
      s.daemon).settings.Bounded := by
    unfold Daemon.Step.after Daemon.reloadSettings
    dsimp only
    cases s.daemon.settingsChanged with
    | false => exact bounded
    | true =>
      rw [if_pos rfl]
      cases s.daemon.settingsFile with
      | none => exact bounded
      | some file =>
        dsimp only
        cases read : loadSettings host s.world file with
        | error e => exact bounded
        | ok settings =>
          have bounded := bounded_loadSettings read
          exact bounded
  unfold Daemon.Step.after at loaded
  cases run
  dsimp only
  cases result : Daemon.reloadSettings (loadSettings host s.world) s.daemon <;>
    rw [result] at loaded <;> exact loaded

theorem settings_completeAll {ended : List (String × Int)} {done : List (Action × Int)}
    (run : completeAll at_ now ended s = .ok done s') :
    s'.daemon.settings = s.daemon.settings := by
  induction ended generalizing s done with
  | nil =>
    cases run
    rfl
  | cons e ended ih =>
    rcases completeAll_cons_eq_ok run with rest | ⟨r, t, done', first, rest, -⟩
    · exact ih rest
    · exact (ih rest).trans (complete_left first).1.settings

/-- **Up to the services** the settings stay bounded, though they may be read
again. -/
theorem bounded_prepare (h : Sound Node.Blob.anything node s) {host : Daemon.Host} {moment : Moment}
    {o : Outlook} (bounded : s.daemon.settings.Bounded)
    (run : prepare host moment at_ s = .ok o s') : s'.daemon.settings.Bounded := by
  rw [prepare_eq] at run
  obtain ⟨done, t, settled, surveyed⟩ := bind_eq_ok run
  obtain ⟨done', t', settled', sound, -⟩ :=
    settle_ok Node.Blob.rule_anything h host moment at_
  cases settled.symm.trans settled'
  obtain ⟨o', u, surveyed', -, calm, -⟩ := survey_ok Node.Blob.rule_anything sound moment at_ done
    fun r _ _ new => Node.Blob.accepts_anything r.service new
  cases surveyed.symm.trans surveyed'
  rw [calm.settings]
  unfold settle at settled
  obtain ⟨_, w, loaded, reaped⟩ := bind_eq_ok (σ := Monitor W) settled
  unfold reap at reaped
  rw [get_bind] at reaped
  obtain ⟨_, y, polled, completed⟩ := bind_eq_ok (σ := Monitor W) reaped
  cases polled
  rw [settings_completeAll completed]
  have read := bounded_reload bounded loaded
  exact read

/-! ## Stages -/

/-- What a history keeps: a node can read its own records. -/
structure Legible (node : String) (s : Monitor W) : Prop where
  sound : Sound Node.Blob.anything node s
  statuses : HasMapping s.daemon.store.data (Node.Blob.statuses node)
  self : LegibleNode node s.daemon.store.data
  instances (p : String) : LegibleInstance node p s.daemon.store.data

/-- **A round** leaves records that can be read. -/
theorem legible_round {t : Turn W} (h : Sound Node.Blob.anything node t.before)
    (mapping : HasMapping t.before.daemon.store.data (Node.Blob.statuses node))
    (finite : t.at_.isFinite = true) (bounded : t.before.daemon.settings.Bounded)
    (legible : LegibleInstance node p t.before.daemon.store.data) :
    LegibleInstance node p t.after.daemon.store.data := by
  obtain ⟨o, u, launched, w, report, prepared, soundU, attended, soundW, concluded⟩ := h.parts
  have frame := Node.Blob.frame_legibleInstance node p
  have prepares : Retains (W := W) (Since node _ t.before.daemon.store)
      (prepare t.host t.now t.at_) :=
    retains_bind (retains_settle_of frame (within_outcome finite) t.host t.now)
      fun done => retains_survey frame t.now (.of_frame frame trivial t.at_) done
  have before := prepares.of_ok prepared (Daemon.since_refl frame h.daemon.name)
  have decided : LegibleInstance node p w.daemon.store.data :=
    legible_attend soundU (statuses_prepare h.daemon.name prepared mapping) finite
      (bounded_prepare h bounded prepared) (before.store.data legible) attended
  have concludes : Retains (W := W) (Since node _ w.daemon.store)
      (conclude t.at_ o (launched, [])) := retains_conclude frame (fun _ ne => ne) t.at_ o _
  exact (concludes.of_ok concluded (Daemon.since_refl frame soundW.daemon.name)).store.data decided

/-- **Whatever is asked** leaves records that can be read. -/
theorem legible_serve {d : Daemon} (h : Daemon.Sound Node.Blob.anything node d) {now : Moment}
    (finite : now.wall.isFinite = true) {r : Request} (foreign : r.Foreign node)
    (legible : LegibleInstance node p d.store.data) :
    LegibleInstance node p (Daemon.Step.after (Daemon.serve now r) d).store.data := by
  by_cases changes : ∃ u, r = .setInstance p u
  · obtain ⟨u, rfl⟩ := changes
    obtain ⟨changed, s, run, -⟩ := Node.Blob.keeps_updateInstanceMonitor (p := p)
      Node.Blob.rule_anything now.wall u.apply d.store h.shaped
    have left := Node.Blob.legible_after_update finite legible
      (Service.Monitor.regular_apply u legible.regular)
    unfold Mutation.after at left
    rw [run] at left
    rw [Daemon.store_after_setInstance (h.name ▸ run)]
    exact left
  · have frame := Node.Blob.frame_legibleInstance node p
    have since := Daemon.since_serve frame (.of_frame frame trivial now.wall)
      (fun q u same => by rintro rfl; exact changes ⟨u, same⟩) foreign d
      (Daemon.since_refl frame h.name)
    exact since.store.data legible

theorem legibleNode_stage {e : Stage W} (name : e.before.daemon.nodeName = node)
    (possible : e.Allowed (Request.Foreign node))
    (finite : ∀ u, e.time? = some u → u.isFinite = true)
    (h : LegibleNode node e.before.daemon.store.data) :
    LegibleNode node e.after.daemon.store.data := by
  have frame := Node.Blob.frame_legibleNode node
  cases e with
  | round t =>
    have since := retains_round frame (Node.Blob.notes_legibleNode (finite _ rfl))
      (fun _ => trivial) (fun _ ne => ne) t.host t.now t.before (Daemon.since_refl frame name)
    rw [t.step_after] at since
    exact since.store.data h
  | request now r s =>
    have since := Daemon.since_serve frame (Node.Blob.notes_legibleNode (finite _ rfl))
      (fun _ _ _ => trivial) possible s.daemon (Daemon.since_refl frame name)
    exact since.store.data h
  | aside s s' =>
    change LegibleNode node s'.daemon.store.data
    rw [possible.2.1]
    exact h

/-- **One stage** keeps the records legible. -/
theorem Legible.stage {e : Stage W} (h : Legible node e.before)
    (possible : e.Allowed (Request.Foreign node))
    (finite : ∀ u, e.time? = some u → u.isFinite = true)
    (bounded : e.before.daemon.settings.Bounded) : Legible node e.after where
  sound := ((History.refl e.before).stage e possible).sound h.sound
  statuses := Stage.statuses h.sound.daemon.name h.statuses possible
  self := legibleNode_stage h.sound.daemon.name possible finite h.self
  instances p := by
    cases e with
    | round t =>
      exact legible_round h.sound h.statuses (finite _ rfl) bounded (h.instances p)
    | request now r s => exact legible_serve h.sound.daemon (finite _ rfl) possible (h.instances p)
    | aside s s' =>
      change LegibleInstance node p s'.daemon.store.data
      rw [possible.2.1]
      exact h.instances p

variable {es : List (Stage W)}

/-- **Along a history** the records stay legible. -/
theorem History.legible (run : History (Request.Foreign node) s es s')
    (finite : ∀ e ∈ es, ∀ u, e.time? = some u → u.isFinite = true)
    (bounded : ∀ e ∈ es, e.before.daemon.settings.Bounded) (start : Legible node s) :
    Legible node s' := by
  induction run with
  | refl => exact start
  | @stage es e _ possible ih =>
    have before := ih (fun f hf => finite f (List.mem_append_left _ hf))
      fun f hf => bounded f (List.mem_append_left _ hf)
    have last : e ∈ es ++ [e] := List.mem_append_right es (List.mem_singleton_self e)
    exact before.stage possible (finite e last) (bounded e last)

omit [World W] in
theorem legible_new (settings : Daemon.Settings) (file : Option String) (start : Float) (w : W) :
    Legible settings.nodeName (new (Daemon.start settings file start) w) where
  sound := sound_new _ settings file start w
  statuses := statuses_new settings file start w
  self := ⟨_, Node.Monitor.blank, lookup_nodeMonitor_new settings file start w, rfl,
    by decide +kernel⟩
  instances p x there := by
    rw [show Layout.serviceMonitor settings.nodeName p
      = Node.Blob.statuses settings.nodeName ++ [.key p, .key "monitor"] from rfl, lookup_append,
      lookup_statuses_new settings file start w] at there
    cases there

/-! ## Well-formed blobs -/

/-- The tree of a node has the mappings in which the node keeps its blob, and the
records in them can be read. -/
structure WellFormed (node : String) (v : Value) : Prop where
  nodes : ∃ m, v.lookup Layout.nodes = some (.map m)
  blob : ∃ m, v.lookup (Layout.node node) = some (.map m)
  instances : ∃ st, v.lookup (Node.Blob.statuses node) = some (.map st)
    ∧ ∀ e ∈ st, ∃ doc, e.2 = .map doc
  configs : ∃ cf, v.lookup (Node.Blob.configs node) = some (.map cf)
  nodeMonitor : ∃ x m, v.lookup (Layout.nodeMonitor node) = some x
    ∧ Decode.ofValue Node.Monitor.decode x = .ok m
  instanceMonitor (p : String) (x : Value) : v.lookup (Layout.serviceMonitor node p) = some x →
    ∃ m, Decode.ofValue Service.Monitor.decode x = .ok m

/-- Whenever the next round comes it succeeds, and no service fails in it; and
whatever change of a record is asked for is made. -/
structure Unfailing (s : Monitor W) : Prop where
  round (host : Daemon.Host) (now : Moment) (at_ : Float) :
    ∃ r s', round host now at_ s = .ok r s' ∧ r.failed = []
  setNode (now : Moment) (u : Node.Update) :
    ∃ changed d, Daemon.serve now (.setNode u) s.daemon = .ok (Daemon.changed changed) d
  setInstance (now : Moment) (p : String) (u : Service.Update) :
    ∃ changed d, Daemon.serve now (.setInstance p u) s.daemon
      = .ok (Daemon.changed changed) d

omit [World W] in
theorem Legible.wellFormed (h : Legible node s) : WellFormed node s.daemon.store.data where
  nodes := h.sound.daemon.shaped.hasNodes
  blob := h.sound.daemon.shaped.blobMap
  instances := by
    obtain ⟨st, there, documents⟩ := h.sound.daemon.shaped.instances
    exact ⟨st, there, fun e he => let ⟨doc, same, _⟩ := documents e he; ⟨doc, same⟩⟩
  configs := let ⟨cf, there, _⟩ := h.sound.daemon.shaped.services; ⟨cf, there⟩
  nodeMonitor := let ⟨x, m, there, read, _⟩ := h.self; ⟨x, m, there, read⟩
  instanceMonitor p x there := let ⟨m, read, _⟩ := h.instances p x there; ⟨m, read⟩

theorem Sound.unfailing (h : Sound Node.Blob.anything node s) : Unfailing s where
  round host now at_ := by
    let t : Turn W := ⟨host, now, at_, s⟩
    obtain ⟨o, u, launched, w, report, prepared, -, attended, -, concluded⟩ :=
      Sound.parts (t := t) h
    obtain ⟨_, _, -, -, reported⟩ := conclude_eq_ok concluded
    exact ⟨report, t.after, round_of_parts prepared attended concluded, by rw [reported]⟩
  setNode := h.daemon.setNode
  setInstance := h.daemon.setInstance Node.Blob.rule_anything

/-- **The blob of a node stays well formed, and no round fails.** Whatever is
requested, as long as nobody speaks for the node as its peer, whatever is reported
and comes of the actions, and whatever settings come into force: the tree has the
mappings and the records that its writers take for granted, so that the next round
succeeds with every service and a record can always be changed. -/
theorem blob_wellFormed {settings : Daemon.Settings} {file : Option String} {start : Float} {w : W}
    (run : History (Request.Foreign settings.nodeName) (new (Daemon.start settings file start) w)
      es s)
    (finite : ∀ e ∈ es, ∀ u, e.time? = some u → u.isFinite = true)
    (bounded : ∀ e ∈ es, e.before.daemon.settings.Bounded) :
    WellFormed settings.nodeName s.daemon.store.data ∧ Unfailing s := by
  have legible := run.legible finite bounded (legible_new settings file start w)
  exact ⟨legible.wellFormed, legible.sound.unfailing⟩

open Script in
/-- So it stays while the start of a service fails and is tried again. -/
theorem blob_wellFormed_retrying :
    History (Request.Foreign settings.nodeName) fresh retrying again.2
      ∧ (∀ e ∈ retrying, ∀ u, e.time? = some u → u.isFinite = true)
      ∧ (∀ e ∈ retrying, e.before.daemon.settings.Bounded)
      ∧ WellFormed settings.nodeName again.2.daemon.store.data ∧ Unfailing again.2 := by
  have timed : Timed retrying := by decide +kernel
  have bounded : ∀ e ∈ retrying, e.before.daemon.settings.Bounded := by decide +kernel
  exact ⟨history_retrying, timed.finite_of_mem, bounded,
    blob_wellFormed history_retrying timed.finite_of_mem bounded⟩

end Monitor

end HaCluster
