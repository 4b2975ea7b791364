import HaCluster.Proofs.Monitor.Budget
import HaCluster.Proofs.Monitor.Transient

/-!
# What a round makes of a service that is ready

A round writes the record of a service in three places: where its action has
ended, where the service is decided about, and where its instance is dropped.
Only the decision can make the record `ready`, and it dates it with the round.
So a record that is `ready` when the services come is the one that the round has
found (`Clears`), and one that is `ready` after the round is so since the round
or since it was before (`ReadyFrom`).

Of a round only one decision is about the service, and all that happens before
and after it lies beside the service (`orchestrateAll_isolates`). If the decision
starts the service, the record has been `ready` for the ready period when the
services come, and it is not `ready` any more after the round (`Sound.started`).
-/

namespace HaCluster.Monitor

open Value Mutation
open Daemon (Since)

variable {W : Type} {α : Type} {node p : String} {s s' t : Monitor W} {at_ now : Float} {v : View}
  {o : NodeOutcome}

/-! ## What leaves the record alone -/

theorem Beside.trans {s'' : Monitor W} (h : Beside node p s s') (h' : Beside node p s' s'') :
    Beside node p s s'' :=
  ⟨h'.name, (frame_spared node p).trans h.data h'.data, h'.running.trans h.running⟩

/-- A step that edits nothing of a service leaves its record. -/
theorem record_of_retains {m : Step W α} {a : α}
    (retains : Retains (Since node (Spared node p) s.daemon.store) m)
    (name : s.daemon.nodeName = node) (run : m s = .ok a s') :
    s'.daemon.nodeName = node ∧ record node p s' = record node p s := by
  have since := retains.of_ok run (Daemon.since_refl (frame_spared node p) name)
  refine ⟨since.name, ?_⟩
  unfold record
  rw [Node.Blob.instanceMonitor_eq, Node.Blob.instanceMonitor_eq, since.store.data.1]

/-- Instances that are dropped are not `ready`. -/
theorem clears_dropInstances (h : Sound Node.Blob.anything node s) {services : List String}
    (run : (services.forM fun q => mutate (Node.Blob.dropInstance node q)) s = .ok () s') :
    (record node p s).Clears (record node p s') := by
  induction services generalizing s with
  | nil =>
    cases run
    exact .refl _
  | cons q services ih =>
    obtain ⟨u, t, first, rest⟩ := bind_eq_ok run
    obtain ⟨u', t', first', soundT, -⟩ :=
      quiet_mutate (Node.Blob.keeps_dropInstance (R := Node.Blob.anything) q) s h
    cases first.symm.trans first'
    refine Service.Monitor.Clears.trans ?_ (ih soundT rest)
    by_cases same : q = p
    · subst same
      exact Node.Blob.clears_dropInstance h.daemon.shaped (mutate_eq_ok first).2
    · have spared : Retains (W := W) (Since node (Spared node p) s.daemon.store)
          (mutate (Node.Blob.dropInstance node q)) :=
        retains_mutate (frame_spared node p)
          (Node.Blob.framed_dropInstance (frame_spared node p) (.instance same))
      rw [(record_of_retains spared h.daemon.name first).2]
      exact .refl _

theorem clears_dropOrphans (h : Sound Node.Blob.anything node s) (hv : v.localNode = node)
    (run : dropOrphans v s = .ok () s') : (record node p s).Clears (record node p s') := by
  unfold dropOrphans at run
  rw [get_bind, hv] at run
  exact clears_dropInstances h run

variable [World W]

/-! ## Actions that end -/

/-- What the end of an action leaves behind is not `ready`. -/
theorem clears_complete {a : Action} {code : Option Int} (name : s.daemon.nodeName = node)
    (run : complete at_ now a code s = .ok () s') :
    (record node p s).Clears (record node p s') := by
  subst name
  by_cases same : a.path = p
  · subst same
    intro ready
    rcases (complete_left run).2.state with ended | idle
    · rw [show (record s.daemon.nodeName a.path s').state = _ from ended] at ready
      split at ready <;> cases kind : a.kind <;> rw [kind] at ready <;> cases ready
    · rw [show (record s.daemon.nodeName a.path s').state = .idle from idle] at ready
      cases ready
  · rw [(record_of_retains (retains_complete (frame_spared _ p) at_ now same code) rfl run).2]
    exact .refl _

theorem completeAll_cons_eq_ok {service : String} {code : Int} {ended : List (String × Int)}
    {done : List (Action × Int)}
    (run : completeAll at_ now ((service, code) :: ended) s = .ok done s') :
    completeAll at_ now ended s = .ok done s'
      ∨ ∃ (r : Running) (t : Monitor W) (rest : List (Action × Int)),
        complete at_ now r.action (some code)
            { s with running := Entries.erase s.running service } = .ok () t
          ∧ completeAll at_ now ended t = .ok rest s' ∧ done = (r.action, code) :: rest := by
  unfold completeAll at run
  rw [get_bind] at run
  cases there : Entries.get? s.running service with
  | none =>
    rw [there] at run
    exact .inl run
  | some r =>
    rw [there] at run
    obtain ⟨_, u, erased, run⟩ := bind_eq_ok (σ := Monitor W) run
    cases erased
    obtain ⟨_, t, first, run⟩ := bind_eq_ok (σ := Monitor W) run
    obtain ⟨rest, u, others, done⟩ := bind_eq_ok run
    cases done
    exact .inr ⟨r, t, rest, first, others, rfl⟩

theorem clears_completeAll {ended : List (String × Int)} {done : List (Action × Int)}
    (name : s.daemon.nodeName = node) (run : completeAll at_ now ended s = .ok done s') :
    (record node p s).Clears (record node p s') := by
  induction ended generalizing s done with
  | nil =>
    cases run
    exact .refl _
  | cons e ended ih =>
    rcases completeAll_cons_eq_ok run with rest | ⟨r, t, done', first, rest, -⟩
    · exact ih name rest
    · have here : (record node p s).Clears (record node p t) := clears_complete
        (s := { s with running := Entries.erase s.running e.1 }) name first
      exact here.trans (ih ((complete_left first).1.name.trans name) rest)

/-- **Up to the services** nothing makes a record `ready`. -/
theorem clears_prepare {host : Daemon.Host} {moment : Moment} {o : Outlook}
    (name : s.daemon.nodeName = node) (run : prepare host moment at_ s = .ok o s') :
    (record node p s).Clears (record node p s') := by
  rw [prepare_eq] at run
  obtain ⟨done, t, settled, surveyed⟩ := bind_eq_ok run
  have frame := Node.Blob.frame_statuses node
  have nameT : t.daemon.nodeName = node :=
    ((retains_settle (W := W) frame (fun _ => trivial) host moment at_).of_ok settled
      (Daemon.since_refl frame name)).name
  have spared : Retains (W := W) (Since node (Spared node p) t.daemon.store)
      (survey moment at_ done) := retains_survey (frame_spared node p) moment
        (.of_frame (frame_spared node p) trivial at_) done
  rw [(record_of_retains spared nameT surveyed).2]
  unfold settle at settled
  obtain ⟨_, u, loaded, reaped⟩ := bind_eq_ok (σ := Monitor W) settled
  obtain ⟨nameU, same⟩ := record_of_retains (p := p) (retains_reload host) name loaded
  rw [← same]
  unfold reap at reaped
  rw [get_bind] at reaped
  obtain ⟨_, w, polled, completed⟩ := bind_eq_ok (σ := Monitor W) reaped
  cases polled
  exact clears_completeAll (s := { u with world := (pollAll u.running u.world).2 }) nameU completed

/-- **Up to the services** the mapping of the instances stays one. -/
theorem statuses_prepare {host : Daemon.Host} {moment : Moment} {o : Outlook}
    (name : s.daemon.nodeName = node) (run : prepare host moment at_ s = .ok o s')
    (mapping : HasMapping s.daemon.store.data (Node.Blob.statuses node)) :
    HasMapping s'.daemon.store.data (Node.Blob.statuses node) := by
  have frame := Node.Blob.frame_statuses node
  have prepares : Retains (W := W) (Since node _ s.daemon.store) (prepare host moment at_) :=
    retains_prepare frame (.of_frame frame trivial at_) (fun _ => trivial) host moment
  exact (prepares.of_ok run (Daemon.since_refl frame name)).store.data mapping

/-! ## The decision -/

theorem clears_launchWanted {w : Option Action} {r : Option Action}
    (name : s.daemon.nodeName = node) (run : launchWanted at_ now w s = .ok r s') :
    (record node p s).Clears (record node p s') := by
  cases w with
  | none =>
    cases run
    exact .refl _
  | some a =>
    rcases launchWanted_eq_ok run with ⟨-, same, -⟩ | ⟨-, world, completed⟩
    · unfold record
      rw [same]
      exact .refl _
    · exact clears_complete (s := { s with world := world }) name completed

/-- **A decision** makes a record `ready` from now on, or leaves it so. -/
theorem readyFrom_orchestrate (name : s.daemon.nodeName = v.localNode)
    (finite : at_.isFinite = true)
    (dated : (record v.localNode p s).state = .ready →
      (record v.localNode p s).stateSince.isFinite = true) {r : Option Action}
    (run : orchestrate at_ now v o p s = .ok r s') :
    (record v.localNode p s).ReadyFrom at_ (record v.localNode p s') := by
  cases config : v.localData?.bind (fun d => Entries.get? d.configs p) with
  | none =>
    cases (orchestrate_unconfigured config).symm.trans run
    exact (Service.Monitor.Clears.refl _).readyFrom
  | some c =>
    rw [orchestrate_eq config] at run
    obtain ⟨changed, t, written, rest⟩ := bind_eq_ok run
    obtain ⟨steady, updated⟩ := mutate_eq_ok written
    have decided := Node.Blob.readyFrom_of_update updated (fun _ => rfl) finite dated
    obtain ⟨u, noted, daemon, -⟩ := when_emit_run
      (c := (serviceSituation s v o at_ p c).decide.state
        ≠ (serviceSituation s v o at_ p c).monitor.state) _
      (fun _ => launchWanted at_ now (serviceSituation s v o at_ p c).decide.action) t
    have nameU : u.daemon.nodeName = v.localNode := by
      rw [daemon, steady.name, name]
    have launched : (record v.localNode p u).Clears (record v.localNode p s') :=
      clears_launchWanted nameU (noted.symm.trans rest)
    unfold record at launched
    rw [daemon] at launched
    exact Service.Monitor.ReadyFrom.clears decided launched

/-- Other services are decided about beside the service. -/
theorem beside_orchestrateAll (name : s.daemon.nodeName = v.localNode) {services : List String}
    (absent : p ∉ services) {r : List Action × List (String × DataError)}
    (run : orchestrateAll at_ now v o services s = .ok r s') : Beside v.localNode p s s' := by
  induction services generalizing s r with
  | nil =>
    cases run
    exact .refl name
  | cons q services ih =>
    obtain ⟨ne, absent⟩ := not_or.1 (fun there => absent (List.mem_cons.2 there))
    have beside := beside_orchestrate at_ now o name (Ne.symm ne)
    unfold Step.after at beside
    rcases orchestrateAll_cons_eq_ok run with
      ⟨_, t, rest, first, others, -⟩ | ⟨_, t, rest, first, others, -⟩ <;>
    · rw [first] at beside
      exact beside.trans (ih beside.name absent others)

/-- **One decision is about the service**, and what the round does for the other
services lies beside it. -/
theorem orchestrateAll_isolates (name : s.daemon.nodeName = v.localNode) {services : List String}
    (nodup : services.Nodup) (mem : p ∈ services) {launched : List Action}
    (run : orchestrateAll at_ now v o services s = .ok (launched, []) s') :
    ∃ r t u, orchestrate at_ now v o p t = .ok r u ∧ Beside v.localNode p s t
      ∧ t.daemon.settings = s.daemon.settings ∧ Beside v.localNode p u s' := by
  induction services generalizing s launched with
  | nil => cases mem
  | cons q services ih =>
    obtain ⟨fresh, nodup⟩ := List.nodup_cons.1 nodup
    rcases orchestrateAll_cons_eq_ok run with
      ⟨r, t, rest, first, others, -⟩ | ⟨_, _, _, _, _, none⟩
    · by_cases same : q = p
      · subst same
        have nameT : t.daemon.nodeName = v.localNode := by
          have since := (retains_orchestrate (Node.Blob.frame_statuses v.localNode) at_ now rfl o
            (q := q) trivial).of_ok first (Daemon.since_refl (Node.Blob.frame_statuses _) name)
          exact since.name
        exact ⟨r, s, t, first, .refl name, rfl, beside_orchestrateAll nameT fresh others⟩
      · have beside := beside_orchestrate at_ now o name same
        have settings := (leaves_orchestrate at_ now v o same s).2
        rw [Step.after_of_ok first] at beside settings
        obtain ⟨r', t', u, here, before, kept, after⟩ :=
          ih beside.name nodup ((List.mem_cons.1 mem).resolve_left (Ne.symm same)) others
        exact ⟨r', t', u, here, beside.trans before, kept.trans settings, after⟩
    · cases none

/-- **The services of a round isolate the decision** about one of them: what is done
before it lies beside the service, and what is done after it leaves the record. -/
theorem attend_isolates (h : Sound Node.Blob.anything s.daemon.nodeName s) {o : Outlook}
    (mem : p ∈ o.services at_ s) {launched : List Action}
    (run : attend at_ now o s = .ok (launched, []) s') :
    ∃ r t u, orchestrate at_ now (o.view at_ s) o.node p t = .ok r u
      ∧ Beside s.daemon.nodeName p s t ∧ t.daemon.settings = s.daemon.settings
      ∧ record s.daemon.nodeName p s' = record s.daemon.nodeName p u := by
  unfold Outlook.services at mem
  unfold attend at run
  split at mem
  · cases mem
  · next touches =>
    rw [if_neg touches, get_bind] at run
    obtain ⟨⟨l, f⟩, w, all, run⟩ := bind_eq_ok run
    obtain ⟨_, w', dropped, run⟩ := bind_eq_ok (σ := Monitor W) run
    cases run
    obtain ⟨r, t, u, here, before, settings, after⟩ :=
      orchestrateAll_isolates (v := o.view at_ s) rfl h.daemon.nodup_localServices mem all
    have spared : Retains (W := W) (Since _ (Spared _ p) w.daemon.store)
        (dropOrphans (o.view at_ s)) :=
      retains_dropOrphans (frame_spared _ p) rfl fun _ _ => ne_of_mem_orphans mem
    exact ⟨r, t, u, here, before, settings,
      (record_of_retains spared after.name dropped).2.trans after.record⟩

/-- Deciding about the services makes a record `ready` from now on, or leaves it
so. -/
theorem readyFrom_attend (h : Sound Node.Blob.anything node s) (finite : at_.isFinite = true)
    (dated : (record node p s).state = .ready → (record node p s).stateSince.isFinite = true)
    {o : Outlook} {launched : List Action} (run : attend at_ now o s = .ok (launched, []) s') :
    (record node p s).ReadyFrom at_ (record node p s') := by
  obtain rfl := h.daemon.name
  unfold attend at run
  split at run
  · cases run
    exact (Service.Monitor.Clears.refl _).readyFrom
  · rw [get_bind] at run
    obtain ⟨⟨l, f⟩, t, all, run⟩ := bind_eq_ok run
    obtain ⟨_, u, dropped, run⟩ := bind_eq_ok (σ := Monitor W) run
    cases run
    have hv : (o.view at_ s).localNode = s.daemon.nodeName := rfl
    obtain ⟨launched, t', all', soundT, -⟩ := orchestrateAll_ok Node.Blob.rule_anything hv h at_
      now o.node (o.view at_ s).localServices
    cases all.symm.trans all'
    refine Service.Monitor.ReadyFrom.clears ?_ (clears_dropOrphans soundT hv dropped)
    rw [← hv]
    rw [← hv] at dated
    by_cases mem : p ∈ (o.view at_ s).localServices
    · obtain ⟨r, a, b, here, before, -, after⟩ :=
        orchestrateAll_isolates hv.symm h.daemon.nodup_localServices mem all
      rw [after.record, ← before.record]
      rw [← before.record] at dated
      exact readyFrom_orchestrate before.name finite dated here
    · rw [(beside_orchestrateAll hv.symm mem all).record]
      exact (Service.Monitor.Clears.refl _).readyFrom

/-! ## Rounds -/

namespace Turn

/-- The ready period in force when the services come, in seconds. -/
def readyPeriod (t : Turn W) : Float :=
  match prepare t.host t.now t.at_ t.before with
  | .ok _ s => s.daemon.settings.readyPeriod.toSeconds
  | .error _ _ => 0

theorem readyPeriod_eq {t : Turn W} {o : Outlook}
    (h : prepare t.host t.now t.at_ t.before = .ok o s) :
    t.readyPeriod = s.daemon.settings.readyPeriod.toSeconds := by
  unfold readyPeriod
  rw [h]

end Turn

variable {t : Turn W}

/-- The parts of a round of a sound monitor. -/
theorem Sound.parts (h : Sound Node.Blob.anything node t.before) :
    ∃ o u launched w report, prepare t.host t.now t.at_ t.before = .ok o u
      ∧ Sound Node.Blob.anything node u
      ∧ attend t.at_ t.now.wall o u = .ok (launched, []) w
      ∧ Sound Node.Blob.anything node w
      ∧ conclude t.at_ o (launched, []) w = .ok report t.after := by
  obtain ⟨o, u, prepared, soundU, -⟩ := prepare_ok Node.Blob.rule_anything h t.at_
    fun _ _ _ r _ _ new => Node.Blob.accepts_anything r.service new
  obtain ⟨launched, w, attended, soundW, -⟩ :=
    attend_ok Node.Blob.rule_anything soundU t.at_ t.now.wall o
  obtain ⟨report, s', concluded, -⟩ := conclude_ok soundW t.at_ o launched
  have after : t.after = s' := Turn.after_eq (round_of_parts prepared attended concluded)
  exact ⟨o, u, launched, w, report, prepared, soundU, attended, soundW, after ▸ concluded⟩

omit [World W] in
/-- The rest of a round leaves the record alone. -/
theorem record_conclude (name : s.daemon.nodeName = node) {o : Outlook}
    {done : List Action × List (String × DataError)} {r : Report}
    (run : conclude at_ o done s = .ok r s') : record node p s' = record node p s :=
  (record_of_retains (retains_conclude (frame_spared node p) (fun _ ne => ne) at_ o done) name
    run).2

/-- **A record that is ready after a round** is so since the round, or since it was
before, and what the round finds ready is what was there before. -/
theorem Sound.readied (h : Sound Node.Blob.anything node t.before)
    (finite : t.at_.isFinite = true)
    (dated : (record node p t.before).state = .ready →
      (record node p t.before).stateSince.isFinite = true) :
    (record node p t.before).Clears (t.found p)
      ∧ (t.found p).ReadyFrom t.at_ (record node p t.after) := by
  obtain ⟨o, u, launched, w, report, prepared, soundU, attended, soundW, concluded⟩ := h.parts
  have found : t.found p = record node p u := Turn.found_eq prepared soundU.daemon.name p
  have cleared : (record node p t.before).Clears (record node p u) :=
    clears_prepare h.daemon.name prepared
  rw [found, record_conclude soundW.daemon.name concluded]
  refine ⟨cleared, readyFrom_attend soundU finite (fun ready => ?_) attended⟩
  have same := cleared ready
  rw [same] at ready ⊢
  exact dated ready

omit [World W] in
/-- A service for which an action was decided on is not `ready` any more. -/
theorem Decided.not_ready {x : Service.Situation} {r : Option Action} {a : Action}
    (h : Decided node x s r s') (wanted : x.decide.action = some a) :
    (record node x.path s').state ≠ .ready := by
  intro ready
  have moved {state : Service.State} (left : Node.Blob.LeftIn node x.path state s'.daemon.store) :
      state = .ready := by
    rcases left.state with there | idle
    · exact there.symm.trans ready
    · exact absurd (ready.symm.trans idle) (by decide)
  cases h with
  | idle nothing => exact absurd (nothing.symm.trans wanted) nofun
  | launched _ _ _ _ _ left =>
    have backed := Service.Situation.backed_decide (Service.Situation.inFlight_of_action wanted)
    rw [Service.Decision.Backed, moved left, wanted] at backed
    exact absurd backed (by simp [Service.State.actionKind?])
  | @refused _ b _ _ left =>
    have failed := moved left
    cases kind : b.kind <;> rw [kind] at failed <;> cases failed

/-- A service of which an action is decided on is not `ready` after the services
of the round. -/
theorem not_ready_attend (h : Sound Node.Blob.anything node s) {o : Outlook}
    (mem : p ∈ o.services at_ s) {c : Service.Config}
    (config : (o.view at_ s).localData?.bind (fun d => Entries.get? d.configs p) = some c)
    {a : Action} (wanted : (serviceSituation s (o.view at_ s) o.node at_ p c).decide.action = some a)
    {launched : List Action} (run : attend at_ now o s = .ok (launched, []) s') :
    (record node p s').state ≠ .ready := by
  obtain rfl := h.daemon.name
  obtain ⟨r, t, u, here, before, settings, after⟩ := attend_isolates h mem run
  have same : serviceSituation t (o.view at_ s) o.node at_ p c
      = serviceSituation s (o.view at_ s) o.node at_ p c :=
    serviceSituation_congr before.running settings c
  rw [after]
  exact (orchestrate_decided before.name config here).not_ready (same ▸ wanted)

/-- **A start is tried** only of a service that has been ready for the ready
period when the services come, and after it the service is not ready. -/
theorem Sound.started (h : Sound Node.Blob.anything node t.before)
    (statuses : HasMapping t.before.daemon.store.data (Node.Blob.statuses node))
    (tries : t.tries (.whole p .start)) :
    (t.found p).state = .ready ∧ ¬ t.at_ - (t.found p).stateSince < t.readyPeriod
      ∧ (record node p t.after).state ≠ .ready := by
  obtain ⟨o, u, launched, w, report, prepared, soundU, attended, soundW, concluded⟩ := h.parts
  obtain ⟨x, decided, action⟩ := (h.tried Node.Blob.rule_anything t.accepts_anything
    (.whole p .start)).1.1 (of_decide_eq_true tries)
  change t.situation? p = some x at decided
  rw [Turn.situation?_eq prepared] at decided
  split at decided
  · next mem =>
    obtain ⟨c, config, rfl⟩ := Option.map_eq_some_iff.1 decided
    have mapping := statuses_prepare h.daemon.name prepared statuses
    have seen (i : Service.Instance) (hi : (o.view t.at_ u).instance? node p = some i) :
        i.monitor = record node p u := by
      rw [← soundU.daemon.name] at hi
      exact soundU.daemon.monitor_of_instance? mapping hi
    have starts : (serviceSituation u (o.view t.at_ u) o.node t.at_ p c).decide.starts := by
      unfold Service.Decision.starts
      rw [action]
      rfl
    obtain ⟨due, -⟩ := Service.Situation.starts_iff.1 starts
    -- a blank record is not ready, so the one that was decided about is the one that is there
    have same : (serviceSituation u (o.view t.at_ u) o.node t.at_ p c).monitor
        = record node p u := by
      refine (recorded soundU.daemon.name seen).resolve_right fun blank => ?_
      have ready := due.ready
      rw [blank.1] at ready
      cases ready
    rw [Turn.found_eq prepared soundU.daemon.name, Turn.readyPeriod_eq prepared,
      record_conclude soundW.daemon.name concluded, ← same]
    exact ⟨due.ready, due.waited, not_ready_attend soundU mem config action attended⟩
  · cases decided

end HaCluster.Monitor
