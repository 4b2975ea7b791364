import HaCluster.Proofs.Monitor.Attempts
import HaCluster.Proofs.Service.Transient

/-!
# No transient state without an action

A record in a transient state promises that an action is in flight which will
bring the service out of it. Nothing keeps others from writing such a record:
a request may force any state, and a message may bring any blob. But a round
that decides about the service sets it right. Whatever the round finds, after it
a transient record has an action in flight (`transient_inFlight`): the one that
was in flight already, or the one that the round has just launched, of which the
record is then about; and an action that could not be launched has left its
failure behind.

Nothing is assumed of the monitor, so records that cannot be read, and services
that are listed twice, are among what a round may find.
-/

namespace HaCluster.Monitor

open Value Mutation
open Daemon (Since)
open Node.Blob (LeftIn)

variable {W : Type} {α β : Type} {node p : String} {s s' t : Monitor W}

/-! ## Steps that succeed -/

/-- Neither the daemon's name and settings nor the table were touched. -/
structure Steady (s s' : Monitor W) : Prop where
  name : s'.daemon.nodeName = s.daemon.nodeName
  settings : s'.daemon.settings = s.daemon.settings
  running : s'.running = s.running

theorem Steady.trans {s'' : Monitor W} (h : Steady s s') (h' : Steady s' s'') : Steady s s'' :=
  ⟨h'.name.trans h.name, h'.settings.trans h.settings, h'.running.trans h.running⟩

/-- A mutation that succeeds changes the tree alone. -/
theorem mutate_eq_ok {m : Mutation α} {a : α} (run : mutate m s = .ok a s') :
    Steady s s' ∧ m s.daemon.store = .ok a s'.daemon.store := by
  obtain ⟨store, made, rfl⟩ := exists_store_of_mutate run
  exact ⟨⟨rfl, rfl, rfl⟩, made⟩

/-- A record that is changed is left in the state that was meant. -/
theorem leftIn_of_mutate {at_ : Float} {edit : Service.Monitor → Service.Monitor} {changed : Bool}
    (run : mutate (Node.Blob.updateInstanceMonitor node p at_ edit) s = .ok changed s') :
    Steady s s' ∧ LeftIn node p (edit (record node p s)).state s'.daemon.store :=
  have ⟨steady, updated⟩ := mutate_eq_ok run
  ⟨steady, Node.Blob.leftIn_of_update updated⟩

variable [World W]

/-- An action that ended leaves the record in the state that its outcome says. -/
theorem complete_left {at_ now : Float} {a : Action} {code : Option Int}
    (run : complete at_ now a code s = .ok () s') :
    Steady s s' ∧ LeftIn s.daemon.nodeName a.path
      (if code = some 0 then a.kind.outcome.success else a.kind.outcome.failure)
      s'.daemon.store := by
  unfold complete at run
  rw [get_bind, get_bind] at run
  obtain ⟨changed, t, written, rest⟩ := bind_eq_ok run
  obtain ⟨steady, left⟩ := leftIn_of_mutate written
  have state : (outcome a (code = some 0) (record s.daemon.nodeName a.path s)).state
      = if code = some 0 then a.kind.outcome.success else a.kind.outcome.failure := by
    unfold outcome
    by_cases success : code = some 0 <;> simp [success]
  rw [state] at left
  -- the rest only reads the status and notes the end
  have quiet : s'.daemon = t.daemon ∧ s'.running = t.running := by
    obtain ⟨_, u, submitted, rest⟩ := bind_eq_ok (σ := Monitor W) rest
    cases submitted
    obtain ⟨_, u', emitted, rest⟩ := bind_eq_ok (σ := Monitor W) rest
    cases emitted
    split at rest <;> cases rest <;> exact ⟨rfl, rfl⟩
  refine ⟨⟨?_, ?_, ?_⟩, ?_⟩
  · rw [quiet.1, steady.name]
  · rw [quiet.1, steady.settings]
  · rw [quiet.2, steady.running]
  · rw [quiet.1]
    exact left

/-! ## One service -/

/-- What a decision about a service comes to. -/
inductive Decided (node : String) (x : Service.Situation) (s : Monitor W) :
    Option Action → Monitor W → Prop
  | idle {s' : Monitor W} (nothing : x.decide.action = none) (steady : Steady s s')
    (left : LeftIn node x.path x.decide.state s'.daemon.store) : Decided node x s none s'
  | launched {s' : Monitor W} {a : Action} {e : Running} (wanted : x.decide.action = some a)
    (action : e.action = a) (name : s'.daemon.nodeName = s.daemon.nodeName)
    (settings : s'.daemon.settings = s.daemon.settings)
    (running : s'.running = Entries.insert s.running a.path e)
    (left : LeftIn node x.path x.decide.state s'.daemon.store) : Decided node x s (some a) s'
  | refused {s' : Monitor W} {a : Action} (wanted : x.decide.action = some a)
    (steady : Steady s s')
    (left : LeftIn node x.path (.failed a.kind) s'.daemon.store) : Decided node x s none s'

variable {at_ now : Float} {v : View} {o : NodeOutcome} {c : Service.Config}

/-- An action that is wanted runs, or its failure is written down. -/
theorem launchWanted_eq_ok {a : Action} {r : Option Action}
    (run : launchWanted at_ now (some a) s = .ok r s') :
    (r = some a ∧ s'.daemon = s.daemon
        ∧ ∃ n, s'.running = Entries.insert s.running a.path ⟨a, n, at_⟩)
      ∨ (r = none ∧ ∃ world, complete at_ now a none { s with world := world } = .ok () s') := by
  obtain ⟨b, t, launched, rest⟩ := bind_eq_ok (σ := Monitor W) run
  unfold launch at launched
  rw [get_bind] at launched
  cases accepted : World.launch a s.world with
  | mk process world =>
    rw [accepted] at launched
    obtain ⟨_, u, moved, launched⟩ := bind_eq_ok (σ := Monitor W) launched
    cases moved
    cases process with
    | some n =>
      cases launched
      cases rest
      exact .inl ⟨rfl, rfl, n, rfl⟩
    | none =>
      obtain ⟨_, u, completed, done⟩ := bind_eq_ok (σ := Monitor W) launched
      cases done
      cases rest
      exact .inr ⟨rfl, world, completed⟩

/-- **What is decided about a service** is written down, and then its action is
launched or written down as failed. -/
theorem orchestrate_decided (name : s.daemon.nodeName = v.localNode)
    (config : v.localData?.bind (fun d => Entries.get? d.configs p) = some c)
    {r : Option Action} (run : orchestrate at_ now v o p s = .ok r s') :
    Decided v.localNode (serviceSituation s v o at_ p c) s r s' := by
  rw [orchestrate_eq config] at run
  obtain ⟨changed, t, written, rest⟩ := bind_eq_ok run
  obtain ⟨steady, left⟩ := leftIn_of_mutate written
  obtain ⟨u, noted, daemon, running⟩ := when_emit_run
    (c := (serviceSituation s v o at_ p c).decide.state
      ≠ (serviceSituation s v o at_ p c).monitor.state) _
    (fun _ => launchWanted at_ now (serviceSituation s v o at_ p c).decide.action) t
  have rest := noted.symm.trans rest
  have steadyU : Steady s u := by
    refine ⟨?_, ?_, running.trans steady.running⟩
    · rw [daemon, steady.name]
    · rw [daemon, steady.settings]
  have leftU : LeftIn v.localNode p (serviceSituation s v o at_ p c).decide.state
      u.daemon.store := by
    rw [daemon]
    exact left
  cases wanted : (serviceSituation s v o at_ p c).decide.action with
  | none =>
    rw [wanted] at rest
    cases rest
    exact .idle wanted steadyU leftU
  | some a =>
    have path : a.path = p := Service.Situation.about_decide a wanted
    rw [wanted] at rest
    rcases launchWanted_eq_ok rest with ⟨rfl, same, n, runs⟩ | ⟨rfl, world, completed⟩
    · refine .launched (e := ⟨a, n, at_⟩) wanted rfl (same ▸ steadyU.name)
        (same ▸ steadyU.settings) ?_ (same ▸ leftU)
      exact runs.trans (congrArg (Entries.insert · a.path _) steadyU.running)
    · obtain ⟨steadyW, failed⟩ := complete_left completed
      refine .refused wanted (steadyU.trans ⟨steadyW.name, steadyW.settings, steadyW.running⟩) ?_
      show LeftIn v.localNode p (.failed a.kind) _
      rw [← name, ← steadyU.name, ← path, ← Service.State.failure_eq_failed]
      exact failed

/-! ## What a service is spared -/

omit [World W] in
/-- A step leaves the entry of a service in the table and the settings alone,
whether it fails or not. -/
def Leaves (p : String) (m : Step W α) : Prop :=
  ∀ s, Entries.get? (Step.after m s).running p = Entries.get? s.running p
    ∧ (Step.after m s).daemon.settings = s.daemon.settings

section

omit [World W]

theorem leaves_pure (a : α) : Leaves p (pure a : Step W α) := fun _ => ⟨rfl, rfl⟩

theorem leaves_bind {m : Step W α} {f : α → Step W β} (hm : Leaves p m)
    (hf : ∀ a, Leaves p (f a)) : Leaves p (m >>= f) := by
  intro s
  rcases Step.after_bind m f s with failed | ⟨a, both⟩
  · rw [failed]
    exact hm s
  · obtain ⟨running, settings⟩ := hf a (Step.after m s)
    rw [both]
    exact ⟨running.trans (hm s).1, settings.trans (hm s).2⟩

/-- A step that reads the monitor, and then acts on what it has read. -/
theorem leaves_get {f : Monitor W → Step W β} (hf : ∀ s, Leaves p (f s)) :
    Leaves p (get >>= f) := fun s => hf s s

theorem leaves_get_bind {f : Monitor W → Step W β}
    (hf : ∀ s, Entries.get? (Step.after (f s) s).running p = Entries.get? s.running p
      ∧ (Step.after (f s) s).daemon.settings = s.daemon.settings) : Leaves p (get >>= f) := hf

theorem leaves_forM {f : α → Step W PUnit} (hf : ∀ a, Leaves p (f a)) (l : List α) :
    Leaves p (l.forM f) := by
  induction l with
  | nil => exact leaves_pure _
  | cons a l ih => exact leaves_bind (hf a) fun _ => ih

theorem leaves_onDaemon {m : Daemon.Step DataError α}
    (h : ∀ d, (Daemon.Step.after m d).settings = d.settings) :
    Leaves p (onDaemon m : Step W α) := by
  intro s
  have settings := h s.daemon
  unfold Daemon.Step.after at settings
  unfold Step.after onDaemon
  cases result : m s.daemon <;> rw [result] at settings <;> exact ⟨rfl, settings⟩

theorem leaves_mutate (m : Mutation α) : Leaves p (mutate m : Step W α) :=
  leaves_onDaemon fun d => by
    unfold Daemon.Step.after Daemon.mutate
    cases m d.store <;> rfl

theorem leaves_emit (e : Event) : Leaves p (emit e : Step W Unit) := fun _ => ⟨rfl, rfl⟩

theorem leaves_when_emit {c : Prop} [Decidable c] (e : Event) {f : PUnit → Step W β}
    (hf : ∀ u, Leaves p (f u)) : Leaves p (if c then emit e >>= f else f ⟨⟩) := by
  split
  · exact leaves_bind (leaves_emit e) hf
  · exact hf _

theorem leaves_dropOrphans (v : View) : Leaves p (dropOrphans v : Step W Unit) :=
  leaves_get fun _ => leaves_forM (fun _ => leaves_mutate _) _

theorem leaves_purgeDownPeers (live : List String) (at_ : Float) :
    Leaves p (purgeDownPeers live at_ : Step W (List String)) := by
  refine leaves_get fun s => leaves_bind (leaves_forM (fun peer => ?_) _) fun _ => leaves_pure _
  refine leaves_onDaemon fun d => ?_
  unfold Daemon.Step.after Daemon.purge
  generalize d.peers.purge d.store peer = purged
  obtain ⟨result, table, store⟩ := purged
  cases result <;> rfl

/-- The rest of a round after the services. -/
theorem leaves_conclude (at_ : Float) (o : Outlook)
    (done : List Action × List (String × DataError)) :
    Leaves p (conclude at_ o done : Step W Report) := by
  refine leaves_bind (leaves_purgeDownPeers o.live at_) fun _ => ?_
  refine leaves_get fun s => leaves_get fun t => leaves_bind (leaves_mutate _) fun _ => ?_
  exact leaves_get fun u => leaves_get fun w => leaves_get_bind fun y => ⟨rfl, rfl⟩

end

theorem leaves_submit (now : Float) (q : String) : Leaves p (submit now q : Step W Unit) :=
  fun _ => ⟨rfl, rfl⟩

theorem leaves_complete (at_ now : Float) (a : Action) (code : Option Int) :
    Leaves p (complete at_ now a code : Step W Unit) := by
  refine leaves_get fun s => leaves_get fun t => leaves_bind (leaves_mutate _) fun _ => ?_
  exact leaves_bind (leaves_submit now a.path) fun _ =>
    leaves_bind (leaves_emit _) fun _ => leaves_when_emit _ fun _ => leaves_pure _

/-- What is launched enters the table under its own service. -/
theorem leaves_launch (at_ now : Float) {a : Action} (ne : a.path ≠ p) :
    Leaves p (launch at_ now a : Step W Bool) := by
  refine leaves_get_bind fun s => ?_
  dsimp only
  cases World.launch a s.world with
  | mk process world =>
    cases process with
    | some n => exact ⟨Entries.get?_insert_of_ne _ _ (Ne.symm ne), rfl⟩
    | none =>
      exact leaves_bind (leaves_complete at_ now a none) (fun _ => leaves_pure false)
        { s with world := world }

/-- A service is orchestrated in its own entry of the table. -/
theorem leaves_orchestrate (at_ now : Float) (v : View) (o : NodeOutcome) {q : String}
    (ne : q ≠ p) : Leaves p (orchestrate at_ now v o q : Step W (Option Action)) := by
  unfold orchestrate
  split
  · exact leaves_pure _
  · refine leaves_get fun s => leaves_bind (leaves_mutate _) fun _ => leaves_when_emit _ fun _ => ?_
    split
    · next a action _ =>
      have path : a.path = q := Service.Situation.about_decide a action
      refine leaves_bind (leaves_launch at_ now (path ▸ ne)) fun b => ?_
      cases b <;> exact leaves_pure _
    · exact leaves_pure _

omit [World W] in
/-- A step beside a service leaves nothing of it changed, whether it fails or
not. -/
theorem beside_after {m : Step W α} (retains : Retains (Since node (Spared node p) s.daemon.store) m)
    (leaves : Leaves p m) (name : s.daemon.nodeName = node) :
    Beside node p s (Step.after m s) :=
  have since := retains s (Daemon.since_refl (frame_spared node p) name)
  ⟨since.name, since.store.data, (leaves s).1⟩

/-! ## The services of a round -/

omit [World W] in
/-- The services that a round has decided about include the one of a situation:
a transient record of it has an action in flight, and what was decided has been
launched or has failed. -/
structure Attended (node : String) (x : Service.Situation) (launched : List Action)
    (s : Monitor W) : Prop where
  busy : (record node x.path s).state.isTransient →
    ∃ e, Entries.get? s.running x.path = some e
  own : ∀ a ∈ launched, a.path = x.path → x.decide.action = some a
    ∧ (∃ e, Entries.get? s.running x.path = some e ∧ e.action = a)
    ∧ ((record node x.path s).state.isTransient →
      (record node x.path s).state.actionKind? = some a.kind)
  tried : ∀ a, x.decide.action = some a → a ∈ launched
    ∨ Entries.get? s.running x.path = none
      ∧ LeftIn node x.path (.failed a.kind) s.daemon.store

section

omit [World W]

variable {x x' : Service.Situation} {launched launched' : List Action} {r : Option Action}

/-- Only what is launched on the service counts. -/
theorem Attended.congr (h : Attended node x launched s)
    (same : ∀ a, a.path = x.path → (a ∈ launched' ↔ a ∈ launched)) :
    Attended node x launched' s where
  busy := h.busy
  own a ha path := h.own a ((same a path).1 ha) path
  tried a wanted :=
    (h.tried a wanted).imp_left (same a (Service.Situation.about_decide a wanted)).2

/-- What happens beside the service changes nothing for it. -/
theorem Attended.beside (h : Attended node x launched s) (beside : Beside node x.path s s') :
    Attended node x launched s' where
  busy := by
    rw [beside.record, beside.running]
    exact h.busy
  own := by
    rw [beside.record, beside.running]
    exact h.own
  tried a wanted := by
    rw [beside.running]
    exact (h.tried a wanted).imp_right (And.imp_right fun left => left.congr beside.data.1)

/-- A record that was left in a state is transient only in that state. -/
theorem transient_left {st : Service.State} (left : LeftIn node p st s.daemon.store)
    (transient : (record node p s).state.isTransient) : (record node p s).state = st := by
  rcases left.state with here | idle
  · exact here
  · rw [show (record node p s).state = .idle from idle] at transient
    cases transient

/-- **A service that was decided about** is attended to. -/
theorem Decided.attended (h : Decided node x s r s')
    (inFlight : x.inFlight = (Entries.get? s.running x.path).map (fun e => e.action.kind)) :
    Attended node x r.toList s' := by
  have free (idle : x.inFlight = none) : Entries.get? s.running x.path = none := by
    rw [idle] at inFlight
    exact Option.map_eq_none_iff.1 inFlight.symm
  cases h with
  | idle nothing steady left =>
    refine ⟨fun transient => ?_, fun a ha => (by cases ha), fun a wanted => ?_⟩
    · rw [transient_left left transient] at transient
      rw [steady.running]
      -- without an action in flight the decision would launch one
      by_contra absent
      have idle : x.inFlight = none := by
        rw [inFlight, Option.map_eq_none_iff, Option.eq_none_iff_forall_ne_some]
        exact fun e he => absent ⟨e, he⟩
      have quiet := Service.Situation.backed_decide idle
      rw [Service.Decision.Backed, nothing] at quiet
      rw [Service.State.actionKind?_eq_none.1 quiet] at transient
      cases transient
    · rw [nothing] at wanted
      cases wanted
  | @launched _ a e wanted action _ _ running left =>
    have path : a.path = x.path := Service.Situation.about_decide a wanted
    have there : Entries.get? s'.running x.path = some e := by
      rw [running, path, Entries.get?_insert_self]
    refine ⟨fun _ => ⟨e, there⟩, fun b hb _ => ?_, fun b hb => ?_⟩
    · obtain rfl := List.mem_singleton.1 hb
      refine ⟨wanted, ⟨e, there, action⟩, fun transient => ?_⟩
      have backed := Service.Situation.backed_decide (Service.Situation.inFlight_of_action wanted)
      rw [transient_left left transient, backed, wanted]
      rfl
    · obtain rfl := Option.some.inj (wanted.symm.trans hb)
      exact .inl (List.mem_singleton_self a)
  | @refused _ a wanted steady left =>
    have idle := Service.Situation.inFlight_of_action wanted
    refine ⟨fun transient => ?_, fun b hb => (by cases hb), fun b hb => .inr ⟨?_, ?_⟩⟩
    · rw [transient_left left transient, Service.State.isTransient_failed] at transient
      cases transient
    · rw [steady.running, free idle]
    · rw [wanted] at hb
      cases hb
      exact left

/-- A service that is decided about once more, on the same picture. -/
theorem Attended.again (h : Attended node x launched s) (decided : Decided node x' s r s')
    (path : x'.path = x.path) (monitor : x'.monitor = x.monitor)
    (inFlight : x'.inFlight = (Entries.get? s.running x.path).map (fun e => e.action.kind))
    (same : Entries.get? s.running x.path = none → x' = x) :
    Attended node x (launched ++ r.toList) s' := by
  cases there : Entries.get? s.running x.path with
  | none =>
    obtain rfl := same there
    refine (decided.attended inFlight).congr fun a ha => ?_
    rw [List.mem_append, or_iff_right]
    intro earlier
    obtain ⟨-, ⟨e, he, -⟩, -⟩ := h.own a earlier ha
    cases there.symm.trans he
  | some e =>
    rw [there] at inFlight
    obtain ⟨nothing, state⟩ := Service.Situation.decide_of_inFlight inFlight
    cases decided with
    | idle _ steady left =>
      rw [path, state, monitor] at left
      rw [Option.toList_none, List.append_nil]
      refine ⟨fun _ => ⟨e, by rw [steady.running, there]⟩, fun a ha hpath => ?_, fun a wanted => ?_⟩
      · obtain ⟨wanted, running, -⟩ := h.own a ha hpath
        refine ⟨wanted, by rwa [steady.running], fun transient => ?_⟩
        -- the record that an action was decided on is not transient
        rw [transient_left left transient, Service.Situation.settled_of_action wanted] at transient
        cases transient
      · rcases h.tried a wanted with mine | ⟨absent, -⟩
        · exact .inl mine
        · cases there.symm.trans absent
    | launched wanted => cases nothing.symm.trans wanted
    | refused wanted => cases nothing.symm.trans wanted

end

/-- The services are decided about one after the other. -/
theorem orchestrateAll_cons_eq_ok {q : String} {qs : List String} {launched : List Action}
    {failed : List (String × DataError)}
    (run : orchestrateAll at_ now v o (q :: qs) s = .ok (launched, failed) s') :
    (∃ r t rest, orchestrate at_ now v o q s = .ok r t
        ∧ orchestrateAll at_ now v o qs t = .ok (rest, failed) s' ∧ launched = r.toList ++ rest)
      ∨ ∃ e t rest, orchestrate at_ now v o q s = .error e t
        ∧ orchestrateAll at_ now v o qs t = .ok (launched, rest) s' ∧ failed = (q, e) :: rest := by
  unfold orchestrateAll at run
  obtain ⟨result, t, tried, run⟩ := bind_eq_ok run
  obtain ⟨⟨l, f⟩, u, others, run⟩ := bind_eq_ok run
  unfold attempt at tried
  cases first : orchestrate at_ now v o q s with
  | ok r t' =>
    rw [first] at tried
    cases tried
    left
    cases r <;> cases run <;> exact ⟨_, _, _, rfl, others, rfl⟩
  | error e t' =>
    rw [first] at tried
    cases tried
    right
    cases run
    exact ⟨_, _, _, rfl, others, rfl⟩

/-- What is launched when a service is orchestrated is on the service. -/
theorem path_of_orchestrate (name : s.daemon.nodeName = v.localNode) {q : String}
    {r : Option Action} (run : orchestrate at_ now v o q s = .ok r s') :
    ∀ a ∈ r.toList, a.path = q := by
  cases config : v.localData?.bind (fun d => Entries.get? d.configs q) with
  | none =>
    cases (orchestrate_unconfigured config).symm.trans run
    exact nofun
  | some c =>
    cases orchestrate_decided name config run with
    | idle => exact nofun
    | refused => exact nofun
    | launched wanted =>
      intro b hb
      rw [List.mem_singleton.1 hb]
      exact Service.Situation.about_decide _ wanted

omit [World W] in
/-- Since the services came, the settings were kept, and no entry of a service
left the table. -/
structure Onward (node p : String) (s₀ s : Monitor W) : Prop where
  name : s.daemon.nodeName = node
  settings : s.daemon.settings = s₀.daemon.settings
  kept : Entries.get? s.running p = none → Entries.get? s₀.running p = none

variable {s₀ : Monitor W}

omit [World W] in
/-- As long as nothing is in flight on the service it is decided about alike. -/
theorem Onward.situation (h : Onward node p s₀ s) (idle : Entries.get? s.running p = none) :
    serviceSituation s v o at_ p c = serviceSituation s₀ v o at_ p c :=
  serviceSituation_congr (idle.trans (h.kept idle).symm) h.settings c

theorem Onward.orchestrate (h : Onward v.localNode p s₀ s)
    (config : v.localData?.bind (fun d => Entries.get? d.configs p) = some c) {r : Option Action}
    (run : orchestrate at_ now v o p s = .ok r s') : Onward v.localNode p s₀ s' := by
  cases orchestrate_decided h.name config run with
  | idle _ steady | refused _ steady =>
    exact ⟨steady.name.trans h.name, steady.settings.trans h.settings,
      fun idle => h.kept (steady.running ▸ idle)⟩
  | launched wanted _ name settings running =>
    refine ⟨name.trans h.name, settings.trans h.settings, fun idle => ?_⟩
    rw [running, Service.Situation.about_decide _ wanted] at idle
    cases (Entries.get?_insert_self _ _ _).symm.trans idle

/-- Other services are orchestrated beside the service. -/
theorem beside_orchestrate (at_ now : Float) (o : NodeOutcome)
    (name : s.daemon.nodeName = v.localNode) {q : String} (ne : q ≠ p) :
    Beside v.localNode p s (Step.after (orchestrate at_ now v o q) s) :=
  beside_after (retains_orchestrate (frame_spared v.localNode p) at_ now rfl o ne)
    (leaves_orchestrate at_ now v o ne) name

theorem Onward.beside (at_ now : Float) (o : NodeOutcome) {q : String}
    (h : Onward v.localNode p s₀ s) (ne : q ≠ p) :
    Onward v.localNode p s₀ (Step.after (Monitor.orchestrate at_ now v o q) s) := by
  have beside := beside_orchestrate at_ now o h.name ne
  refine ⟨beside.name, ?_, fun idle => h.kept (beside.running ▸ idle)⟩
  exact (leaves_orchestrate at_ now v o ne s).2.trans h.settings

omit [World W] in
/-- What is known of a service before some of the services are decided about:
it was attended to, or nothing happened to it and it is among them. -/
def Awaits (node : String) (x : Service.Situation) (services : List String) (s₀ : Monitor W)
    (launched : List Action) (s : Monitor W) : Prop :=
  Attended node x launched s
    ∨ x.path ∈ services ∧ Entries.get? s.running x.path = Entries.get? s₀.running x.path
      ∧ ∀ a ∈ launched, a.path ≠ x.path

/-- The service itself is decided about. -/
theorem Awaits.here {services : List String} {launched : List Action} {r : Option Action}
    (h : Awaits v.localNode (serviceSituation s₀ v o at_ p c) services s₀ launched s)
    (onward : Onward v.localNode p s₀ s)
    (config : v.localData?.bind (fun d => Entries.get? d.configs p) = some c)
    (run : orchestrate at_ now v o p s = .ok r s') :
    Attended v.localNode (serviceSituation s₀ v o at_ p c) (launched ++ r.toList) s' := by
  have decided := orchestrate_decided onward.name config run
  rcases h with attended | ⟨-, untouched, others⟩
  · exact attended.again decided rfl rfl rfl onward.situation
  · have same : serviceSituation s v o at_ p c = serviceSituation s₀ v o at_ p c :=
      serviceSituation_congr untouched onward.settings c
    rw [same] at decided
    refine (decided.attended (untouched ▸ rfl)).congr fun a ha => ?_
    rw [List.mem_append, or_iff_right fun earlier => others a earlier ha]

omit [World W] in
/-- Another service is decided about. -/
theorem Awaits.beside {x : Service.Situation} {q : String} {services : List String}
    {launched more : List Action} (h : Awaits node x (q :: services) s₀ launched s)
    (beside : Beside node x.path s s') (ne : q ≠ x.path) (other : ∀ a ∈ more, a.path = q) :
    Awaits node x services s₀ (launched ++ more) s' := by
  rcases h with attended | ⟨mem, untouched, others⟩
  · refine .inl ((attended.beside beside).congr fun a ha => ?_)
    rw [List.mem_append, or_iff_left]
    exact fun later => ne ((other a later).symm.trans ha)
  · refine .inr ⟨(List.mem_cons.1 mem).resolve_left (Ne.symm ne),
      beside.running.trans untouched, fun a ha => ?_⟩
    rcases List.mem_append.1 ha with earlier | later
    · exact others a earlier
    · rw [other a later]
      exact ne

/-- **Every service that is decided about without an error is attended to**,
however often it is listed. -/
theorem orchestrateAll_attended
    (config : v.localData?.bind (fun d => Entries.get? d.configs p) = some c)
    {services : List String} {prior launched : List Action} {failed : List (String × DataError)}
    (run : orchestrateAll at_ now v o services s = .ok (launched, failed) s')
    (onward : Onward v.localNode p s₀ s) (evaluated : ∀ e, (p, e) ∉ failed)
    (awaits : Awaits v.localNode (serviceSituation s₀ v o at_ p c) services s₀ prior s) :
    s'.daemon.nodeName = v.localNode
      ∧ Attended v.localNode (serviceSituation s₀ v o at_ p c) (prior ++ launched) s' := by
  induction services generalizing s prior launched failed with
  | nil =>
    cases run
    rcases awaits with attended | ⟨none, -⟩
    · rw [List.append_nil]
      exact ⟨onward.name, attended⟩
    · cases none
  | cons q services ih =>
    rcases orchestrateAll_cons_eq_ok run with
      ⟨r, t, rest, first, others, rfl⟩ | ⟨e, t, rest, first, others, rfl⟩
    · rw [← List.append_assoc]
      by_cases same : q = p
      · subst same
        exact ih others (onward.orchestrate config first) evaluated
          (.inl (awaits.here onward config first))
      · have after : Step.after (orchestrate at_ now v o q) s = t := Step.after_of_ok first
        have beside := beside_orchestrate at_ now o onward.name same
        have onwardT := onward.beside at_ now o same
        rw [after] at beside onwardT
        exact ih others onwardT evaluated
          (awaits.beside beside same (path_of_orchestrate onward.name first))
    · have other : q ≠ p := by
        rintro rfl
        exact evaluated e List.mem_cons_self
      have after : Step.after (orchestrate at_ now v o q) s = t := by
        unfold Step.after
        rw [first]
      have beside := beside_orchestrate at_ now o onward.name other
      have onwardT := onward.beside at_ now o other
      rw [after] at beside onwardT
      have left : Awaits v.localNode (serviceSituation s₀ v o at_ p c) services s₀ prior t := by
        rw [← prior.append_nil]
        exact awaits.beside beside other nofun
      exact ih others onwardT (fun e he => evaluated e (List.mem_cons_of_mem _ he)) left

/-! ## A round -/

/-- The services of a round are attended to, and what is dropped after them is
not configured. -/
theorem attend_attended {o : Outlook} {launched : List Action} {failed : List (String × DataError)}
    (touches : o.node.hold = false) (mem : p ∈ (o.view at_ s).localServices)
    (config : (o.view at_ s).localData?.bind (fun d => Entries.get? d.configs p) = some c)
    (run : attend at_ now o s = .ok (launched, failed) s') (evaluated : ∀ e, (p, e) ∉ failed) :
    s'.daemon.nodeName = s.daemon.nodeName
      ∧ Attended s.daemon.nodeName (serviceSituation s (o.view at_ s) o.node at_ p c) launched
        s' := by
  unfold attend at run
  rw [touches, if_neg Bool.false_ne_true, get_bind] at run
  obtain ⟨⟨l, f⟩, t, all, run⟩ := bind_eq_ok run
  obtain ⟨_, u, dropped, run⟩ := bind_eq_ok (σ := Monitor W) run
  cases run
  have onward : Onward (o.view at_ s).localNode p s s := ⟨rfl, rfl, id⟩
  have awaits : Awaits (o.view at_ s).localNode (serviceSituation s (o.view at_ s) o.node at_ p c)
      (o.view at_ s).localServices s [] s := .inr ⟨mem, rfl, nofun⟩
  obtain ⟨name, attended⟩ := orchestrateAll_attended config all onward evaluated awaits
  have configured (w : Monitor W) (q : String) (hq : q ∈ orphans w (o.view at_ s)) : q ≠ p := by
    rintro rfl
    have gone := (List.mem_filter.1 hq).2
    rw [List.contains_iff_mem.2 mem] at gone
    cases gone
  have beside := beside_after (retains_dropOrphans
    (frame_spared (o.view at_ s).localNode p) rfl configured) (leaves_dropOrphans _) name
  rw [Step.after_of_ok dropped] at beside
  exact ⟨beside.name, attended.beside beside⟩

/-- **No transient state without an action.** Whatever monitor a round finds, if
it succeeds and decides about a service without an error, a transient record of
the service has an action in flight after it. An action that the round launched
on the service is the one in flight, and the one that a transient record is
about; and an action that was decided on and not launched has left the failed state
of its kind in the record. -/
theorem transient_inFlight {t : Turn W} {r : Report} (succeeds : t.report? = some r)
    {x : Service.Situation} (decided : t.situation? p = some x)
    (evaluated : ∀ e, (p, e) ∉ r.failed) :
    let m := record t.after.daemon.nodeName p t.after
    (m.state.isTransient → ∃ e, Entries.get? t.after.running p = some e)
      ∧ (∀ a ∈ r.launched, a.path = p →
        (∃ e, Entries.get? t.after.running p = some e ∧ e.action = a)
          ∧ (m.state.isTransient → m.state.actionKind? = some a.kind))
      ∧ ∀ a, x.decide.action = some a → a ∈ r.launched
        ∨ Entries.get? t.after.running p = none
          ∧ LeftIn t.after.daemon.nodeName p (.failed a.kind) t.after.daemon.store := by
  unfold Turn.report? at succeeds
  unfold Turn.after
  cases run : round t.host t.now t.at_ t.before with
  | error e s' =>
    rw [run] at succeeds
    cases succeeds
  | ok r' s' =>
    rw [run] at succeeds
    cases succeeds
    rw [round_eq] at run
    obtain ⟨o, u, prepared, run⟩ := bind_eq_ok run
    obtain ⟨⟨launched, failed⟩, w, attends, concluded⟩ := bind_eq_ok run
    obtain ⟨_, _, -, -, reported⟩ := conclude_eq_ok concluded
    obtain rfl : r.launched = launched := by rw [reported]
    obtain rfl : r.failed = failed := by rw [reported]
    rw [Turn.situation?_eq prepared] at decided
    split at decided
    · next local_ =>
      obtain ⟨c, config, rfl⟩ := Option.map_eq_some_iff.1 decided
      obtain ⟨touches, mem⟩ : o.node.hold = false ∧ p ∈ (o.view t.at_ u).localServices := by
        unfold Outlook.services at local_
        split at local_
        · cases local_
        · next touches => exact ⟨by simpa using touches, local_⟩
      obtain ⟨name, attended⟩ := attend_attended touches mem config attends evaluated
      have beside := beside_after
        (retains_conclude (frame_spared u.daemon.nodeName p) (fun _ ne => ne) t.at_ o
          (r.launched, r.failed)) (leaves_conclude t.at_ o _) name
      rw [Step.after_of_ok concluded] at beside
      have final : Attended u.daemon.nodeName _ r.launched s' := attended.beside beside
      rw [show s'.daemon.nodeName = u.daemon.nodeName from beside.name]
      exact ⟨final.busy, fun a ha path => (final.own a ha path).2, final.tried⟩
    · cases decided

/-- The round in which the service of the script has been ready for long enough. -/
def Script.launching : Turn Simulation.World :=
  ⟨⟨"n1", 0⟩, Moment.ofMillis 8000, (Moment.ofMillis 8000).wall, (turns [0, 1000, 2000]).2⟩

open Script in
theorem transient_inFlight_launching :
    ∃ r x, launching.report? = some r ∧ launching.situation? "svc" = some x
      ∧ (record "n1" "svc" launching.after).state = .starting
      ∧ r.launched = [.whole "svc" .start]
      ∧ ∃ e, Entries.get? launching.after.running "svc" = some e
        ∧ e.action = .whole "svc" .start := by
  have reported : launching.report?.any (fun r => r.failed.isEmpty
      ∧ r.launched = [.whole "svc" .start]) := by decide +kernel
  have configured : (launching.situation? "svc").isSome := by decide +kernel
  obtain ⟨r, succeeds, good⟩ := (Option.any_eq_true _ _).1 reported
  obtain ⟨none, launched⟩ := of_decide_eq_true good
  obtain ⟨x, decided⟩ := Option.isSome_iff_exists.1 configured
  have evaluated : ∀ e, ("svc", e) ∉ r.failed := by
    rw [List.isEmpty_iff.1 none]
    exact fun _ => List.not_mem_nil
  obtain ⟨-, own, -⟩ := transient_inFlight succeeds decided evaluated
  obtain ⟨there, -⟩ := own (.whole "svc" .start) (launched ▸ List.mem_singleton_self _) rfl
  exact ⟨r, x, succeeds, decided, by decide +kernel, launched, there⟩

end HaCluster.Monitor
