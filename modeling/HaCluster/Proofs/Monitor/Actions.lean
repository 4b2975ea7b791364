import HaCluster.Proofs.Monitor.Stages
import HaCluster.Proofs.Service.Rulings

/-!
# Launching and ending actions

The table of running actions changes in two stages of a round. When actions are
reaped, those that have ended leave it, and exactly they are reported. When the
services are orchestrated, a service of which an action is wanted has none in
the table; the action enters it if it can be launched. So of each service what
was in flight and is launched is what is completed and is in flight
(`reap_ok`, `orchestrateAll_ok`).
-/

namespace HaCluster.Monitor

open Value Mutation

variable {W : Type} {R : String → Entries Value → Prop} {node p : String}
  {s s' : Monitor W}

/-! ## The table -/

/-- The actions in flight. -/
def inFlight (s : Monitor W) : List Action := s.running.map (fun e => e.2.action)

/-- Those of some actions that are on one service. -/
def on (p : String) (l : List Action) : List Action := l.filter (fun a => a.path = p)

@[simp]
theorem on_nil (p : String) : on p [] = [] := rfl

theorem mem_on {a : Action} {l : List Action} : a ∈ on p l ↔ a ∈ l ∧ a.path = p := by
  unfold on
  rw [List.mem_filter, decide_eq_true_eq]

theorem on_append (p : String) (l l' : List Action) : on p (l ++ l') = on p l ++ on p l' :=
  List.filter_append l l'

theorem on_cons_self (a : Action) (l : List Action) : on a.path (a :: l) = a :: on a.path l :=
  List.filter_cons_of_pos (by simp)

theorem on_cons_of_ne {a : Action} (ne : a.path ≠ p) (l : List Action) :
    on p (a :: l) = on p l :=
  List.filter_cons_of_neg (by simpa using ne)

/-- In the table an action is found under its service. -/
theorem Sound.on_inFlight (h : Sound R node s) (p : String) :
    on p s.inFlight = ((Entries.get? s.running p).map Running.action).toList := by
  obtain ⟨-, sorted, keyed⟩ := h
  unfold inFlight
  generalize s.running = m at sorted keyed
  induction m with
  | nil => rfl
  | cons e m ih =>
    obtain ⟨k, r⟩ := e
    obtain ⟨lt, sorted⟩ := Entries.sorted_cons.1 sorted
    have path : r.action.path = k := keyed (k, r) List.mem_cons_self
    have rest := ih sorted (fun e he => keyed e (List.mem_cons_of_mem _ he))
    rw [List.map_cons, Entries.get?_cons]
    by_cases same : k = p
    · -- the keys are sorted, so the service is not listed a second time
      have gone : Entries.get? m p = none :=
        Entries.get?_eq_none_iff.2 fun e he => (String.ne_of_lt (same ▸ lt e he)).symm
      rw [gone] at rest
      subst same
      rw [if_pos rfl, ← path, on_cons_self, path, rest]
      rfl
    · rw [if_neg same, on_cons_of_ne (path ▸ same), rest]

theorem Sound.erase (h : Sound R node s) (p : String) :
    Sound R node { s with running := Entries.erase s.running p } where
  daemon := h.daemon
  sorted := h.sorted.erase p
  keyed e he := h.keyed e (Entries.mem_of_mem_erase he)

theorem Sound.insert {t : Monitor W} (h : Sound R node s) (daemon : Daemon.Sound R node t.daemon)
    (r : Running) (running : t.running = Entries.insert s.running r.action.path r) :
    Sound R node t where
  daemon := daemon
  sorted := running ▸ h.sorted.insert r.action.path r
  keyed e he := by
    rw [running] at he
    rcases Entries.mem_of_mem_insert he with rfl | he
    · rfl
    · exact h.keyed e he

/-! ## What is wanted of a service -/

variable {at_ now : Float} {v : View} {o : NodeOutcome} {services : List String}

/-- What the decision about a local service looks at, if it is configured. -/
def situation? (at_ : Float) (v : View) (o : NodeOutcome) (s : Monitor W) (p : String) :
    Option Service.Situation :=
  (v.localData?.bind (fun d => Entries.get? d.configs p)).map (serviceSituation s v o at_ p)

/-- The action that is wanted of a local service. -/
def wanted (at_ : Float) (v : View) (o : NodeOutcome) (s : Monitor W) (p : String) :
    Option Action :=
  (situation? at_ v o s p).bind (fun x => x.decide.action)

/-- What becomes of the action that is wanted of a service. -/
inductive Handled (s : Monitor W) : Option Action → Option Action → Monitor W → Prop
  | idle {s' : Monitor W} (running : s'.running = s.running) (events : Refused [] s s') :
    Handled s none none s'
  | accepted {s' : Monitor W} {a : Action} {r : Running} (action : r.action = a)
    (free : Entries.get? s.running a.path = none)
    (running : s'.running = Entries.insert s.running a.path r) (events : Refused [] s s') :
    Handled s (some a) (some a) s'
  | refused {s' : Monitor W} {a : Action} (running : s'.running = s.running)
    (events : Refused [a] s s') : Handled s (some a) none s'

/-- Of each service, what was in flight and was launched is in flight. -/
theorem Handled.accounts {w r : Option Action} (handled : Handled s w r s') (h : Sound R node s)
    (h' : Sound R node s') (p : String) :
    on p s.inFlight ++ on p r.toList = on p s'.inFlight := by
  rw [h.on_inFlight, h'.on_inFlight]
  cases handled with
  | idle running => rw [running, Option.toList_none, on_nil, List.append_nil]
  | refused running => rw [running, Option.toList_none, on_nil, List.append_nil]
  | @accepted _ a r action free running =>
    rw [running, Entries.get?_insert]
    by_cases same : p = a.path
    · subst same
      rw [if_pos rfl, free, Option.toList_some, on_cons_self, Option.map_some, action]
      rfl
    · rw [if_neg same, Option.toList_some, on_cons_of_ne (Ne.symm same), on_nil, List.append_nil]

/-- What is wanted is launched or refused. -/
theorem Handled.outcome {w r : Option Action} (handled : Handled s w r s') :
    ∃ refused, Refused refused s s' ∧ (∀ a, a ∈ r.toList ∨ a ∈ refused ↔ w = some a)
      ∧ ∀ a ∈ r.toList, a ∉ refused := by
  cases handled with
  | idle _ events => exact ⟨[], events, by simp, by simp⟩
  | accepted _ _ _ events => exact ⟨[], events, by simp [eq_comm], by simp⟩
  | refused _ events => exact ⟨_, events, by simp [eq_comm], by simp⟩

/-- The other services have their entries of the table as before. -/
theorem Handled.frame {w r : Option Action} (handled : Handled s w r s')
    (path : ∀ a, w = some a → a.path = p) {q : String} (ne : q ≠ p) :
    Entries.get? s'.running q = Entries.get? s.running q := by
  cases handled with
  | idle running => rw [running]
  | refused running => rw [running]
  | accepted _ _ running =>
    rw [running, Entries.get?_insert, if_neg]
    exact path _ rfl ▸ ne

/-- An action that is wanted of a service is on the service, and no other one
is in flight there. -/
theorem wanted_spec {a : Action} (h : wanted at_ v o s p = some a) :
    a.path = p ∧ Entries.get? s.running p = none := by
  obtain ⟨x, hx, ha⟩ := Option.bind_eq_some_iff.1 h
  obtain ⟨config, -, rfl⟩ := Option.map_eq_some_iff.1 hx
  exact ⟨Service.Situation.about_decide a ha,
    Option.map_eq_none_iff.1 (Service.Situation.inFlight_of_action ha)⟩

/-- What is wanted of a service depends on its own entry of the table. -/
theorem wanted_congr (running : Entries.get? s'.running p = Entries.get? s.running p)
    (settings : s'.daemon.settings = s.daemon.settings) :
    wanted at_ v o s' p = wanted at_ v o s p := by
  unfold wanted situation? serviceSituation
  rw [running, settings]

/-- What orchestrating services one after the other comes to. Each action that
is wanted of one of them is launched or refused. -/
structure Orchestrated (at_ : Float) (v : View) (o : NodeOutcome) (services : List String)
    (s : Monitor W) (launched : List Action) (s' : Monitor W) : Prop where
  settings : s'.daemon.settings = s.daemon.settings
  accounts (p : String) : on p s.inFlight ++ on p launched = on p s'.inFlight
  outcome : services.Nodup → ∃ refused, Refused refused s s'
    ∧ (∀ a, a ∈ launched ∨ a ∈ refused
      ↔ a.path ∈ services ∧ wanted at_ v o s a.path = some a)
    ∧ ∀ a ∈ launched, a ∉ refused

theorem Orchestrated.calm {t : Monitor W} {launched : List Action}
    (h : Orchestrated at_ v o services s launched t) (calm : Calm t s') :
    Orchestrated at_ v o services s launched s' where
  settings := calm.settings.trans h.settings
  accounts p := by
    rw [h.accounts, inFlight, inFlight, calm.running]
  outcome nodup := by
    obtain ⟨refused, events, spec⟩ := h.outcome nodup
    exact ⟨refused, List.append_nil refused ▸ events.append calm.events, spec⟩

variable [World W]

/-! ## Actions that ended -/

/-- The end of an action is always written down. -/
theorem complete_ok (rule : Node.Blob.Rule R) (h : Sound R node s) (at_ now : Float) (a : Action)
    (code : Option Int) :
    ∃ s', complete at_ now a code s = .ok () s' ∧ Sound R node s' ∧ s'.running = s.running
      ∧ s'.daemon.settings = s.daemon.settings
      ∧ Refused (if code = none then [a] else []) s s' := by
  obtain ⟨x, t, ht, soundT, calmT⟩ := quiet_mutate
    (Node.Blob.keeps_updateInstanceMonitor (p := a.path) rule at_ (outcome a (code = some 0))) s h
  obtain ⟨y, u, hu, soundU, calmU⟩ := quiet_submit now a.path t soundT
  let v : Monitor W := { u with events := u.events ++ [.done a code] }
  have soundV : Sound R node v := soundU.congr soundU.daemon rfl
  have done : Refused (if code = none then [a] else []) u v := by
    refine ⟨[.done a code], rfl, fun b => ?_⟩
    split
    · rename_i refused
      rw [refused]
      simp
    · rename_i ended
      simp [Ne.symm ended]
  let before := Node.Blob.instanceMonitor s.daemon.store s.daemon.nodeName a.path
  let after := outcome a (code = some 0) before
  obtain ⟨w, noted, soundW, calmW⟩ := when_emit (c := before.state ≠ after.state)
    (e := .service a.path before.state after.state (endReason a code)) nofun (fun _ => pure ())
    soundV
  refine ⟨w, ?_, soundW, ?_, ?_, ?_⟩
  · unfold complete
    rw [← h.daemon.name] at ht
    exact (bind_ok ht).trans ((bind_ok hu).trans noted)
  · exact calmW.running.trans (calmU.running.trans calmT.running)
  · exact calmW.settings.trans (calmU.settings.trans calmT.settings)
  · simpa using ((calmT.events.append calmU.events).append done).append calmW.events

/-- An action that ended is taken out of the table and completed, and then the
others are. -/
theorem completeAll_cons {at_ now : Float} {service : String} {code : Int} {r : Running}
    {ended : List (String × Int)} {done : List (Action × Int)} {t : Monitor W}
    (there : Entries.get? s.running service = some r)
    (first : complete at_ now r.action (some code)
      { s with running := Entries.erase s.running service } = .ok () t)
    (rest : completeAll at_ now ended t = .ok done s') :
    completeAll at_ now ((service, code) :: ended) s = .ok ((r.action, code) :: done) s' := by
  unfold completeAll
  rw [get_bind, there]
  exact (bind_ok first).trans (bind_ok rest)

/-- Of each service, the actions that ended leave the table. -/
theorem completeAll_ok (rule : Node.Blob.Rule R) (h : Sound R node s) (at_ now : Float)
    (ended : List (String × Int)) :
    ∃ done s', completeAll at_ now ended s = .ok done s' ∧ Sound R node s' ∧ Refused [] s s'
      ∧ ∀ p, on p s.inFlight = on p (done.map Prod.fst) ++ on p s'.inFlight := by
  induction ended generalizing s with
  | nil => exact ⟨[], s, rfl, h, refused_refl s, fun _ => rfl⟩
  | cons e ended ih =>
    obtain ⟨service, code⟩ := e
    cases there : Entries.get? s.running service with
    | none =>
      obtain ⟨done, s', run, spec⟩ := ih h
      refine ⟨done, s', ?_, spec⟩
      unfold completeAll
      rw [get_bind, there]
      exact run
    | some r =>
      have path : r.action.path = service := h.keyed _ (Entries.mem_of_get? there)
      let t : Monitor W := { s with running := Entries.erase s.running service }
      have soundT : Sound R node t := h.erase service
      obtain ⟨u, completed, soundU, running, -, refused⟩ :=
        complete_ok rule soundT at_ now r.action (some code)
      obtain ⟨done, s', run, sound, refused', accounts⟩ := ih soundU
      refine ⟨(r.action, code) :: done, s', completeAll_cons there completed run, sound, ?_,
        fun p => ?_⟩
      · exact (show Refused [] s u from refused).append refused'
      · have rest := accounts p
        rw [soundU.on_inFlight, running, Entries.get?_erase] at rest
        rw [h.on_inFlight, List.map_cons]
        by_cases same : p = service
        · subst same
          rw [if_pos rfl] at rest
          rw [there, ← path, on_cons_self, path, List.cons_append, ← rest]
          rfl
        · rw [if_neg same] at rest
          rw [on_cons_of_ne (path ▸ Ne.symm same), rest]

/-- **Reaping.** What was in flight has been completed or is in flight. -/
theorem reap_ok (rule : Node.Blob.Rule R) (h : Sound R node s) (at_ now : Float) :
    ∃ done s', reap at_ now s = .ok done s' ∧ Sound R node s' ∧ Refused [] s s'
      ∧ ∀ p, on p s.inFlight = on p (done.map Prod.fst) ++ on p s'.inFlight :=
  completeAll_ok (s := { s with world := (pollAll s.running s.world).2 }) rule
    (h.congr h.daemon rfl) at_ now (pollAll s.running s.world).1

/-! ## Actions that are launched -/

/-- What a launch comes to: the action is in the table, or it could not be
launched. -/
inductive Launched (s : Monitor W) (a : Action) : Bool → Monitor W → Prop
  | accepted {s' : Monitor W} {r : Running} (action : r.action = a)
    (running : s'.running = Entries.insert s.running a.path r) (events : Refused [] s s') :
    Launched s a true s'
  | refused {s' : Monitor W} (running : s'.running = s.running) (events : Refused [a] s s') :
    Launched s a false s'

theorem launch_ok (rule : Node.Blob.Rule R) (h : Sound R node s) (at_ now : Float) (a : Action) :
    ∃ b s', launch at_ now a s = .ok b s' ∧ Sound R node s'
      ∧ s'.daemon.settings = s.daemon.settings ∧ Launched s a b s' := by
  unfold launch
  cases launched : World.launch a s.world with
  | mk process world =>
    cases process with
    | some n =>
      let r : Running := ⟨a, n, at_⟩
      let t : Monitor W := { s with
        world := world
        events := s.events ++ [.launched a]
        running := Entries.insert s.running a.path r }
      have events : Refused [] s t :=
        ⟨[.launched a], rfl, fun b => ⟨fun hb => (by cases List.mem_singleton.1 hb), nofun⟩⟩
      refine ⟨true, t, ?_, h.insert h.daemon r rfl, rfl, .accepted rfl rfl events⟩
      rw [get_bind, launched]
      rfl
    | none =>
      obtain ⟨s', done, sound, running, settings, events⟩ :=
        complete_ok (s := { s with world := world }) rule (h.congr h.daemon rfl) at_ now a none
      refine ⟨false, s', ?_, sound, settings, .refused running events⟩
      rw [get_bind, launched]
      exact bind_ok done

/-! ## Orchestration -/

/-- An action that is wanted is launched. -/
def launchWanted (at_ now : Float) (w : Option Action) : Step W (Option Action) :=
  w.elim (pure none) (fun a => do if ← launch at_ now a then pure (some a) else pure none)

omit [World W] in
/-- Of a monitor, a decision looks at the settings and at what is in flight on the
service. -/
theorem serviceSituation_congr (running : Entries.get? s'.running p = Entries.get? s.running p)
    (settings : s'.daemon.settings = s.daemon.settings) (c : Service.Config) :
    serviceSituation s' v o at_ p c = serviceSituation s v o at_ p c := by
  unfold serviceSituation
  rw [running, settings]

/-- A service that is not configured is left alone. -/
theorem orchestrate_unconfigured
    (config : v.localData?.bind (fun d => Entries.get? d.configs p) = none) :
    orchestrate at_ now v o p s = .ok none s := by
  unfold orchestrate
  rw [config]
  rfl

/-- A service that is configured is decided about, and then what is wanted of it
is launched. -/
theorem orchestrate_eq {c : Service.Config}
    (config : v.localData?.bind (fun d => Entries.get? d.configs p) = some c) :
    orchestrate at_ now v o p s =
      (do
        let x := serviceSituation s v o at_ p c
        let _ ← mutate (Node.Blob.updateInstanceMonitor v.localNode p at_
          (applyDecision x.decide))
        if x.decide.state ≠ x.monitor.state then
          emit (.service p x.monitor.state x.decide.state x.decide.reason)
        launchWanted at_ now x.decide.action) s := by
  unfold orchestrate launchWanted
  rw [config]
  dsimp only
  rw [get_bind]
  cases action : (serviceSituation s v o at_ p c).decide.action with
  | none => rfl
  | some a =>
    rw [Service.Situation.inFlight_of_action action]
    rfl

/-- **A service is orchestrated**: its record is written, and the action that
is wanted of it is launched. -/
theorem orchestrate_ok (rule : Node.Blob.Rule R) (hv : v.localNode = node) (h : Sound R node s)
    (at_ now : Float) (o : NodeOutcome) (p : String) :
    ∃ r s', orchestrate at_ now v o p s = .ok r s' ∧ Sound R node s'
      ∧ s'.daemon.settings = s.daemon.settings ∧ Handled s (wanted at_ v o s p) r s' := by
  cases config : v.localData?.bind (fun d => Entries.get? d.configs p) with
  | none =>
    have nothing : wanted at_ v o s p = none := by
      unfold wanted situation?
      rw [config]
      rfl
    exact ⟨none, s, orchestrate_unconfigured config, h, rfl,
      nothing ▸ .idle rfl (refused_refl s)⟩
  | some c =>
    let x := serviceSituation s v o at_ p c
    have wants : wanted at_ v o s p = x.decide.action := by
      unfold wanted situation?
      rw [config]
      rfl
    obtain ⟨y, t, recorded, soundT, calmT⟩ := quiet_mutate (Node.Blob.keeps_updateInstanceMonitor
      (p := p) rule at_ (applyDecision x.decide)) s h
    obtain ⟨u, noted, soundU, calmU⟩ := when_emit
      (c := x.decide.state ≠ x.monitor.state)
      (e := .service p x.monitor.state x.decide.state x.decide.reason) nofun
      (fun _ => launchWanted at_ now x.decide.action) soundT
    have calm := calmT.trans calmU
    rw [← hv] at recorded
    rw [orchestrate_eq config, (bind_ok recorded).trans noted, wants]
    cases action : x.decide.action with
    | none => exact ⟨none, u, rfl, soundU, calm.settings, .idle calm.running calm.events⟩
    | some a =>
      obtain ⟨path, idle⟩ := wanted_spec (wants.trans action)
      obtain ⟨b, s', launched, sound, settings, outcome⟩ := launch_ok rule soundU at_ now a
      rw [show launchWanted at_ now (some a) u = _ from bind_ok launched]
      cases outcome with
      | accepted action running events =>
        refine ⟨some a, s', rfl, sound, settings.trans calm.settings,
          .accepted action (path ▸ idle) ?_ (calm.events.append events)⟩
        rw [running, calm.running]
      | refused running events =>
        exact ⟨none, s', rfl, sound, settings.trans calm.settings,
          .refused (running.trans calm.running) (calm.events.append events)⟩

/-- A service is orchestrated, and then the others are. -/
theorem orchestrateAll_cons {at_ now : Float} {r : Option Action} {launched : List Action}
    {failed : List (String × DataError)} {t : Monitor W}
    (first : orchestrate at_ now v o p s = .ok r t)
    (rest : orchestrateAll at_ now v o services t = .ok (launched, failed) s') :
    orchestrateAll at_ now v o (p :: services) s = .ok (r.toList ++ launched, failed) s' := by
  have tried : attempt (orchestrate at_ now v o p) s = .ok (.ok r) t := by
    unfold attempt
    rw [first]
  unfold orchestrateAll
  refine (bind_ok tried).trans ((bind_ok rest).trans ?_)
  cases r <;> rfl

/-- **Orchestration** fails for no service. -/
theorem orchestrateAll_ok (rule : Node.Blob.Rule R) (hv : v.localNode = node)
    (h : Sound R node s) (at_ now : Float) (o : NodeOutcome) (services : List String) :
    ∃ launched s', orchestrateAll at_ now v o services s = .ok (launched, []) s'
      ∧ Sound R node s' ∧ Orchestrated at_ v o services s launched s' := by
  induction services generalizing s with
  | nil =>
    exact ⟨[], s, rfl, h, rfl, fun p => List.append_nil _,
      fun _ => ⟨[], refused_refl s, by simp, by simp⟩⟩
  | cons p services ih =>
    obtain ⟨r, t, first, soundT, settings, handled⟩ := orchestrate_ok rule hv h at_ now o p
    obtain ⟨launched, s', rest, sound, done⟩ := ih soundT
    refine ⟨r.toList ++ launched, s', orchestrateAll_cons first rest, sound,
      done.settings.trans settings, fun q => ?_, fun nodup => ?_⟩
    · rw [on_append, ← List.append_assoc, handled.accounts h soundT, done.accounts]
    · obtain ⟨fresh, nodup⟩ := List.nodup_cons.1 nodup
      obtain ⟨refused, events, either, apart⟩ := handled.outcome
      obtain ⟨refused', events', either', apart'⟩ := done.outcome nodup
      have here {a : Action} (ha : a ∈ r.toList ∨ a ∈ refused) : a.path = p :=
        (wanted_spec ((either a).1 ha)).1
      have there {a : Action} (ha : a ∈ launched ∨ a ∈ refused') : a.path ≠ p :=
        fun same => fresh (same ▸ ((either' a).1 ha).1)
      have same {a : Action} (ne : a.path ≠ p) :
          wanted at_ v o t a.path = wanted at_ v o s a.path :=
        wanted_congr (handled.frame (fun b hb => (wanted_spec hb).1) ne) settings
      refine ⟨refused ++ refused', events.append events', fun a => ?_, fun a ha ha' => ?_⟩
      -- what is wanted of a later service is the same before and after this one
      · rw [List.mem_append, List.mem_append, or_or_or_comm, either, either', List.mem_cons]
        by_cases path : a.path = p
        · simp [path, fresh]
        · rw [same path]
          simp [path, show wanted at_ v o s p ≠ some a from fun w => path (wanted_spec w).1]
      · rcases List.mem_append.1 ha with ha | ha <;> rcases List.mem_append.1 ha' with ha' | ha'
        · exact apart a ha ha'
        · exact there (.inr ha') (here (.inl ha))
        · exact there (.inl ha) (here (.inr ha'))
        · exact apart' a ha ha'

end HaCluster.Monitor
