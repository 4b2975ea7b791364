import HaCluster.Proofs.Monitor.Retain
import HaCluster.Proofs.Node.Beside

/-!
# The order of the services

A round decides about the local services one after the other. Each decision may write a
record, launch an action and enter it into the table, and an action that is refused is
written down at once. None of this is seen by the services that come later: they are decided
about on one view, and of the table each looks at its own entry (`order_of_services`).

What a service does is cut down to a step on the tree and the table (`decideIn`). It reads
and writes one status document and one entry of the table, so the steps of two services
commute (`decideIn_comm`), and by induction on the permutation so do the services of a round
(`decideAllIn_perm`). The rest of a round depends on the tree and the table alone (`Agrees`).

What does depend on the order is the world, which has launched the actions in another order,
and with it the numbers of the processes. So it is assumed of the launcher that its answer to
an action is not swayed by what it launched before, as far as `seen` shows of a process: all
of its number, or nothing.
-/

namespace HaCluster.Monitor

open Value Mutation Node.Blob

variable {W σ α β : Type}

/-! ## What the order may not change -/

/-- What a round makes of the services: the tree, and the table of running actions. Of a
process it is shown what `seen` shows of its number. -/
structure Core (σ : Type) where
  data : Value
  running : Entries (Action × σ × Float)

/-- The core of a monitor. -/
def core (seen : Nat → σ) (s : Monitor W) : Core σ where
  data := s.daemon.store.data
  running := Entries.mapValues (fun r => (r.action, seen r.process, r.since)) s.running

/-- What is decided about a service, and what comes of it: the action that was launched, if
any, or why the service failed. -/
structure Verdict where
  decision : Option Service.Decision
  result : Except DataError (Option Action)

/-! ## One service -/

section

variable {at_ : Float} {v : View} {o : NodeOutcome} {p q : String} {answer : Action → Option σ}

/-- The update of a record, as a step on trees. -/
def update (node p : String) (at_ : Float) (edit : Service.Monitor → Service.Monitor) (v : Value) :
    Except DataError Bool × Value :=
  (updateInstanceMonitor node p at_ edit).effect (Store.new v none)

/-- What launching an action that is wanted makes of the tree, and the action if it runs. Whether
it can be launched the launcher answers. -/
def launchIn (node p : String) (at_ : Float) (answer : Action → Option σ) :
    Option Action → Value → Except DataError (Option (Action × σ)) × Value
  | none => fun v => (.ok none, v)
  | some a =>
    match answer a with
    | some process => fun v => (.ok (some (a, process)), v)
    | none => andThen (update node p at_ (outcome a false)) fun _ v => (.ok none, v)

theorem launchIn_accepted {node : String} {a : Action} {process : σ}
    (answered : answer a = some process) :
    launchIn node p at_ answer (some a) = fun v => (.ok (some (a, process)), v) := by
  simp only [launchIn, answered]

theorem launchIn_refused {node : String} {a : Action} (answered : answer a = none) :
    launchIn node p at_ answer (some a)
      = andThen (update node p at_ (outcome a false)) fun _ v => (.ok none, v) := by
  simp only [launchIn, answered]

/-- What a decision makes of the tree, and the action that it launches. -/
def act (node p : String) (at_ : Float) (answer : Action → Option σ) (d : Service.Decision) :
    Value → Except DataError (Option (Action × σ)) × Value :=
  andThen (update node p at_ (applyDecision d)) fun _ => launchIn node p at_ answer d.action

/-- The table after a service was decided about. -/
def enter (at_ : Float) (p : String) (r : Except DataError (Option (Action × σ)))
    (running : Entries (Action × σ × Float)) : Entries (Action × σ × Float) :=
  match r with
  | .ok (some (a, process)) => Entries.insert running p (a, process, at_)
  | _ => running

/-- An action that is refused does not enter the table. -/
theorem enter_refused {node : String} {a : Action} (answered : answer a = none) (v : Value)
    (running : Entries (Action × σ × Float)) :
    enter at_ p (launchIn node p at_ answer (some a) v).1 running = running := by
  rw [launchIn_refused answered]
  unfold andThen
  cases update node p at_ (outcome a false) v with
  | mk changed w => cases changed <;> rfl

/-- What a service is decided about on, seen from a monitor that only the table of running
actions sets apart. -/
def situationIn (s : Monitor W) (at_ : Float) (v : View) (o : NodeOutcome) (p : String)
    (c : Service.Config) (running : Entries (Action × σ × Float)) : Service.Situation :=
  { serviceSituation s v o at_ p c with
    inFlight := (Entries.get? running p).map fun r => r.1.kind }

/-- One service, as a step on cores. -/
def decideIn (s : Monitor W) (answer : Action → Option σ) (at_ : Float) (v : View)
    (o : NodeOutcome) (p : String) (c : Core σ) : Verdict × Core σ :=
  match v.localData?.bind (fun d => Entries.get? d.configs p) with
  | none => (⟨none, .ok none⟩, c)
  | some config =>
    let d := (situationIn s at_ v o p config c.running).decide
    let r := act v.localNode p at_ answer d c.data
    (⟨some d, r.1.map fun l => l.map Prod.fst⟩, ⟨r.2, enter at_ p r.1 c.running⟩)

/-- A decision touches the document of its service. -/
theorem touches_act (node p : String) (at_ : Float) (answer : Action → Option σ)
    (d : Service.Decision) : Touches node p (act node p at_ answer d) := by
  refine (touches_update node p at_ (applyDecision d)).andThen fun _ => ?_
  unfold launchIn
  split
  · exact inside_pure _
  · split
    · exact inside_pure _
    · exact (touches_update node p at_ _).inside.andThen fun _ => inside_pure _

/-- The entries of the other services stay. -/
theorem get?_enter_of_ne (ne : p ≠ q) (r : Except DataError (Option (Action × σ)))
    (running : Entries (Action × σ × Float)) :
    Entries.get? (enter at_ p r running) q = Entries.get? running q := by
  unfold enter
  split
  · exact Entries.get?_insert_of_ne _ _ ne.symm
  · rfl

/-- Two services may be entered in either order. -/
theorem enter_comm (ne : p ≠ q) (r r' : Except DataError (Option (Action × σ)))
    (running : Entries (Action × σ × Float)) :
    enter at_ q r' (enter at_ p r running) = enter at_ p r (enter at_ q r' running) := by
  unfold enter
  split <;> split <;> try rfl
  exact Entries.insert_comm _ ne _ _

/-- **Two services** do not get in each other's way. -/
theorem decideIn_comm (s : Monitor W) (answer : Action → Option σ) (at_ : Float) (v : View)
    (o : NodeOutcome) (ne : p ≠ q) (c : Core σ) :
    (decideIn s answer at_ v o q (decideIn s answer at_ v o p c).2).1
        = (decideIn s answer at_ v o q c).1
      ∧ (decideIn s answer at_ v o p (decideIn s answer at_ v o q c).2).1
        = (decideIn s answer at_ v o p c).1
      ∧ (decideIn s answer at_ v o q (decideIn s answer at_ v o p c).2).2
        = (decideIn s answer at_ v o p (decideIn s answer at_ v o q c).2).2 := by
  unfold decideIn
  cases v.localData?.bind (fun d => Entries.get? d.configs p) with
  | none => exact ⟨rfl, rfl, rfl⟩
  | some config =>
    cases v.localData?.bind (fun d => Entries.get? d.configs q) with
    | none => exact ⟨rfl, rfl, rfl⟩
    | some config' =>
      have alone (c : Core σ) (r : Except DataError (Option (Action × σ))) :
          situationIn s at_ v o q config' (enter at_ p r c.running)
            = situationIn s at_ v o q config' c.running := by
        unfold situationIn
        rw [get?_enter_of_ne ne]
      have alone' (c : Core σ) (r : Except DataError (Option (Action × σ))) :
          situationIn s at_ v o p config (enter at_ q r c.running)
            = situationIn s at_ v o p config c.running := by
        unfold situationIn
        rw [get?_enter_of_ne ne.symm]
      obtain ⟨answered, answered', left⟩ := (touches_act v.localNode p at_ answer
        (situationIn s at_ v o p config c.running).decide).comm (touches_act v.localNode q at_ answer
          (situationIn s at_ v o q config' c.running).decide) ne c.data
      dsimp only
      rw [alone, alone', answered, answered', left, enter_comm ne]
      exact ⟨rfl, rfl, rfl⟩

/-- Several services, one after the other. -/
def decideAllIn (s : Monitor W) (answer : Action → Option σ) (at_ : Float) (v : View)
    (o : NodeOutcome) : List String → Core σ → List (String × Verdict) × Core σ
  | [], c => ([], c)
  | p :: rest, c =>
    let r := decideIn s answer at_ v o p c
    let rs := decideAllIn s answer at_ v o rest r.2
    ((p, r.1) :: rs.1, rs.2)

/-- A verdict does not depend on the services that were decided about before. -/
theorem decideIn_after (s : Monitor W) (ne : p ≠ q) (c : Core σ) :
    (decideIn s answer at_ v o q (decideIn s answer at_ v o p c).2).1
      = (decideIn s answer at_ v o q c).1 :=
  (decideIn_comm s answer at_ v o ne c).1

theorem decideAllIn_cons (s : Monitor W) (l : List String) (c : Core σ) :
    decideAllIn s answer at_ v o (p :: l) c
      = ((p, (decideIn s answer at_ v o p c).1)
          :: (decideAllIn s answer at_ v o l (decideIn s answer at_ v o p c).2).1,
        (decideAllIn s answer at_ v o l (decideIn s answer at_ v o p c).2).2) := rfl

/-- **In any order** of the services there are the same verdicts, and the same is left. -/
theorem decideAllIn_perm (s : Monitor W) (answer : Action → Option σ) (at_ : Float) (v : View)
    (o : NodeOutcome) {l l' : List String} (perm : l.Perm l') (c : Core σ) :
    (decideAllIn s answer at_ v o l c).1.Perm (decideAllIn s answer at_ v o l' c).1
      ∧ (decideAllIn s answer at_ v o l c).2 = (decideAllIn s answer at_ v o l' c).2 := by
  induction perm generalizing c with
  | nil => exact ⟨.refl _, rfl⟩
  | cons p _ ih =>
    obtain ⟨verdicts, left⟩ := ih (decideIn s answer at_ v o p c).2
    exact ⟨verdicts.cons _, left⟩
  | swap p q l =>
    by_cases same : p = q
    · subst same
      exact ⟨.refl _, rfl⟩
    · obtain ⟨here, there, left⟩ := decideIn_comm s answer at_ v o same c
      simp only [decideAllIn]
      rw [here, there, left]
      exact ⟨.swap _ _ _, rfl⟩
  | trans _ _ ih ih' => exact ⟨(ih c).1.trans (ih' c).1, (ih c).2.trans (ih' c).2⟩

/-- **Every verdict is about what there was at first**, if no service comes twice. -/
theorem decideAllIn_of_nodup (s : Monitor W) {l : List String} (nodup : l.Nodup) (c : Core σ) :
    (decideAllIn s answer at_ v o l c).1 = l.map fun p => (p, (decideIn s answer at_ v o p c).1) := by
  induction l generalizing c with
  | nil => rfl
  | cons p l ih =>
    obtain ⟨fresh, nodup⟩ := List.nodup_cons.1 nodup
    rw [decideAllIn_cons, ih nodup, List.map_cons]
    refine congrArg (List.cons _) (List.map_congr_left fun q hq => ?_)
    rw [decideIn_after (p := p) s fun same => fresh (same ▸ hq)]

end

/-! ## Steps that change the tree alone -/

section

variable {node : String} {s s' t : Monitor W}

/-- The store apart, the daemon is as it was, and so are the table and the world. -/
structure Stays (s s' : Monitor W) : Prop where
  daemon : s'.daemon = { s.daemon with store := s'.daemon.store }
  running : s'.running = s.running
  world : s'.world = s.world

theorem Stays.trans (h : Stays s s') (h' : Stays s' t) : Stays s t := by
  refine ⟨?_, h'.running.trans h.running, h'.world.trans h.world⟩
  rw [h'.daemon, h.daemon]

/-- A step of the monitor of a node does to the tree what a step on trees does, and answers
the same. -/
def Does (node : String) (m : Step W α) (f : Value → Except DataError α × Value) : Prop :=
  ∀ s : Monitor W, s.daemon.nodeName = node → ∃ s',
    attempt m s = .ok (f s.daemon.store.data).1 s'
      ∧ s'.daemon.store.data = (f s.daemon.store.data).2 ∧ Stays s s'

theorem attempt_ok {m : Step W α} {a : α} : attempt m s = .ok (.ok a) s' ↔ m s = .ok a s' := by
  unfold attempt
  cases m s <;> simp

theorem attempt_error {m : Step W α} {e : DataError} :
    attempt m s = .ok (.error e) s' ↔ m s = .error e s' := by
  unfold attempt
  cases m s <;> simp

theorem does_pure (a : α) : Does node (pure a : Step W α) fun v => (.ok a, v) :=
  fun s _ => ⟨s, rfl, rfl, rfl, rfl, rfl⟩

theorem does_bind {m : Step W α} {k : α → Step W β} {f : Value → Except DataError α × Value}
    {g : α → Value → Except DataError β × Value} (hm : Does node m f)
    (hk : ∀ a, Does node (k a) (g a)) : Does node (m >>= k) (andThen f g) := by
  intro s name
  obtain ⟨t, first, left, stays⟩ := hm s name
  unfold andThen
  cases made : f s.daemon.store.data with
  | mk answer w =>
    rw [made] at first left
    cases answer with
    | error e => exact ⟨t, attempt_error.2 (bind_error (attempt_error.1 first)), left, stays⟩
    | ok a =>
      have name' : t.daemon.nodeName = node := by
        rw [stays.daemon]
        exact name
      obtain ⟨u, second, left', stays'⟩ := hk a t name'
      rw [left] at second left'
      refine ⟨u, ?_, left', stays.trans stays'⟩
      unfold attempt at second ⊢
      rw [bind_ok (attempt_ok.1 first)]
      exact second

/-- A step that first reads the monitor. -/
theorem does_get {k : Monitor W → Step W β} {f : Value → Except DataError β × Value}
    (h : ∀ s, s.daemon.nodeName = node → Does node (k s) f) : Does node (get >>= k) f :=
  fun s name => h s name s name

theorem does_mutate {m : Mutation α} (blind : Blind m) :
    Does node (mutate m : Step W α) fun v => m.effect (Store.new v none) := by
  intro s name
  have same := blind s.daemon.store (Store.new s.daemon.store.data none) rfl
  dsimp only
  rw [← same]
  unfold effect attempt mutate onDaemon Daemon.mutate
  cases m s.daemon.store <;> exact ⟨_, rfl, rfl, rfl, rfl, rfl⟩

theorem does_emit (e : Event) : Does node (emit e : Step W Unit) fun v => (.ok (), v) :=
  fun _ _ => ⟨_, rfl, rfl, rfl, rfl, rfl⟩

/-- A step that notes an event under a condition first. -/
theorem does_when_emit {c : Prop} [Decidable c] (e : Event) {k : PUnit → Step W β}
    {f : Value → Except DataError β × Value} (hk : ∀ u, Does node (k u) f) :
    Does node (if c then emit e >>= k else k ⟨⟩) f := by
  split
  · exact does_bind (does_emit e) hk
  · exact hk _

theorem does_update (node p : String) (at_ : Float) (edit : Service.Monitor → Service.Monitor) :
    Does node (mutate (updateInstanceMonitor node p at_ edit) : Step W Bool)
      (update node p at_ edit) :=
  does_mutate blind_updateInstanceMonitor

/-- Writing down what is decided about a service in a situation, and noting whether its state
changes. -/
def noteDecision (node p : String) (at_ : Float) (x : Service.Situation) : Step W Unit := do
  let _ ← mutate (updateInstanceMonitor node p at_ (applyDecision x.decide))
  if x.decide.state ≠ x.monitor.state then
    emit (.service p x.monitor.state x.decide.state x.decide.reason)

theorem does_noteDecision (node p : String) (at_ : Float) (x : Service.Situation) :
    Does node (noteDecision node p at_ x : Step W Unit)
      (andThen (update node p at_ (applyDecision x.decide)) fun _ v => (.ok (), v)) := by
  refine does_bind (does_update node p at_ _) fun _ => ?_
  split
  · exact does_emit _
  · exact does_pure ()

end

/-! ## The services of a round -/

section

variable [World W] {seen : Nat → σ} {answer : Action → Option σ} {at_ now : Float} {v : View}
  {o : NodeOutcome} {node p : String} {s s' s₀ : Monitor W}

theorem does_submit (now : Float) (service : String) :
    Does node (submit now service : Step W Unit) fun v => (.ok (), v) :=
  fun _ _ => ⟨_, rfl, rfl, rfl, rfl, rfl⟩

/-- An action that could not be launched is written down as failed. -/
theorem does_complete (at_ now : Float) (a : Action) :
    Does node (complete at_ now a none : Step W Unit)
      (andThen (update node a.path at_ (outcome a false)) fun _ v => (.ok (), v)) := by
  unfold complete
  refine does_get fun s name => does_get fun t _ => ?_
  rw [name]
  refine does_bind (does_update node a.path at_ _) fun _ => ?_
  exact does_bind (does_submit now a.path) fun _ => does_bind (does_emit _) fun _ =>
    does_when_emit _ fun _ => does_pure ()

/-- Writing down the failure of an action that is refused is what launching it comes to. -/
theorem does_refused (at_ now : Float) {a : Action} (answered : answer a = none) :
    Does node (complete at_ now a none >>= fun _ => pure none : Step W (Option Action)) fun v =>
      let r := launchIn node a.path at_ answer (some a) v
      (r.1.map fun l => l.map Prod.fst, r.2) := by
  have steps : Does node (complete at_ now a none >>= fun _ => pure none : Step W (Option Action)) _ :=
    does_bind (does_complete at_ now a) fun _ => does_pure none
  refine (congrArg (Does node _) (funext fun v => ?_)).mp steps
  rw [launchIn_refused answered]
  unfold andThen
  dsimp only
  cases update node a.path at_ (outcome a false) v with
  | mk changed w => cases changed <;> rfl

/-- What the launcher answers to an action of a world. -/
def Answers (seen : Nat → σ) (answer : Action → Option σ) (w : W) : Prop :=
  ∀ a, (World.launch a w).1.map seen = answer a

/-- **What the launcher answers** to an action does not depend on what it launched before. -/
def Unswayed (W : Type) [World W] (seen : Nat → σ) : Prop :=
  ∀ (a b : Action) (w : W),
    (World.launch a (World.launch b w).2).1.map seen = (World.launch a w).1.map seen

theorem Answers.launch {w : W} (unswayed : Unswayed W seen) (h : Answers seen answer w)
    (a : Action) : Answers seen answer (World.launch a w).2 :=
  fun b => (unswayed b a w).trans (h b)

/-- The store apart, the daemon is as it was, and the launcher answers as before. -/
structure Spares (seen : Nat → σ) (answer : Action → Option σ) (s s' : Monitor W) : Prop where
  daemon : s'.daemon = { s.daemon with store := s'.daemon.store }
  answers : Answers seen answer s'.world

theorem Spares.trans {t : Monitor W} (h : Spares seen answer s s') (h' : Spares seen answer s' t) :
    Spares seen answer s t := by
  refine ⟨?_, h'.answers⟩
  rw [h'.daemon, h.daemon]

theorem Stays.spares (h : Stays s s') (answers : Answers seen answer s.world) :
    Spares seen answer s s' :=
  ⟨h.daemon, h.world ▸ answers⟩

omit [World W] in
theorem Stays.core (h : Stays s s') :
    Monitor.core seen s' = ⟨s'.daemon.store.data, (Monitor.core seen s).running⟩ := by
  unfold Monitor.core
  rw [h.running]

/-- An action that is wanted is launched and entered into the table, or it is written down as
failed. -/
theorem launchWanted_core (at_ now : Float) (unswayed : Unswayed W seen)
    (answers : Answers seen answer s.world)
    (name : s.daemon.nodeName = node) {w : Option Action} (path : ∀ a, w = some a → a.path = p) :
    let r := launchIn node p at_ answer w s.daemon.store.data
    ∃ s', attempt (launchWanted at_ now w) s = .ok (r.1.map fun l => l.map Prod.fst) s'
      ∧ core seen s' = ⟨r.2, enter at_ p r.1 (core seen s).running⟩
      ∧ Spares seen answer s s' := by
  cases w with
  | none => exact ⟨s, rfl, rfl, rfl, answers⟩
  | some a =>
    obtain rfl := path a rfl
    have answered := answers a
    have after := answers.launch unswayed a
    cases launched : World.launch a s.world with
    | mk process world =>
      rw [launched] at answered after
      cases process with
      | some n =>
        rw [launchIn_accepted answered.symm]
        let t : Monitor W := { s with
          world := world
          events := s.events ++ [.launched a]
          running := Entries.insert s.running a.path ⟨a, n, at_⟩ }
        have run : launch at_ now a s = .ok true t := by
          unfold launch
          rw [get_bind, launched]
          rfl
        refine ⟨t, attempt_ok.2 (bind_ok run), ?_, rfl, after⟩
        unfold core enter
        rw [Entries.mapValues_insert]
      | none =>
        obtain ⟨t, completed, left, stays⟩ := does_refused (W := W) at_ now answered.symm
          { s with world := world } name
        have run : launchWanted at_ now (some a) s
            = (complete at_ now a none >>= fun _ => pure none) { s with world := world } := by
          unfold launchWanted launch
          simp only [Option.elim_some, bind_assoc]
          rw [get_bind, launched]
          simp only [bind_assoc, pure_bind]
          rfl
        refine ⟨t, ?_, ?_, stays.daemon, stays.world ▸ after⟩
        · unfold attempt at completed ⊢
          rw [run, completed]
        · rw [stays.core, left, enter_refused answered.symm]
          rfl

omit [World W] in
/-- The situation of a service is the one that the core shows. -/
theorem situationIn_core (settings : s.daemon.settings = s₀.daemon.settings)
    (c : Service.Config) :
    situationIn s₀ at_ v o p c (core seen s).running = serviceSituation s v o at_ p c := by
  unfold situationIn serviceSituation core
  rw [Entries.get?_mapValues, Option.map_map, settings]
  rfl

/-- What is decided about a service is written down before anything is launched. -/
theorem orchestrate_noteDecision {c : Service.Config}
    (config : v.localData?.bind (fun d => Entries.get? d.configs p) = some c) :
    orchestrate at_ now v o p s
      = (noteDecision v.localNode p at_ (serviceSituation s v o at_ p c) >>= fun _ =>
        launchWanted at_ now (serviceSituation s v o at_ p c).decide.action) s := by
  rw [orchestrate_eq config]
  unfold noteDecision
  dsimp only
  rw [bind_assoc]
  refine congrFun (bind_congr fun _ => ?_) s
  split <;> rfl

/-- **A service is decided about** as on cores. -/
theorem orchestrate_core (at_ now : Float) (o : NodeOutcome) (p : String)
    (unswayed : Unswayed W seen) (answers : Answers seen answer s.world)
    (hv : v.localNode = s.daemon.nodeName) (settings : s.daemon.settings = s₀.daemon.settings) :
    let r := decideIn s₀ answer at_ v o p (core seen s)
    ∃ s', attempt (orchestrate at_ now v o p) s = .ok r.1.result s' ∧ core seen s' = r.2
      ∧ r.1.decision = (situation? at_ v o s p).map Service.Situation.decide
      ∧ Spares seen answer s s' := by
  unfold decideIn situation?
  cases config : v.localData?.bind (fun d => Entries.get? d.configs p) with
  | none => exact ⟨s, attempt_ok.2 (orchestrate_unconfigured config), rfl, rfl, rfl, answers⟩
  | some c =>
    dsimp only
    rw [situationIn_core settings]
    have ran : orchestrate at_ now v o p s = _ := orchestrate_noteDecision config
    generalize sit : serviceSituation s v o at_ p c = x at ran ⊢
    have path (a : Action) (wanted : x.decide.action = some a) : a.path = p := by
      subst sit
      exact Service.Situation.about_decide a wanted
    have decided : some x.decide = some (serviceSituation s v o at_ p c).decide :=
      congrArg (fun x => some x.decide) sit.symm
    obtain ⟨t, noted, left, stays⟩ := does_noteDecision (W := W) v.localNode p at_ x s hv.symm
    unfold act
    unfold andThen at noted left ⊢
    cases made : update v.localNode p at_ (applyDecision x.decide) s.daemon.store.data with
    | mk answered w =>
      have data : (core seen s).data = s.daemon.store.data := rfl
      rw [made] at noted left
      rw [data, made]
      cases answered with
      | error e =>
        refine ⟨t, ?_, ?_, decided, stays.spares answers⟩
        · exact attempt_error.2 (ran.trans (bind_error (attempt_error.1 noted)))
        · rw [stays.core, left]
          rfl
      | ok changed =>
        have name : t.daemon.nodeName = v.localNode := by
          rw [stays.daemon]
          exact hv.symm
        obtain ⟨s', launched, after, spares⟩ := launchWanted_core at_ now unswayed
          (stays.spares answers).answers name path
        refine ⟨s', ?_, ?_, decided, (stays.spares answers).trans spares⟩
        · unfold attempt at launched ⊢
          rw [ran, bind_ok (attempt_ok.1 noted), launched, left]
        · rw [after, left, stays.core]

/-! ### One after the other -/

/-- The actions that were launched. -/
def launchedIn (verdicts : List (String × Verdict)) : List Action :=
  verdicts.filterMap fun e => e.2.result.toOption.join

/-- The services that failed. -/
def failedIn (verdicts : List (String × Verdict)) : List (String × DataError) :=
  verdicts.filterMap fun e =>
    match e.2.result with
    | .ok _ => none
    | .error err => some (e.1, err)

/-- What is decided about services that are taken one after the other. -/
def decisions (at_ now : Float) (v : View) (o : NodeOutcome) :
    List String → Monitor W → List (String × Option Service.Decision)
  | [], _ => []
  | p :: rest, s => (p, (situation? at_ v o s p).map Service.Situation.decide)
      :: decisions at_ now v o rest (Step.after (orchestrate at_ now v o p) s)

omit [World W] in
theorem after_of_attempt {m : Step W α} {r : Except DataError α} (run : attempt m s = .ok r s') :
    Step.after m s = s' := by
  unfold attempt at run
  unfold Step.after
  cases result : m s <;> rw [result] at run <;> cases run <;> rfl

/-- **The services are decided about** as on cores. -/
theorem orchestrateAll_core (at_ now : Float) (o : NodeOutcome) (services : List String)
    (unswayed : Unswayed W seen) (answers : Answers seen answer s.world) (hv : v.localNode = s.daemon.nodeName)
    (settings : s.daemon.settings = s₀.daemon.settings) :
    let r := decideAllIn s₀ answer at_ v o services (core seen s)
    ∃ s', orchestrateAll at_ now v o services s = .ok (launchedIn r.1, failedIn r.1) s'
      ∧ core seen s' = r.2
      ∧ decisions at_ now v o services s = r.1.map (fun e => (e.1, e.2.decision))
      ∧ Spares seen answer s s' := by
  induction services generalizing s with
  | nil => exact ⟨s, rfl, rfl, rfl, rfl, answers⟩
  | cons p services ih =>
    obtain ⟨t, first, here, decided, spares⟩ := orchestrate_core at_ now o p unswayed
      answers hv settings
    have hv' : v.localNode = t.daemon.nodeName := by
      rw [spares.daemon]
      exact hv
    have settings' : t.daemon.settings = s₀.daemon.settings := by
      rw [spares.daemon]
      exact settings
    obtain ⟨s', rest, there, decided', spares'⟩ := ih spares.answers hv' settings'
    rw [here] at rest there decided'
    refine ⟨s', ?_, there, ?_, spares.trans spares'⟩
    · unfold orchestrateAll
      rw [bind_ok first, bind_ok rest, decideAllIn_cons]
      generalize (decideAllIn s₀ answer at_ v o services _).1 = verdicts
      unfold launchedIn failedIn
      rw [List.filterMap_cons, List.filterMap_cons]
      cases (decideIn s₀ answer at_ v o p (core seen s)).1.result with
      | error e => rfl
      | ok launched => cases launched <;> rfl
    · rw [decideAllIn_cons, List.map_cons, ← decided', decided, ← after_of_attempt first]
      rfl

end

/-! ## The rest of a round -/

section

variable {seen : Nat → σ} {s t : Monitor W} {at_ : Float} {o : Outlook}

/-- Two monitors with one core and, the stores apart, one daemon. -/
structure Twins (seen : Nat → σ) (s t : Monitor W) : Prop where
  daemon : t.daemon = { s.daemon with store := t.daemon.store }
  core : core seen t = core seen s

namespace Twins

theorem refl (s : Monitor W) : Twins seen s s := ⟨rfl, rfl⟩

variable (h : Twins seen s t)

include h

theorem name : t.daemon.nodeName = s.daemon.nodeName := by
  rw [h.daemon]

theorem settings : t.daemon.settings = s.daemon.settings := by
  rw [h.daemon]

theorem peers : t.daemon.peers = s.daemon.peers := by
  rw [h.daemon]

theorem data : t.daemon.store.data = s.daemon.store.data := congrArg Core.data h.core

theorem length_running : t.running.length = s.running.length := by
  have length := congrArg (fun c => c.running.length) h.core
  simpa [Monitor.core, Entries.mapValues] using length

theorem contains_running (p : String) :
    Entries.contains t.running p = Entries.contains s.running p := by
  have found := congrArg (fun c => (Entries.get? c.running p).isSome) h.core
  unfold Entries.contains
  simpa [Monitor.core, Entries.get?_mapValues] using found

theorem view : o.view at_ t = o.view at_ s := by
  unfold Outlook.view Daemon.viewOf
  rw [h.name, h.settings, h.peers, h.data]

/-- Monitors whose daemons become the same, the stores apart, stay twins. -/
theorem become {d d' : Daemon} (daemon : d' = { d with store := d'.store })
    (same : d'.store.data = d.store.data) :
    Twins seen { s with daemon := d } { t with daemon := d' } := by
  refine ⟨daemon, ?_⟩
  have running := congrArg Core.running h.core
  unfold Monitor.core at running ⊢
  dsimp only at running ⊢
  rw [same, running]

end Twins

/-- Two runs answer the same, up to a relation, or fail alike, and leave twins. -/
inductive Agree (seen : Nat → σ) (same : α → α → Prop) :
    EStateM.Result DataError (Monitor W) α → EStateM.Result DataError (Monitor W) α → Prop
  | ok {a b : α} {s t : Monitor W} : same a b → Twins seen s t → Agree seen same (.ok a s) (.ok b t)
  | error {e : DataError} {s t : Monitor W} : Twins seen s t →
    Agree seen same (.error e s) (.error e t)

/-- A step does the same on twins. -/
def Agrees (seen : Nat → σ) (m : Step W α) : Prop :=
  ∀ s t, Twins seen s t → Agree seen Eq (m s) (m t)

theorem agrees_pure (a : α) : Agrees seen (pure a : Step W α) := fun _ _ h => .ok rfl h

theorem agree_bind {same : α → α → Prop} {same' : β → β → Prop} {m m' : Step W α}
    {k k' : α → Step W β} (first : Agree seen same (m s) (m' t))
    (rest : ∀ a b s t, same a b → Twins seen s t → Agree seen same' (k a s) (k' b t)) :
    Agree seen same' ((m >>= k) s) ((m' >>= k') t) := by
  cases hm : m s <;> cases hm' : m' t <;> rw [hm, hm'] at first <;> cases first
  case ok.ok.ok a s b t answers twins =>
    rw [bind_ok hm, bind_ok hm']
    exact rest a b s t answers twins
  case error.error.error twins =>
    rw [bind_error hm, bind_error hm']
    exact .error twins

theorem agrees_bind {m : Step W α} {k : α → Step W β} (hm : Agrees seen m)
    (hk : ∀ a, Agrees seen (k a)) : Agrees seen (m >>= k) := fun s t h =>
  agree_bind (hm s t h) fun a _ s t same h => same ▸ hk a s t h

/-- A step that reads what is the same in twins. -/
theorem agrees_read {γ : Type} (read : Monitor W → γ) {k : γ → Step W β}
    (same : ∀ s t, Twins seen s t → read t = read s) (hk : ∀ x, Agrees seen (k x)) :
    Agrees seen (get >>= fun s => k (read s)) := by
  intro s t h
  show Agree seen Eq (k (read s) s) (k (read t) t)
  rw [same s t h]
  exact hk _ s t h

theorem agrees_forM {k : α → Step W PUnit} {l : List α} (hk : ∀ a, Agrees seen (k a)) :
    Agrees seen (l.forM k) := by
  induction l with
  | nil => exact agrees_pure _
  | cons a l ih => exact agrees_bind (hk a) fun _ => ih

theorem agrees_mutate {m : Mutation α} (blind : Blind m) : Agrees seen (mutate m : Step W α) := by
  intro s t h
  have same := blind s.daemon.store t.daemon.store h.data.symm
  unfold effect at same
  unfold mutate onDaemon Daemon.mutate
  cases hs : m s.daemon.store <;> cases ht : m t.daemon.store <;> rw [hs, ht] at same <;>
    obtain ⟨answer, left⟩ := Prod.mk.inj same <;> cases answer
  case ok.ok.refl => exact .ok rfl (h.become (by rw [h.daemon]) left.symm)
  case error.error.refl => exact .error (h.become (by rw [h.daemon]) left.symm)

theorem agrees_purge (peer : String) :
    Agrees seen (onDaemon (Daemon.purge peer) : Step W PUnit) := by
  intro s t h
  have same := blind_unsetIfPresent (p := Layout.node peer) s.daemon.store t.daemon.store h.data.symm
  unfold effect at same
  unfold onDaemon Daemon.purge PeerTable.purge
  dsimp only
  rw [h.peers]
  cases hs : Store.unsetIfPresent (Layout.node peer) s.daemon.store <;>
    cases ht : Store.unsetIfPresent (Layout.node peer) t.daemon.store <;> rw [hs, ht] at same <;>
    obtain ⟨answer, left⟩ := Prod.mk.inj same <;> cases answer
  case ok.ok.refl => exact .ok rfl (h.become (by rw [h.daemon]) left.symm)
  case error.error.refl => exact .error (h.become (by rw [h.daemon]) left.symm)

theorem agrees_dropOrphans (v : View) : Agrees seen (dropOrphans v : Step W Unit) := by
  refine agrees_read (fun s => orphans s v)
    (k := fun l => l.forM fun service => mutate (dropInstance v.localNode service))
    (fun s t h => ?_) fun l => agrees_forM fun service =>
      agrees_mutate (blind_bind blind_unsetIfPresent fun _ => blind_pure ())
  unfold orphans
  simp only [h.contains_running]

theorem agrees_purgeDownPeers (live : List String) (at_ : Float) :
    Agrees seen (purgeDownPeers live at_ : Step W (List String)) := by
  refine agrees_read (fun s => downPeers s.daemon live at_)
    (k := fun peers => (do
      peers.forM fun peer => onDaemon (Daemon.purge peer)
      pure peers)) (fun s t h => ?_) fun peers =>
    agrees_bind (agrees_forM fun peer => agrees_purge peer) fun _ => agrees_pure peers
  unfold downPeers
  rw [h.name, h.settings, h.data]

theorem agrees_tidy (at_ : Float) (o : Outlook) :
    Agrees seen (tidy at_ o : Step W (List String × Bool)) := by
  unfold tidy
  refine agrees_bind (agrees_purgeDownPeers o.live at_) fun purged => ?_
  intro s t h
  rw [get_bind, get_bind, get_bind, get_bind, h.name, h.length_running]
  have stamped : Agrees seen
      (mutate (stamp s.daemon.nodeName s.running.length at_) : Step W Unit) :=
    agrees_mutate (blind_bind blind_set fun _ => blind_bind blind_set fun _ => blind_pure ())
  refine agree_bind (stamped s t h) fun _ _ s t _ h => ?_
  rw [get_bind, get_bind, get_bind, get_bind]
  have idle : t.running.isEmpty = s.running.isEmpty := by
    rw [Bool.eq_iff_iff, List.isEmpty_iff_length_eq_zero, List.isEmpty_iff_length_eq_zero,
      h.length_running]
  have exit : shutdownComplete t (o.view at_ t) o.node.state
      = shutdownComplete s (o.view at_ s) o.node.state := by
    unfold shutdownComplete
    rw [h.view, idle]
  rw [exit]
  exact .ok rfl h

end

/-! ## Rounds -/

section

variable [World W] {seen : Nat → σ} {arrange : List String → List String}

/-- The services of a round, in another order. -/
def attendIn (arrange : List String → List String) (at_ now : Float) (o : Outlook) :
    Step W (List Action × List (String × DataError)) := do
  if o.node.hold then pure ([], [])
  else do
    let v := o.view at_ (← get)
    let r ← orchestrateAll at_ now v o.node (arrange v.localServices)
    dropOrphans v
    pure r

/-- A round that takes the services in another order. -/
def roundIn (arrange : List String → List String) (host : Daemon.Host) (now : Moment)
    (at_ : Float) : Step W Report :=
  prepare host now at_ >>= fun o => attendIn arrange at_ now.wall o >>= conclude at_ o

/-- In the order in which they come, this is a round. -/
theorem roundIn_id (host : Daemon.Host) (now : Moment) (at_ : Float) :
    (roundIn id host now at_ : Step W Report) = round host now at_ :=
  (round_eq host now at_).symm

/-- Two reports that only the order of the services sets apart. The patches, which may list the
changes in another order, are not compared. -/
structure Report.Alike (r r' : Report) : Prop where
  nodeState : r.nodeState = r'.nodeState
  launched : r.launched.Perm r'.launched
  completed : r.completed = r'.completed
  failed : r.failed.Perm r'.failed
  purged : r.purged = r'.purged
  exit : r.exit = r'.exit

/-- Two rounds that only the order of the services sets apart: they report alike or fail alike,
and leave the same tree and the same table. -/
inductive SameOutcome (seen : Nat → σ) :
    EStateM.Result DataError (Monitor W) Report → EStateM.Result DataError (Monitor W) Report → Prop
  | ok {r r' : Report} {s s' : Monitor W} (reports : r.Alike r')
    (left : core seen s = core seen s') : SameOutcome seen (.ok r s) (.ok r' s')
  | error {e : DataError} {s s' : Monitor W} (left : core seen s = core seen s') :
    SameOutcome seen (.error e s) (.error e s')

omit [World W] in
theorem sameOutcome_refl (x : EStateM.Result DataError (Monitor W) Report) :
    SameOutcome seen x x := by
  cases x with
  | ok r s => exact .ok ⟨rfl, .refl _, rfl, .refl _, rfl, rfl⟩ rfl
  | error e s => exact .error rfl

omit [World W] in
/-- What is left of a round is the same after services in another order. -/
theorem sameOutcome_conclude {at_ : Float} {o : Outlook} {s : Monitor W}
    {m m' : Step W (List Action × List (String × DataError))}
    (agree : Agree seen (fun done done' => done.1.Perm done'.1 ∧ done.2.Perm done'.2) (m s) (m' s)) :
    SameOutcome seen ((m >>= conclude at_ o) s) ((m' >>= conclude at_ o) s) := by
  cases hm : m s <;> cases hm' : m' s <;> rw [hm, hm'] at agree <;> cases agree
  case error.error.error twins =>
    rw [bind_error hm, bind_error hm']
    exact .error twins.core.symm
  case ok.ok.ok done t done' u perm twins =>
    rw [bind_ok hm, bind_ok hm', conclude_eq, conclude_eq]
    have tidied := agrees_tidy at_ o t u twins
    cases ht : tidy at_ o t <;> cases hu : tidy at_ o u <;> rw [ht, hu] at tidied <;> cases tidied
    case ok.ok.ok same twins =>
      cases same
      rw [bind_ok ht, bind_ok hu]
      exact .ok ⟨rfl, perm.1, rfl, perm.2, rfl, rfl⟩ twins.core.symm
    case error.error.error twins =>
      rw [bind_error ht, bind_error hu]
      exact .error twins.core.symm

section

variable {at_ now : Float} {v : View} {o : NodeOutcome} {s : Monitor W} {l l' : List String}

/-- **Services in another order** are decided about alike, and leave twins. -/
theorem orchestrateAll_perm (at_ now : Float) (o : NodeOutcome) (unswayed : Unswayed W seen)
    (hv : v.localNode = s.daemon.nodeName)
    (perm : l.Perm l') :
    (decisions at_ now v o l s).Perm (decisions at_ now v o l' s)
      ∧ Agree seen (fun done done' => done.1.Perm done'.1 ∧ done.2.Perm done'.2)
        (orchestrateAll at_ now v o l s) (orchestrateAll at_ now v o l' s) := by
  have answers : Answers seen (fun a => (World.launch a s.world).1.map seen) s.world := fun _ => rfl
  obtain ⟨t, run, left, decided, spares⟩ :=
    orchestrateAll_core at_ now o l unswayed answers hv
      (rfl : s.daemon.settings = s.daemon.settings)
  obtain ⟨u, run', left', decided', spares'⟩ :=
    orchestrateAll_core at_ now o l' unswayed answers hv
      (rfl : s.daemon.settings = s.daemon.settings)
  obtain ⟨verdicts, same⟩ := decideAllIn_perm s
    (fun a => (World.launch a s.world).1.map seen) at_ v o perm (core seen s)
  rw [decided, decided', run, run']
  refine ⟨verdicts.map _, .ok ⟨verdicts.filterMap _, verdicts.filterMap _⟩ ⟨?_, ?_⟩⟩
  · rw [spares'.daemon, spares.daemon]
  · rw [left, left', same]

/-- Each of them is decided about on what there was at first, if none comes twice. -/
theorem decisions_of_nodup (unswayed : Unswayed W seen) (hv : v.localNode = s.daemon.nodeName)
    (nodup : l.Nodup) :
    decisions at_ now v o l s
      = l.map fun p => (p, (situation? at_ v o s p).map Service.Situation.decide) := by
  have answers : Answers seen (fun a => (World.launch a s.world).1.map seen) s.world := fun _ => rfl
  obtain ⟨-, -, -, decided, -⟩ :=
    orchestrateAll_core at_ now o l unswayed answers hv
      (rfl : s.daemon.settings = s.daemon.settings)
  rw [decided, decideAllIn_of_nodup s nodup, List.map_map]
  refine List.map_congr_left fun p _ => ?_
  obtain ⟨-, -, -, decision, -⟩ := orchestrate_core at_ now o p unswayed answers hv
    (rfl : s.daemon.settings = s.daemon.settings)
  exact congrArg (Prod.mk p) decision

end

/-- The services of a round are decided about alike in another order. -/
structure SameDecisions (arrange : List String → List String) (now : Moment) (at_ : Float)
    (o : Outlook) (t : Monitor W) : Prop where
  /-- What is decided about each of them is the same. -/
  perm : (decisions at_ now.wall (o.view at_ t) o.node (arrange (o.services at_ t)) t).Perm
    (decisions at_ now.wall (o.view at_ t) o.node (o.services at_ t) t)
  /-- If none of them comes twice, each is decided about on what there was before the first
  one. -/
  first : (o.services at_ t).Nodup →
    decisions at_ now.wall (o.view at_ t) o.node (arrange (o.services at_ t)) t
      = (arrange (o.services at_ t)).map fun p =>
        (p, (situation? at_ (o.view at_ t) o.node t p).map Service.Situation.decide)

/-- **The order of the services does not matter** to a round of any monitor, if the launcher is
not swayed by what it launched before. However they are arranged, the round reports and leaves
the same, and decides the same about each of them. -/
theorem order_of_services (unswayed : Unswayed W seen) (perm : ∀ l, (arrange l).Perm l)
    (host : Daemon.Host) (now : Moment) (at_ : Float) (s : Monitor W) :
    SameOutcome seen (roundIn arrange host now at_ s) (round host now at_ s)
      ∧ ∀ o t, prepare host now at_ s = .ok o t → SameDecisions arrange now at_ o t := by
  constructor
  · rw [round_eq]
    unfold roundIn
    cases prepared : prepare host now at_ s with
    | error e t =>
      rw [bind_error prepared, bind_error prepared]
      exact sameOutcome_refl _
    | ok o t =>
      rw [bind_ok prepared, bind_ok prepared]
      refine sameOutcome_conclude ?_
      unfold attendIn attend
      cases o.node.hold with
      | true => exact .ok ⟨.refl _, .refl _⟩ (.refl t)
      | false =>
        obtain ⟨-, agree⟩ := orchestrateAll_perm at_ now.wall o.node unswayed
          (rfl : (o.view at_ t).localNode = t.daemon.nodeName) (perm (o.view at_ t).localServices)
        rw [if_neg Bool.false_ne_true, if_neg Bool.false_ne_true, get_bind, get_bind]
        refine agree_bind agree fun done done' u w same twins => ?_
        exact agree_bind (agrees_dropOrphans _ u w twins) fun _ _ _ _ _ twins => .ok same twins
  · intro o t _
    exact ⟨(orchestrateAll_perm at_ now.wall o.node unswayed rfl (perm _)).1, fun nodup =>
      decisions_of_nodup unswayed rfl ((perm _).nodup_iff.2 nodup)⟩

end

/-- The scripted world launches every action or none. -/
theorem unswayed_simulation : Unswayed Simulation.World fun _ => () := by
  have answer (a : Action) (w : Simulation.World) :
      (World.launch a w).1.map (fun _ => ()) = if w.refusing then none else some () := by
    show (Simulation.World.launch a w).1.map _ = _
    unfold Simulation.World.launch
    split <;> rfl
  have refusing (a : Action) (w : Simulation.World) :
      (World.launch a w).2.refusing = w.refusing := by
    show (Simulation.World.launch a w).2.refusing = _
    unfold Simulation.World.launch Simulation.World.nextCode
    split
    · rfl
    · dsimp only
      split <;> rfl
  intro a b w
  rw [answer, answer, refusing]

namespace Script

/-- The node with two services to keep up, ready to be started. -/
def pair : Monitor Simulation.World :=
  let configure (p : String) (s : Monitor Simulation.World) :=
    { s with daemon := (Daemon.serve (Moment.ofMillis 0) (.postConfig p (some
      (.map [("orchestrate", .str "ha"), ("scope", .ofStrings ["n1"])])))).after s.daemon }
  (turnsAt ⟨"n1", 0⟩ ([0, 1000, 2000].map Moment.ofMillis) (configure "b" (configure "a" fresh))).2

/-- What the next round launches. -/
def next (m : Daemon.Host → Moment → Float → Step Simulation.World Report) : List Action :=
  let now := Moment.ofMillis 8000
  match m ⟨"n1", 0⟩ now now.wall pair with
  | .ok r _ => r.launched
  | .error _ _ => []

end Script

open Script in
/-- Both services are started, in the order in which they are taken. -/
theorem order_of_services_pair :
    next round = [.whole "a" .start, .whole "b" .start]
      ∧ next (roundIn List.reverse) = [.whole "b" .start, .whole "a" .start]
      ∧ ∀ host now at_, SameOutcome (fun _ => ()) (roundIn List.reverse host now at_ pair)
        (round host now at_ pair) :=
  ⟨by decide +kernel, by decide +kernel, fun host now at_ =>
    (order_of_services unswayed_simulation List.reverse_perm host now at_ pair).1⟩

end HaCluster.Monitor
